import EnergyStep.Proofs.Search.Valley
import EnergyStep.Search.LineMinimum

/-!
# Intervals around the best sample

Both searches inside a bracket keep an interval and the best sample in it, and cut the interval at
the best place or at a new one. The sample stays inside and no higher than the ends, so the bottom of
a valley is never cut off, and an interval that is settled has no place far from the best one.

* `Enclosure`: an interval and the best sample in it; `Enclosure.cut` is how a new sample cuts it.
* `Enclosure.Sound.cut`: a cut keeps the best sample inside, with no lower values at the ends.
* `Enclosure.cut_ssubset`: a cut leaves out a part of the interval.
* `Enclosure.settled_iff`: the test of convergence.
-/

namespace EnergyStep

variable {α : Type} [Exact α]

theorem minimalStep_eq (tolerance x : α) : minimalStep tolerance x = tolerance * |x| + 1e-12 := rfl

theorem minimalStep_pos {tolerance : α} (h : 0 < tolerance) (x : α) : 0 < minimalStep tolerance x := by
  have hz : (0 : α) < 1e-12 := by norm_num
  rw [minimalStep_eq]
  positivity

/-- A minimal step away minimal steps are at least half as long, if the tolerance is no more than a
half. -/
theorem minimalStep_le_two_mul {tolerance x y : α} (htol : 0 < tolerance) (hhalf : tolerance ≤ 1 / 2)
    (h : |y - x| ≤ minimalStep tolerance x) :
    minimalStep tolerance x ≤ 2 * minimalStep tolerance y := by
  have hpos := minimalStep_pos htol x
  have hxy : |x| ≤ |y| + minimalStep tolerance x := by
    have := abs_sub_abs_le_abs_sub x y
    rw [abs_sub_comm] at this
    linarith
  have hscaled : tolerance * |x| ≤ tolerance * |y| + tolerance * minimalStep tolerance x := by
    rw [← mul_add]
    exact mul_le_mul_of_nonneg_left hxy htol.le
  have hshort : tolerance * minimalStep tolerance x ≤ 1 / 2 * minimalStep tolerance x :=
    mul_le_mul_of_nonneg_right hhalf hpos.le
  have hz : (0 : α) < 1e-12 := by norm_num
  rw [minimalStep_eq] at hpos hscaled hshort ⊢
  rw [minimalStep_eq]
  linarith

theorem midpoint_eq (lower upper : α) : midpoint lower upper = (lower + upper) / 2 := by
  unfold midpoint; rw [Scalar.half_eq, one_div_mul_eq_div]

/-- The size with the sign of the direction. -/
theorem copySign_eq {size : α} (h : 0 ≤ size) (direction : α) :
    Scalar.copySign size direction = if direction < 0 then -size else size := by
  show (if direction < 0 then -|size| else |size|) = _
  rw [abs_of_nonneg h]

/-- An interval and the best sample in it. -/
structure Enclosure (α : Type) where
  lower : α
  best : Sample α
  upper : α

namespace Enclosure

/-- Cuts the interval at the best place or at the new one. -/
def cut (i : Enclosure α) (u : Sample α) : Enclosure α :=
  if u.value ≤ i.best.value then
    if u.x ≥ i.best.x then ⟨i.best.x, u, i.upper⟩ else ⟨i.lower, u, i.best.x⟩
  else
    if u.x < i.best.x then ⟨u.x, i.best, i.upper⟩ else ⟨i.lower, i.best, u.x⟩

/-- **The best sample is inside**, a sample of `f` no higher than the values at both ends. -/
structure Sound (f : α → Except (Fault α) α) (i : Enclosure α) : Prop where
  above_lower : i.lower < i.best.x
  below_upper : i.best.x < i.upper
  best : f i.best.x = .ok i.best.value
  lower : ∃ v, f i.lower = .ok v ∧ i.best.value ≤ v
  upper : ∃ v, f i.upper = .ok v ∧ i.best.value ≤ v

variable {f : α → Except (Fault α) α} {i : Enclosure α} {u : Sample α}

/-- **A cut keeps the best sample inside**, whichever sample is then the best. -/
theorem Sound.cut (h : i.Sound f) (hu : u.Of f) (hl : i.lower < u.x) (hr : u.x < i.upper)
    (hne : u.x ≠ i.best.x) : (i.cut u).Sound f := by
  unfold Enclosure.cut
  split_ifs with hv hx hx
  · have hlt : i.best.x < u.x := lt_of_le_of_ne hx hne.symm
    obtain ⟨v, hv', hle⟩ := h.upper
    exact ⟨hlt, hr, hu, ⟨_, h.best, hv⟩, ⟨v, hv', hv.trans hle⟩⟩
  · obtain ⟨v, hv', hle⟩ := h.lower
    exact ⟨hl, not_le.1 hx, hu, ⟨v, hv', hv.trans hle⟩, ⟨_, h.best, hv⟩⟩
  · exact ⟨hx, h.below_upper, h.best, ⟨_, hu, (not_le.1 hv).le⟩, h.upper⟩
  · have hlt : i.best.x < u.x := lt_of_le_of_ne (not_lt.1 hx) hne.symm
    exact ⟨h.above_lower, hlt, h.best, h.lower, ⟨_, hu, (not_le.1 hv).le⟩⟩

/-- **A cut leaves out a part of the interval.** -/
theorem cut_ssubset (hin : i.lower < i.best.x ∧ i.best.x < i.upper) (hl : i.lower < u.x)
    (hr : u.x < i.upper) :
    Set.Icc (i.cut u).lower (i.cut u).upper ⊂ Set.Icc i.lower i.upper := by
  have hle : i.lower ≤ i.upper := (hin.1.trans hin.2).le
  unfold cut
  split_ifs
  · exact Set.Icc_ssubset_Icc_left hle hin.1 le_rfl
  · exact Set.Icc_ssubset_Icc_right hle le_rfl hin.2
  · exact Set.Icc_ssubset_Icc_left hle hl le_rfl
  · exact Set.Icc_ssubset_Icc_right hle le_rfl hr

/-- A cut at a place of the interval leaves a part of it with the best place in it. -/
theorem cut_within (hin : i.lower ≤ i.best.x ∧ i.best.x ≤ i.upper) (hl : i.lower ≤ u.x)
    (hr : u.x ≤ i.upper) : (i.lower ≤ (i.cut u).lower ∧ (i.cut u).upper ≤ i.upper) ∧
      (i.cut u).lower ≤ (i.cut u).best.x ∧ (i.cut u).best.x ≤ (i.cut u).upper := by
  unfold cut
  split_ifs with _ hx hx
  · exact ⟨⟨hin.1, le_rfl⟩, hx, hr⟩
  · exact ⟨⟨le_rfl, hin.2⟩, hl, (not_le.1 hx).le⟩
  · exact ⟨⟨hl, le_rfl⟩, hx.le, hin.2⟩
  · exact ⟨⟨le_rfl, hr⟩, hin.1, not_lt.1 hx⟩

/-- The bottom of a valley is in the interval. -/
theorem Sound.bottom_inside (h : i.Sound f) {bottom : α} (hv : Valley f bottom) :
    i.lower < bottom ∧ bottom < i.upper := by
  obtain ⟨va, ha, hla⟩ := h.lower
  obtain ⟨vb, hb, hlb⟩ := h.upper
  exact hv.between ha h.best hb h.above_lower h.below_upper hla hlb

/-- The interval is settled around the best place. -/
def Settled (tolerance : α) (i : Enclosure α) : Prop :=
  isSettled tolerance i.lower i.upper i.best.x = true

/-- **Settled** means that neither end is farther than two minimal steps. -/
theorem settled_iff {tolerance : α} : i.Settled tolerance ↔
    i.best.x - i.lower ≤ 2 * minimalStep tolerance i.best.x ∧
      i.upper - i.best.x ≤ 2 * minimalStep tolerance i.best.x := by
  unfold Settled isSettled
  rw [decide_eq_true_iff, midpoint_eq, Scalar.two_eq, Scalar.half_eq]
  show |_| ≤ _ ↔ _
  rw [abs_le]
  constructor <;> rintro ⟨h1, h2⟩ <;> constructor <;> linarith

/-- Otherwise one part of the interval is more than two minimal steps long. -/
theorem long_of_not_settled {tolerance : α} (h : ¬ i.Settled tolerance) :
    2 * minimalStep tolerance i.best.x < i.best.x - i.lower ∨
      2 * minimalStep tolerance i.best.x < i.upper - i.best.x := by
  rw [settled_iff, not_and_or, not_le, not_le] at h
  exact h

/-- A cut at a lower place past an end leaves only what is between the two best places, which is settled
if they are near. -/
theorem cut_settled {tolerance : α} (htol : 0 < tolerance)
    (hin : i.lower ≤ i.best.x ∧ i.best.x ≤ i.upper) (hout : u.x < i.lower ∨ i.upper < u.x)
    (hv : u.value ≤ i.best.value) (hnear : |u.x - i.best.x| ≤ 2 * minimalStep tolerance u.x) :
    (i.cut u).Settled tolerance := by
  have hpos := minimalStep_pos htol u.x
  obtain ⟨h1, h2⟩ := abs_le.1 hnear
  unfold cut
  rw [if_pos hv]
  split_ifs with hx
  · rw [settled_iff]
    rcases hout with h | h <;> exact ⟨by linarith, by linarith⟩
  · rw [settled_iff]
    rcases hout with h | h <;> exact ⟨by linarith, by linarith⟩

/-- **The best place of a settled interval is near the bottom.** -/
theorem Sound.near_bottom (h : i.Sound f) {tolerance bottom : α} (hs : i.Settled tolerance)
    (hv : Valley f bottom) : |i.best.x - bottom| ≤ 2 * minimalStep tolerance i.best.x := by
  obtain ⟨hl, hu⟩ := h.bottom_inside hv
  obtain ⟨h1, h2⟩ := settled_iff.1 hs
  rw [abs_le]
  constructor <;> linarith

end Enclosure

/-- The interval of a bracket and the sample inside. -/
def Bracket.enclosure (t : Bracket α) : Enclosure α := ⟨t.lower, t.b, t.upper⟩

theorem Bracket.enclosure_sound {f : α → Except (Fault α) α} {t : Bracket α} (ht : t.isValid = true)
    (ha : t.a.Of f) (hb : t.b.Of f) (hc : t.c.Of f) : t.enclosure.Sound f := by
  obtain ⟨hord, hba, hbc⟩ := isValid_iff.1 ht
  obtain ⟨hl, hu⟩ := ends_of ha hc hba hbc
  exact ⟨hord.inside.1, hord.inside.2, hb, hl, hu⟩

end EnergyStep
