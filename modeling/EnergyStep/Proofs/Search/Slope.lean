import EnergyStep.Proofs.Search.Parabolic
import EnergyStep.Proofs.Search.Secant

/-!
# Slopes lead to the bottom of a valley

In a valley the sign of the slope says on which side the bottom is. The lower of two places and the
higher one say it too, so no cut of the interval leaves the bottom out, wherever the places are. The
search halves and follows secants downhill only. So if a minimal step leads uphill, the bottom has been
passed on the way, and the search can end there although its interval is still wide.

* `SlopedValley`: a function with one bottom, and slopes that lead to it.
* `Secant.Flanks`: the bottom is in the interval, and the samples are those of the function.
* `Secant.Flanks.uphill_near`: where a minimal step leads uphill.
* `Secant.minimize_near_bottom`: the search as a whole.
-/

namespace EnergyStep

variable {α : Type} [Exact α]

/-- The values of a function with slopes. -/
def values {α : Type} (f : α → Except (Fault α) (α × α)) (x : α) : Except (Fault α) α :=
  (f x).map Prod.fst

/-- **A valley with slopes.** They are negative before the bottom, zero there, and positive after it. -/
structure SlopedValley (f : α → Except (Fault α) (α × α)) (bottom : α) : Prop where
  valley : Valley (values f) bottom
  falling : ∀ {x v d}, f x = .ok (v, d) → x < bottom → d < 0
  level : ∀ {v d}, f bottom = .ok (v, d) → d = 0
  rising : ∀ {x v d}, f x = .ok (v, d) → bottom < x → 0 < d

variable {f : α → Except (Fault α) (α × α)} {bottom : α}

namespace SlopedValley

variable {x v d : α}

theorem lt_bottom (h : SlopedValley f bottom) (hx : f x = .ok (v, d)) (hd : d < 0) : x < bottom := by
  by_contra hle
  rcases (not_lt.1 hle).lt_or_eq with hlt | rfl
  · exact lt_asymm hd (h.rising hx hlt)
  · exact hd.ne (h.level hx)

theorem bottom_lt (h : SlopedValley f bottom) (hx : f x = .ok (v, d)) (hd : 0 < d) : bottom < x := by
  by_contra hle
  rcases (not_lt.1 hle).lt_or_eq with hlt | rfl
  · exact lt_asymm hd (h.falling hx hlt)
  · exact hd.ne' (h.level hx)

theorem eq_bottom (h : SlopedValley f bottom) (hx : f x = .ok (v, 0)) : x = bottom := by
  rcases lt_trichotomy x bottom with hlt | heq | hlt
  · exact absurd (h.falling hx hlt) (lt_irrefl 0)
  · exact heq
  · exact absurd (h.rising hx hlt) (lt_irrefl 0)

end SlopedValley

omit [Exact α] in
theorem Tangent.Of.values {t : Tangent α} (h : t.Of f) : t.toSample.Of (EnergyStep.values f) := by
  unfold Sample.Of EnergyStep.values
  rw [show f t.x = .ok (t.value, t.slope) from h]
  rfl

/-- **No cut leaves the bottom out**, wherever the new place is. -/
theorem Enclosure.cut_bottom {f : α → Except (Fault α) α} {i : Enclosure α} {u : Sample α}
    (h : Valley f bottom) (hbest : i.best.Of f) (hu : u.Of f) (hne : u.x ≠ i.best.x)
    (hin : i.lower ≤ bottom ∧ bottom ≤ i.upper) :
    (i.cut u).lower ≤ bottom ∧ bottom ≤ (i.cut u).upper := by
  unfold cut
  split_ifs with hv hx hx
  · exact ⟨h.le_bottom hbest hu (lt_of_le_of_ne hx hne.symm) hv, hin.2⟩
  · exact ⟨hin.1, h.bottom_le hu hbest (not_le.1 hx) hv⟩
  · exact ⟨h.le_bottom hu hbest hx (not_le.1 hv).le, hin.2⟩
  · exact ⟨hin.1, h.bottom_le hbest hu (lt_of_le_of_ne (not_lt.1 hx) hne.symm) (not_le.1 hv).le⟩

namespace Secant

variable {s : Secant α} {t : Bracket α} {tolerance : α}

/-- The three samples are those of the function. -/
structure Sampled (f : α → Except (Fault α) (α × α)) (s : Secant α) : Prop where
  best : s.best.Of f
  second : s.second.Of f
  third : s.third.Of f

/-- The samples of a state are ranked anew with the new one among them. -/
theorem Sampled.absorb (h : Sampled f s) (step : Step α) {u : Tangent α} (hu : u.Of f) :
    Sampled f (s.absorb step u) := by
  unfold Secant.absorb
  dsimp only
  by_cases hv : u.value ≤ s.best.value
  · simp only [if_pos hv]
    split_ifs <;> exact ⟨hu, h.best, h.second⟩
  · simp only [if_neg hv]
    split_ifs
    · exact ⟨h.best, hu, h.second⟩
    · exact ⟨h.best, h.second, hu⟩
    · exact ⟨h.best, h.second, h.third⟩
    · exact ⟨h.best, hu, h.second⟩
    · exact ⟨h.best, h.second, hu⟩
    · exact ⟨h.best, h.second, h.third⟩

/-- **What holds at the beginning of every round**: the bottom is in the interval. The best place need
not be. -/
structure Flanks (f : α → Except (Fault α) (α × α)) (bottom : α) (s : Secant α) : Prop where
  sampled : Sampled f s
  bottom : s.lower ≤ bottom ∧ bottom ≤ s.upper

theorem Flanks.start (hf : SlopedValley f bottom) (ht : t.isValid = true) (ha : t.a.Of (values f))
    (hb : t.b.Of (values f)) (hc : t.c.Of (values f)) {b : Tangent α} (hbest : b.Of f) :
    Flanks f bottom (start t b) where
  sampled := ⟨hbest, hbest, hbest⟩
  bottom := Bracket.contains_iff.1 (Bracket.contains_bottom ht ha hb hc hf.valley)

/-- The next place is another one. -/
theorem next_ne (htol : 0 < tolerance) (s : Secant α) : s.next tolerance ≠ s.best.x := by
  have hpos := minimalStep_pos htol s.best.x
  unfold next
  by_cases hmin : s.isMinimal tolerance (s.propose tolerance) = true
  · rw [target_of_minimal htol hmin]
    split_ifs
    · exact (sub_lt_self _ hpos).ne
    · exact (lt_add_of_pos_right _ hpos).ne'
  · rw [target_of_not_minimal hmin]
    intro heq
    rw [isMinimal_iff, not_lt, add_eq_left.1 heq, abs_zero] at hmin
    exact absurd hpos (not_lt.2 hmin)

/-- **One round** keeps the bottom in the interval. -/
theorem Flanks.round (h : Flanks f bottom s) (hf : SlopedValley f bottom) (htol : 0 < tolerance)
    {v d : α} (hv : f (s.next tolerance) = .ok (v, d)) :
    Flanks f bottom (s.advance tolerance v d) := by
  have hu : (s.sample tolerance v d).Of f := hv
  refine ⟨h.sampled.absorb _ hu, ?_⟩
  have hcut := Enclosure.cut_bottom (i := s.enclosure) hf.valley h.sampled.best.values hu.values
    (next_ne htol s) h.bottom
  rw [← absorb_enclosure s (s.propose tolerance)] at hcut
  exact hcut

/-- From a place with a slope a secant does not lead back to the place itself. -/
theorem Flanks.offset_ne_zero (h : Flanks f bottom s) {u : Tangent α} (hu : u.Of f)
    (hslope : s.best.slope ≠ 0) (hok : s.isAcceptable (s.offset u) = true) : s.offset u ≠ 0 := by
  intro hzero
  rw [hzero] at hok
  unfold offset at hzero
  split_ifs at hzero with hsame
  · -- without another slope the offset is twice the interval, which is then a single place
    have hends : s.upper = s.lower := by
      rw [Scalar.two_eq] at hzero
      linarith
    have hin := (isAcceptable_iff.1 hok).1
    rw [hends, add_zero] at hin
    have hsq := mul_self_nonneg (s.best.x - s.lower)
    linarith
  · rw [div_eq_zero_iff, mul_eq_zero, or_iff_left hslope] at hzero
    have hdiff : s.best.slope - u.slope ≠ 0 :=
      sub_ne_zero.2 fun heq => hsame (Scalar.same_iff.2 heq.symm)
    have hx : u.x = s.best.x := sub_eq_zero.1 (hzero.resolve_right hdiff)
    -- one place has one slope
    have hboth : (u.value, u.slope) = (s.best.value, s.best.slope) := by
      have hu' : f u.x = .ok (u.value, u.slope) := hu
      rw [hx, show f s.best.x = .ok (s.best.value, s.best.slope) from h.sampled.best] at hu'
      exact (Except.ok.inj hu').symm
    exact hsame (Scalar.same_iff.2 (congrArg Prod.snd hboth))

/-- **A minimal step goes downhill**: from a place before the bottom upward, from one after it
downward. -/
theorem Flanks.minimal_downhill (h : Flanks f bottom s) (htol : 0 < tolerance)
    (hmin : s.isMinimal tolerance (s.propose tolerance) = true) :
    (s.best.slope < 0 → s.best.x < bottom → 0 ≤ (s.propose tolerance).size) ∧
      (0 < s.best.slope → bottom < s.best.x → (s.propose tolerance).size < 0) := by
  obtain ⟨hl, hu⟩ := h.bottom
  have hp := propose_proposed tolerance s
  generalize s.propose tolerance = step at hp hmin
  cases hp with
  | halving =>
    rw [halvingStep_eq]
    unfold reach
    refine ⟨fun hslope hx => ?_, fun hslope hx => ?_⟩
    · rw [if_neg (not_le.2 hslope)]
      exact div_nonneg (by linarith) zero_le_two
    · rw [if_pos hslope.le]
      exact div_neg_of_neg_of_pos (by linarith) two_pos
  | @secant d hc =>
    obtain ⟨hok, hd⟩ := candidate?_eq_some hc
    have hdown := (isAcceptable_iff.1 hok).2
    refine ⟨fun hslope _ => ?_, fun hslope _ => ?_⟩
    · exact nonneg_of_mul_nonpos_right hdown hslope
    · have hle : d ≤ 0 := nonpos_of_mul_nonpos_right hdown hslope
      refine lt_of_le_of_ne hle ?_
      rcases hd with rfl | rfl
      · exact h.offset_ne_zero h.sampled.second hslope.ne' hok
      · exact h.offset_ne_zero h.sampled.third hslope.ne' hok
  | toMiddle => exact absurd hmin (toMiddle_not_minimal htol rfl)

/-- **Where a minimal step leads uphill** the bottom is nearer than the step, though the interval may
be wide. -/
theorem Flanks.uphill_near (h : Flanks f bottom s) (hf : SlopedValley f bottom) (htol : 0 < tolerance)
    {v d : α} (hv : f (s.next tolerance) = .ok (v, d)) (hup : s.Uphill tolerance v) :
    |s.best.x - bottom| ≤ minimalStep tolerance s.best.x := by
  obtain ⟨hmin, hhigher⟩ := hup
  have hpos := minimalStep_pos htol s.best.x
  have hbest : f s.best.x = .ok (s.best.value, s.best.slope) := h.sampled.best
  have hat : values f s.best.x = .ok s.best.value := h.sampled.best.values
  have hnext : values f (s.next tolerance) = .ok v := by
    unfold values
    rw [hv]
    rfl
  have hstep : s.next tolerance = _ := target_of_minimal htol hmin
  obtain ⟨hup, hdown⟩ := h.minimal_downhill htol hmin
  rcases lt_trichotomy s.best.slope 0 with hslope | hslope | hslope
  · have hx := hf.lt_bottom hbest hslope
    rw [if_neg (not_lt.2 (hup hslope hx))] at hstep
    have hle := hf.valley.bottom_le hat hnext (by linarith) hhigher.le
    rw [abs_le]
    constructor <;> linarith
  · rw [hslope] at hbest
    rw [hf.eq_bottom hbest, sub_self, abs_zero, ← hf.eq_bottom hbest]
    exact hpos.le
  · have hx := hf.bottom_lt hbest hslope
    rw [if_pos (hdown hslope hx)] at hstep
    have hle := hf.valley.le_bottom hnext hat (by linarith) hhigher.le
    rw [abs_le]
    constructor <;> linarith

/-- The best place of a settled interval with the bottom in it is near the bottom. -/
theorem Flanks.settled_near (h : Flanks f bottom s) (hs : s.enclosure.Settled tolerance) :
    |s.best.x - bottom| ≤ 2 * minimalStep tolerance s.best.x := by
  obtain ⟨hl, hu⟩ := h.bottom
  obtain ⟨h1, h2⟩ := Enclosure.settled_iff.1 hs
  simp only [enclosure] at h1 h2
  rw [abs_le]
  constructor <;> linarith

theorem Reaches.flanks (hf : SlopedValley f bottom) (ht : t.isValid = true) (ha : t.a.Of (values f))
    (hb : t.b.Of (values f)) (hc : t.c.Of (values f)) (htol : 0 < tolerance)
    {us : List (Tangent α)} (h : Reaches f t tolerance s us) : Flanks f bottom s := by
  induction h with
  | start hbest => exact Flanks.start hf ht ha hb hc hbest
  | round _ _ hv _ ih => exact ih.round hf htol hv

/-- **The search by slopes finds the bottom of a valley.** A result, at a settled interval or where a
minimal step leads uphill, is no farther from the bottom than two minimal steps, and in the bracket. It
has the value and the slope of the function, and is no higher than the middle of the bracket. -/
theorem minimize_near_bottom (f : α → Except (Fault α) (α × α)) (t : Bracket α) (tolerance bottom : α)
    (hf : SlopedValley f bottom) (ht : t.isValid = true) (ha : t.a.Of (values f))
    (hb : t.b.Of (values f)) (hc : t.c.Of (values f)) (htol : 0 < tolerance) :
    ∀ m, minimize f t tolerance = .ok m → |m.x - bottom| ≤ 2 * (tolerance * |m.x| + 1e-12) ∧
      t.contains m.x = true ∧ m.value ≤ t.b.value ∧
        ∃ slope, m.slope = some slope ∧ f m.x = .ok (m.value, slope) := by
  intro m hm
  have hall : ∀ x, Ends (fun _ => True) (fun _ => True) (f x) := fun x => Ends.of_all (fun _ => trivial) _
  have htop : ∀ v d, f t.b.x = .ok (v, d) → v ≤ t.b.value := by
    intro v d h
    unfold Sample.Of values at hb
    rw [h] at hb
    exact (Except.ok.inj hb).le
  obtain ⟨slope, hslope, hval, hle⟩ :=
    (minimize_ends (fun _ => trivial) hall ht htop htol).of_ok hm
  have hat : values f m.x = .ok m.value := by
    unfold values
    rw [hval]
    rfl
  have hended := (ran_minimize f ht htol).2
  refine ⟨?_, Bracket.contains_of_le ht ha hb hc hf.valley hat hle, hle, slope, hslope, hval⟩
  rw [hm] at hended
  generalize (recordedMinimize f t tolerance).2 = places at hended
  cases hended with
  | settled h hs => exact (h.flanks hf ht ha hb hc htol).settled_near hs
  | @uphill s _ _ _ h _ hv hup =>
    have hnear := (h.flanks hf ht ha hb hc htol).uphill_near hf htol hv hup
    have hpos := minimalStep_pos htol s.best.x
    exact hnear.trans (le_mul_of_one_le_left hpos.le one_le_two)

/-- The cliff with slopes. -/
def slopedCliff (x : ℚ) : Except (Fault ℚ) (ℚ × ℚ) :=
  .ok (if x ≤ 600 then 2 - x else x, if x < 600 then -1 else if x = 600 then 0 else 1)

theorem slopedValley_cliff : SlopedValley slopedCliff 600 where
  valley := Bracket.valley_cliff
  falling := by
    rintro x _ _ ⟨⟩ hx
    rw [if_pos hx]
    norm_num
  level := by
    rintro _ _ ⟨⟩
    rfl
  rising := by
    rintro x _ _ ⟨⟩ hx
    rw [if_neg hx.le.not_gt, if_neg hx.ne']
    norm_num

/-- A search for the edge of the cliff. -/
theorem minimize_near_bottom_cliff : ∃ m, minimize slopedCliff Parabolic.gorge (1 / 100) = .ok m ∧
    |m.x - 600| ≤ 2 * (1 / 100 * |m.x| + 1e-12) ∧ Parabolic.gorge.contains m.x = true ∧
    m.value ≤ -98 ∧ ∃ slope, m.slope = some slope ∧ slopedCliff m.x = .ok (m.value, slope) := by
  have hok : (minimize slopedCliff Parabolic.gorge (1 / 100)).isOk = true := by decide +kernel
  cases hm : minimize slopedCliff Parabolic.gorge (1 / 100) with
  | error e => rw [hm] at hok; cases hok
  | ok m =>
    exact ⟨m, rfl, minimize_near_bottom slopedCliff Parabolic.gorge (1 / 100) 600 slopedValley_cliff
      (by decide +kernel) (by unfold Sample.Of; decide +kernel) (by unfold Sample.Of; decide +kernel)
      (by unfold Sample.Of; decide +kernel) (by norm_num) m hm⟩

end Secant
end EnergyStep
