import EnergyStep.Proofs.Ends
import EnergyStep.Proofs.Exact
import EnergyStep.Search.Bracketing

/-!
# Bracketing is sound

The search keeps three samples in order along the line, the second no higher than the first
(`Downhill`). A step moves on from them only while the third is lower than the second, so when the
search ends the second is lowest: a bracket, of the function that was asked.

* `isValid_iff`: three samples are a bracket when they are in order and the second is lowest.
* `expand_ends`: what one step leads to.
* `find_ends`: what the search leads to, from two distinct seeds.
-/

namespace EnergyStep

variable {α : Type} [Exact α] {fails : Fault α → Prop} {f : α → Except (Fault α) α}

/-- The value is that of the function at the place. -/
def Sample.Of (f : α → Except (Fault α) α) (s : Sample α) : Prop := f s.x = .ok s.value

/-- In exact arithmetic a probe is an evaluation, and nothing is out of range. -/
theorem probe_eq (f : α → Except (Fault α) α) (x : α) : probe f x = (f x).map (Sample.mk x) := by
  unfold probe
  cases hf : f x with
  | ok v => simp [pure, Except.pure, bind, Except.bind, Except.map]
  | error e => simp [bind, Except.bind, Except.map]

theorem probe_ends (hf : ∀ x, Ends fails (fun _ => True) (f x)) (x : α) :
    Ends fails (fun s => s.x = x ∧ s.Of f) (probe f x) := by
  rw [probe_eq]
  have hx := hf x
  cases h : f x with
  | ok v => exact ⟨rfl, h⟩
  | error e => rw [h] at hx; exact hx

namespace Bracket

/-- The places are strictly in order along the line, in one direction or the other. -/
def Ordered (t : Bracket α) : Prop := 0 < (t.b.x - t.a.x) * (t.c.x - t.b.x)

/-- **A bracket** is three samples in order of which the second is lowest. -/
theorem isValid_iff {t : Bracket α} :
    t.isValid = true ↔ t.Ordered ∧ t.b.value ≤ t.a.value ∧ t.b.value ≤ t.c.value := by
  unfold isValid Ordered
  rw [mul_pos_iff, sub_pos, sub_pos, sub_neg, sub_neg]
  simp only [Bool.and_eq_true, Bool.or_eq_true, decide_eq_true_eq, and_assoc]
  rw [and_comm (a := t.c.x < t.b.x)]

/-- Samples of `f` in order, the second no higher than the first and than `top`. -/
structure Downhill (f : α → Except (Fault α) α) (top : α) (t : Bracket α) : Prop where
  a : t.a.Of f
  b : t.b.Of f
  c : t.c.Of f
  ordered : t.Ordered
  falls : t.b.value ≤ t.a.value
  below : t.b.value ≤ top

variable {t : Bracket α} {top : α}

theorem ordered_beyond {a b : α} (h : a ≠ b) : 0 < (b - a) * (beyond a b - b) := by
  have hs : 0 < (b - a) * (b - a) := mul_self_pos.2 (sub_ne_zero.2 h.symm)
  have hg : (0 : α) < goldenRatio := by unfold goldenRatio; norm_num
  have he : (b - a) * (beyond a b - b) = goldenRatio * ((b - a) * (b - a)) := by
    unfold beyond; ring
  rw [he]; exact mul_pos hg hs

/-- A place between the second and the third is beyond the second. -/
theorem ordered_inner {a b c u : α} (h : 0 < (b - a) * (c - b)) (hu : 0 < (b - u) * (u - c)) :
    0 < (b - a) * (u - b) := by
  rcases mul_pos_iff.1 h with ⟨h1, h2⟩ | ⟨h1, h2⟩ <;> rcases mul_pos_iff.1 hu with ⟨h3, h4⟩ | ⟨h3, h4⟩
  · linarith
  · exact mul_pos h1 (by linarith)
  · exact mul_pos_of_neg_of_neg h1 (by linarith)
  · linarith

/-- The limit is ninety-nine times as far beyond the third as the third is beyond the second. -/
theorem limit_sub (t : Bracket α) : t.limit - t.c.x = 99 * (t.c.x - t.b.x) := by
  have hm : (maxMagnification : α) = 100 := by unfold maxMagnification; norm_num
  unfold limit; rw [hm]; ring

/-- A place between the third and the limit is beyond the third. -/
theorem ordered_outer {u : α} (h : t.b.x ≠ t.c.x) (hu : 0 < (t.c.x - u) * (u - t.limit)) :
    0 < (t.c.x - t.b.x) * (u - t.c.x) := by
  have hl := limit_sub t
  rcases lt_or_gt_of_ne h with h1 | h1 <;> rcases mul_pos_iff.1 hu with ⟨h3, h4⟩ | ⟨h3, h4⟩
  · linarith
  · exact mul_pos (by linarith) (by linarith)
  · exact mul_pos_of_neg_of_neg (by linarith) (by linarith)
  · linarith

/-- What a step downhill leads to. -/
def Expansion.Sound (f : α → Except (Fault α) α) (top : α) : Expansion α → Prop
  | .closed t => t.Downhill f top ∧ t.b.value ≤ t.c.value
  | .moved t => t.Downhill f top

/-- The three samples move on to a third one beyond the old one. -/
theorem Downhill.move (ht : t.Downhill f top) (hc : t.c.value < t.b.value) {s : Sample α}
    (hs : s.Of f) (ho : 0 < (t.c.x - t.b.x) * (s.x - t.c.x)) : Downhill f top ⟨t.b, t.c, s⟩ :=
  ⟨ht.b, ht.c, hs, ho, hc.le, hc.le.trans ht.below⟩

/-- **One step.** Wherever the parabola leads, the samples stay in order and their values falling. -/
theorem expand_ends (hf : ∀ x, Ends fails (fun _ => True) (f x)) (ht : t.Downhill f top)
    (hc : t.c.value < t.b.value) : Ends fails (Expansion.Sound f top) (expand f t) := by
  have hbc : t.b.x ≠ t.c.x := by
    intro h
    have := ht.ordered
    simp [Ordered, h] at this
  -- a golden step, which two of the cases fall back to
  have golden : Ends fails (Expansion.Sound f top)
      (probe f (beyond t.b.x t.c.x) >>= fun s => pure (.moved ⟨t.b, t.c, s⟩)) := by
    refine (probe_ends hf _).bind fun s hs => Ends.pure.2 ?_
    exact ht.move hc hs.2 (by rw [hs.1]; exact ordered_beyond hbc)
  unfold expand
  simp only
  split_ifs with h1 h2 h3
  · refine (probe_ends hf _).bind fun s hs => ?_
    split_ifs with hsc hsb
    · have hsb := (hsc.trans hc).le
      refine Ends.pure.2 ⟨⟨ht.b, hs.2, ht.c, ?_, hsb, hsb.trans ht.below⟩, hsc.le⟩
      unfold Ordered
      simp only [hs.1]
      linarith [h1]
    · refine Ends.pure.2 ⟨⟨ht.a, ht.b, hs.2, ?_, ht.falls, ht.below⟩, hsb.le⟩
      unfold Ordered
      simp only [hs.1]
      exact ordered_inner ht.ordered h1
    · exact golden
  · refine (probe_ends hf _).bind fun s hs => ?_
    have ho := ordered_outer hbc h2
    split_ifs with hsc
    · refine (probe_ends hf _).bind fun s' hs' => Ends.pure.2 ?_
      refine ⟨ht.c, hs.2, hs'.2, ?_, hsc.le, (hsc.trans hc).le.trans ht.below⟩
      unfold Ordered
      simp only [hs.1, hs'.1]
      refine ordered_beyond fun h => ?_
      simp [← h] at ho
    · exact Ends.pure.2 (ht.move hc hs.2 (by rw [hs.1]; exact ho))
  · refine (probe_ends hf _).bind fun s hs => Ends.pure.2 (ht.move hc hs.2 ?_)
    have hd : 0 < (t.c.x - t.b.x) * (t.c.x - t.b.x) := mul_self_pos.2 (sub_ne_zero.2 hbc.symm)
    rw [hs.1, limit_sub]
    linarith
  · exact golden

/-- **The walk downhill** ends with a bracket, or because it may not go on. -/
theorem close_ends (hcond : ∀ c, fails (.condition c)) (hf : ∀ x, Ends fails (fun _ => True) (f x))
    (budget : Nat) : ∀ left (t : Bracket α), t.Downhill f top →
      Ends fails (fun t => t.Downhill f top ∧ t.b.value ≤ t.c.value) (close f budget left t) := by
  intro left
  induction left with
  | zero =>
    intro t ht
    unfold close
    split_ifs with h
    · exact hcond _
    · exact ⟨ht, not_lt.1 h⟩
  | succ left ih =>
    intro t ht
    unfold close
    split_ifs with h
    · refine (expand_ends hf ht h).bind fun r hr => ?_
      cases r with
      | closed t' => exact hr
      | moved t' => exact ih t' hr
    · exact ⟨ht, not_lt.1 h⟩

/-- The first three samples. -/
theorem start_ends (hf : ∀ x, Ends fails (fun _ => True) (f x)) {x₁ x₂ : α} (hx : x₁ ≠ x₂) :
    Ends fails (fun t => ∃ v₁ v₂, f x₁ = .ok v₁ ∧ f x₂ = .ok v₂ ∧ t.Downhill f (min v₁ v₂))
      (start f x₁ x₂) := by
  refine (probe_ends hf x₁).bind fun s₁ h₁ => (probe_ends hf x₂).bind fun s₂ h₂ => ?_
  have e₁ : f x₁ = .ok s₁.value := h₁.1 ▸ h₁.2
  have e₂ : f x₂ = .ok s₂.value := h₂.1 ▸ h₂.2
  -- the seeds are taken in the order in which the values fall
  split_ifs with h
  · refine (probe_ends hf _).bind fun s hs => Ends.pure.2 ⟨_, _, e₁, e₂, ?_⟩
    refine ⟨h₂.2, h₁.2, hs.2, ?_, h.le, le_min le_rfl h.le⟩
    unfold Ordered
    simp only [hs.1]
    exact ordered_beyond (by rw [h₁.1, h₂.1]; exact hx.symm)
  · refine (probe_ends hf _).bind fun s hs => Ends.pure.2 ⟨_, _, e₁, e₂, ?_⟩
    refine ⟨h₁.2, h₂.2, hs.2, ?_, not_lt.1 h, le_min (not_lt.1 h) le_rfl⟩
    unfold Ordered
    simp only [hs.1]
    exact ordered_beyond (by rw [h₁.1, h₂.1]; exact hx)

/-- **Bracketing is sound.** From distinct seeds the search ends with a bracket of samples of `f`
whose lowest is no higher than the seeds, or with a fault of `f` or of the budget. -/
theorem find_ends (hcond : ∀ c, fails (.condition c)) (hf : ∀ x, Ends fails (fun _ => True) (f x))
    {x₁ x₂ : α} (hx : x₁ ≠ x₂) (budget : Nat) :
    Ends fails (fun t => t.isValid = true ∧
      ∃ v₁ v₂, f x₁ = .ok v₁ ∧ f x₂ = .ok v₂ ∧ t.Downhill f (min v₁ v₂)) (find f x₁ x₂ budget) := by
  have hs : Scalar.same x₁ x₂ = false := Bool.eq_false_iff.2 (mt Scalar.same_iff.1 hx)
  unfold find
  simp only [Scalar.isFinite_exact, Bool.and_self, if_true, hs]
  refine (start_ends hf hx).bind fun t ht => ?_
  obtain ⟨v₁, v₂, h₁, h₂, ht⟩ := ht
  refine (close_ends hcond hf budget budget t ht).mono fun t' ht' => ?_
  exact ⟨isValid_iff.2 ⟨ht'.1.ordered, ht'.1.falls, ht'.2⟩, v₁, v₂, h₁, h₂, ht'.1⟩

end Bracket
end EnergyStep
