import EnergyStep.Proofs.Search.Parabolic

/-!
# Lines through the bottom of a parabola

A search compares values only with each other, so it goes to the same places on a multiple of a
function. On a parabola whose bottom is the origin of the line the bracket is closed at once. There are
four rounds: the golden sections of both sides, and two smallest steps, one to each side, since the
parabola through the samples is lowest where the search is already.

* `Parabolic.propose_scaled`, `Parabolic.absorb_scaled`: one round on a multiple of a function.
* `Parabolic.rounds_scaled`: all of them, by induction on the budget.
* `Parabolic.goes_passage`: the rounds on the unit parabola.
* `Bracket.find_parabola`, `Parabolic.minimize_parabola`: the bracket and the search on any of them.
* `Objective.descend_parabola`: the minimization on a line.
-/

namespace EnergyStep

variable {α : Type} [Exact α] {k tolerance : α}

/-- The sample with its value multiplied. -/
def Sample.scaled (k : α) (s : Sample α) : Sample α := ⟨s.x, k * s.value⟩

@[simp] theorem Sample.scaled_x (k : α) (s : Sample α) : (s.scaled k).x = s.x := rfl

@[simp] theorem Sample.scaled_value (k : α) (s : Sample α) : (s.scaled k).value = k * s.value := rfl

/-- The minimum of a multiple of a function. -/
def LineMinimum.scaled (k : α) (m : LineMinimum α) : LineMinimum α :=
  { m with value := k * m.value, slope := m.slope.map (k * ·) }

/-- A multiple of a function. -/
def multiple (k : α) (f : α → Except (Fault α) α) (x : α) : Except (Fault α) α := (f x).map (k * ·)

theorem probe_multiple (k : α) (f : α → Except (Fault α) α) (x : α) :
    probe (multiple k f) x = (probe f x).map (Sample.scaled k) := by
  rw [probe_eq, probe_eq, multiple]
  cases f x <;> rfl

/-- The unit parabola. -/
def square (x : α) : Except (Fault α) α := .ok (x ^ 2)

/-- A sample of it. -/
def squared (x : α) : Sample α := ⟨x, x ^ 2⟩

/-- No sample of a parabola is lower than that at its bottom. -/
theorem bottom_le (hk : 0 < k) (x : α) : ((squared 0).scaled k).value ≤ ((squared x).scaled k).value := by
  show k * 0 ^ 2 ≤ k * x ^ 2
  rw [zero_pow two_ne_zero]
  exact mul_le_mul_of_nonneg_left (sq_nonneg x) hk.le

/-- At the bottom the tolerance does not matter. -/
theorem minimalStep_zero (tolerance : α) : minimalStep tolerance 0 = 1e-12 := by
  rw [minimalStep_eq, abs_zero, mul_zero, zero_add]

namespace Parabolic

variable {s : Parabolic α}

/-- The state with all values multiplied. -/
def scaled (k : α) (s : Parabolic α) : Parabolic α :=
  { s with best := s.best.scaled k, second := s.second.scaled k, third := s.third.scaled k }

/-- The parabola through multiplied samples is lowest at the same place. -/
theorem parabolaStep_scaled (hk : 0 < k) (s : Parabolic α) :
    (s.scaled k).parabolaStep tolerance = s.parabolaStep tolerance := by
  obtain ⟨lower, upper, best, second, third, before, last⟩ := s
  have hout : ∀ a b : α, a * (k * b) = k * (a * b) := fun a b => mul_left_comm a k b
  have hsub : ∀ a b : α, k * a - k * b = k * (a - b) := fun a b => (mul_sub k a b).symm
  have hneg : ∀ a : α, -(k * a) = k * -a := fun a => (mul_neg k a).symm
  have habs : ∀ a : α, Scalar.abs (k * a) = k * Scalar.abs a := fun a => by
    show |k * a| = k * |a|
    rw [abs_mul, abs_of_pos hk]
  have hpos : ∀ a : α, (k * a > 0) = (a > 0) := fun a => propext (mul_pos_iff_of_pos_left hk)
  have hle : ∀ a b : α, (k * a ≤ k * b) = (a ≤ b) := fun a b => propext (mul_le_mul_iff_right₀ hk)
  have hdiv : ∀ a b : α, k * a / (k * b) = a / b := fun a b => mul_div_mul_left a b hk.ne'
  unfold parabolaStep scaled
  dsimp only [Sample.scaled_x, Sample.scaled_value, sectionStep, reach]
  -- the factor is taken out of every amount, and then out of every comparison
  simp only [hsub, hout, mul_assoc k, hpos, hneg, ← mul_ite, habs, hle, ge_iff_le, hdiv]

/-- **The next step is the same.** -/
theorem propose_scaled (hk : 0 < k) (s : Parabolic α) :
    (s.scaled k).propose tolerance = s.propose tolerance := by
  unfold propose
  rw [parabolaStep_scaled hk]
  rfl

theorem next_scaled (hk : 0 < k) (s : Parabolic α) : (s.scaled k).next tolerance = s.next tolerance := by
  unfold next
  rw [propose_scaled hk]
  rfl

/-- **The new sample is ranked in the same way.** -/
theorem absorb_scaled (hk : 0 < k) (s : Parabolic α) (step : Step α) (u : Sample α) :
    (s.scaled k).absorb step (u.scaled k) = (s.absorb step u).scaled k := by
  have hle : ∀ a b : α, (k * a ≤ k * b) = (a ≤ b) := fun a b => propext (mul_le_mul_iff_right₀ hk)
  obtain ⟨lower, upper, ⟨x₁, v₁⟩, ⟨x₂, v₂⟩, ⟨x₃, v₃⟩, before, last⟩ := s
  obtain ⟨x, v⟩ := u
  show absorb ⟨lower, upper, ⟨x₁, k * v₁⟩, ⟨x₂, k * v₂⟩, ⟨x₃, k * v₃⟩, before, last⟩ step ⟨x, k * v⟩ = _
  unfold absorb
  -- the end of the interval that moves is on the side of the new place
  by_cases hx : x < x₁
  · simp only [hle, if_pos hx, if_neg hx.not_ge]
    split_ifs <;> rfl
  · simp only [hle, if_neg hx, if_pos (not_lt.1 hx)]
    split_ifs <;> rfl

/-- **A multiple of a function is searched at the same places.** -/
theorem rounds_scaled (hk : 0 < k) (f : α → Except (Fault α) α) : ∀ left done (s : Parabolic α),
    rounds (multiple k f) tolerance left done (s.scaled k) =
      (rounds f tolerance left done s).map (LineMinimum.scaled k) := by
  intro left
  induction left with
  | zero => intro done s; rfl
  | succ left ih =>
    intro done s
    by_cases hs : s.enclosure.Settled tolerance
    · have hs' : (s.scaled k).enclosure.Settled tolerance := hs
      rw [rounds_settled hs', rounds_settled hs]
      rfl
    · have hs' : ¬ (s.scaled k).enclosure.Settled tolerance := hs
      rw [rounds_open hs', rounds_open hs, next_scaled hk, propose_scaled hk, probe_multiple]
      cases probe f (s.next tolerance) with
      | error e => rfl
      | ok u =>
        show rounds _ _ _ _ ((s.scaled k).absorb _ (u.scaled k)) = _
        rw [absorb_scaled hk]
        exact ih _ _

/-- A state of the search on it that has found the bottom. -/
def bottomed (lower upper second third before last : α) : Parabolic α :=
  ⟨lower, upper, squared 0, squared second, squared third, before, last⟩

/-- Where the golden section cuts the lower side of the bracket. -/
def cut : α := goldenSection * goldenRatio

variable (α) in
/-- **The states of the search on the unit parabola**: after the bracket, after the golden sections of
its lower and of its upper side, and after the smallest steps to either side. -/
def passage : ℕ → Parabolic α
  | 0 => bottomed (-goldenRatio) 1 0 0 0 0
  | 1 => bottomed (-cut) 1 (-cut) 0 (-goldenRatio) (-cut)
  | 2 => bottomed (-cut) goldenSection goldenSection (-cut) 1 goldenSection
  | 3 => bottomed (-cut) 1e-12 1e-12 goldenSection goldenSection 0
  | _ => bottomed (-1e-12) 1e-12 (-1e-12) 1e-12 0 (-1e-12)

/-- One round goes from a state to another. -/
structure Goes (tolerance : α) (s s' : Parabolic α) : Prop where
  unsettled : ¬ isSettled tolerance s.lower s.upper s.best.x = true
  absorbs : s.absorb (s.propose tolerance) (squared (s.next tolerance)) = s'

theorem Goes.rounds_eq {s' : Parabolic α} (h : Goes tolerance s s') (left done : ℕ) :
    rounds square tolerance (left + 1) done s = rounds square tolerance left (done + 1) s' := by
  have hopen : ¬ s.enclosure.Settled tolerance := h.unsettled
  rw [rounds_open hopen, probe_eq, ← h.absorbs]
  rfl

/-- **The rounds go from each of these states to the next.** -/
theorem goes_passage (tolerance : α) : ∀ i < 4, Goes tolerance (passage α i) (passage α (i + 1)) := by
  have habs : ∀ a : α, Scalar.abs a = |a| := fun _ => rfl
  have hsign : ∀ a b : α, Scalar.copySign a b = if b < 0 then -|a| else |a| := fun _ _ => rfl
  have hratio : (goldenRatio : α) = 1.618033988749895 := rfl
  have hsection : (goldenSection : α) = 0.381966011250105 := rfl
  intro i hi
  interval_cases i <;> refine ⟨?_, ?_⟩ <;>
    norm_num [passage, bottomed, squared, cut, hratio, hsection, isSettled, midpoint, minimalStep_zero,
      habs, hsign, next, propose, parabolaStep, sectionStep, reach, target, absorb, abs_le, Scalar.same_iff]

/-- **The search on the unit parabola** takes four rounds from the bottom. -/
theorem rounds_square (tolerance : α) (left : ℕ) :
    rounds square tolerance (left + 5) 0 (passage α 0) = .ok ⟨0, 0, none, 4⟩ := by
  have hgoes := goes_passage tolerance
  have hsettled : (passage α 4).enclosure.Settled tolerance := by
    rw [Enclosure.settled_iff]
    norm_num [passage, bottomed, squared, enclosure, minimalStep_zero]
  have hbottom : (passage α 4).best = ⟨0, 0⟩ := by norm_num [passage, bottomed, squared]
  rw [(hgoes 0 (by decide)).rounds_eq, (hgoes 1 (by decide)).rounds_eq, (hgoes 2 (by decide)).rounds_eq,
    (hgoes 3 (by decide)).rounds_eq, rounds_settled hsettled, hbottom]
  rfl

end Parabolic

namespace Bracket

/-- Three samples of a parabola, the second at its bottom and the third a golden step beyond. -/
def onParabola (k : α) : Bracket α :=
  ⟨(squared 1).scaled k, (squared 0).scaled k, (squared (beyond 1 0)).scaled k⟩

/-- **The bracket of a parabola** whose bottom is the first seed is closed at once. -/
theorem find_parabola (hk : 0 < k) (budget : ℕ) :
    find (multiple k square) 0 1 budget = .ok (onParabola k) := by
  have hprobe : ∀ x : α, probe (multiple k square) x = .ok ((squared x).scaled k) := fun x => by
    rw [probe_eq]
    rfl
  have hstart : start (multiple k square) 0 1 = .ok (onParabola k) := by
    have hfall : ((squared 1).scaled k).value > ((squared 0).scaled k).value := by simpa [squared] using hk
    unfold start
    rw [hprobe, hprobe]
    dsimp only [bind, Except.bind]
    rw [if_pos hfall]
    dsimp only
    rw [hprobe]
    rfl
  have hturn : ¬ (onParabola k).b.value > (onParabola k).c.value := (bottom_le hk _).not_gt
  have hseeds : Scalar.same (0 : α) 1 = false := Bool.eq_false_iff.2 (mt Scalar.same_iff.1 zero_ne_one)
  unfold find
  simp only [Scalar.isFinite_exact, Bool.and_self, if_true, hseeds, hstart]
  show close _ _ _ _ = _
  cases budget <;> exact if_neg hturn

theorem isValid_onParabola (hk : 0 < k) : (onParabola k).isValid = true :=
  isValid_iff.2 ⟨ordered_beyond one_ne_zero, bottom_le hk 1, bottom_le hk _⟩

end Bracket

/-- **The search on a parabola** whose bottom is the middle of the bracket. -/
theorem Parabolic.minimize_parabola (hk : 0 < k) (htol : 0 < tolerance) :
    minimize (multiple k square) (Bracket.onParabola k) tolerance = .ok ⟨0, 0, none, 4⟩ := by
  have hstart : start (Bracket.onParabola k) = (passage α 0).scaled k := by
    have hbeyond : Bracket.beyond (1 : α) 0 = -goldenRatio := by unfold Bracket.beyond; ring
    have hratio : -goldenRatio ≤ (1 : α) := by unfold goldenRatio; norm_num
    have hlower : (Bracket.onParabola k).lower = -goldenRatio := by
      show Scalar.smaller 1 (Bracket.beyond 1 0) = _
      rw [Scalar.smaller_eq_min, hbeyond, min_eq_right hratio]
    have hupper : (Bracket.onParabola k).upper = 1 := by
      show Scalar.larger 1 (Bracket.beyond 1 0) = _
      rw [Scalar.larger_eq_max, hbeyond, max_eq_left hratio]
    unfold start
    rw [hlower, hupper]
    rfl
  unfold minimize
  rw [liftExcept_eq, checkSearch_eq_ok (Bracket.isValid_onParabola hk) htol, hstart]
  show rounds _ _ (195 + 5) 0 _ = _
  rw [rounds_scaled hk, rounds_square]
  show Except.ok (⟨0, k * 0, none, 4⟩ : LineMinimum α) = _
  rw [mul_zero]

/-- **A line on which the objective is a parabola** with its bottom at the origin is left where it is. -/
theorem Objective.descend_parabola {f : Objective (Except (Fault α)) α} {search : LineSearch α} {r : Ray α}
    (hr : r.Sized f.dimension) (htol : 0 < search.tolerance) (hk : 0 < k)
    (hline : f.along r = multiple k square) : f.descend search r = .ok (r.advance 0, 0) := by
  unfold descend bracketAlong
  rw [ensure_eq, Ray.check_eq_ok.2 hr, hline, Bracket.find_parabola hk]
  show (Parabolic.minimize (multiple k square) (Bracket.onParabola k) search.tolerance >>= _) = _
  rw [Parabolic.minimize_parabola hk htol]
  rfl

end EnergyStep
