import EnergyStep.Proofs.Linear.Components
import EnergyStep.Proofs.Search.Bracketing
import EnergyStep.Search.Ray

/-!
# Searches return what they recorded

Both searches inside a bracket carry the best sample so far and replace it only by one that is no
higher. So a result is a place with the value of the function there, no higher than the middle of the
bracket, and since the bracket starts at the origin of the line, no higher than there.

* `Parabolic.minimize_ends`, `Secant.minimize_ends`: the searches inside a bracket.
* `Objective.descend_ends`, `SmoothObjective.descend_ends`: the minimization on a line.
-/

namespace EnergyStep

variable {α : Type} [Exact α] {fails : Fault α → Prop}

/-- A bracket and a positive tolerance are all that a search asks for. -/
theorem checkSearch_eq_ok {t : Bracket α} {tolerance : α} (ht : t.isValid = true)
    (htol : 0 < tolerance) : checkSearch t tolerance = .ok () := by
  have hp : Scalar.isPositive tolerance = true := Scalar.isPositive_iff.2 htol
  unfold checkSearch
  simp [hp, ht]

namespace Parabolic

omit [Exact α] in
theorem absorb_best [Scalar α] (s : Parabolic α) (step : Step α) (u : Sample α) :
    (s.absorb step u).best = if u.value ≤ s.best.value then u else s.best := by
  unfold absorb
  dsimp only
  split_ifs <;> rfl

variable {f : α → Except (Fault α) α} {top : α}

/-- One round: a sample becomes the best unless it is higher. -/
theorem absorb_keeps {s : Parabolic α} (step : Step α) {u : Sample α} (hu : u.Of f) (hs : s.best.Of f)
    (htop : s.best.value ≤ top) :
    (s.absorb step u).best.Of f ∧ (s.absorb step u).best.value ≤ top := by
  rw [absorb_best]
  split_ifs with hv
  · exact ⟨hu, hv.trans htop⟩
  · exact ⟨hs, htop⟩

theorem rounds_ends (hcond : ∀ c, fails (.condition c)) (hf : ∀ x, Ends fails (fun _ => True) (f x))
    (tolerance : α) : ∀ left done (s : Parabolic α), s.best.Of f → s.best.value ≤ top →
      Ends fails (fun m => f m.x = .ok m.value ∧ m.value ≤ top) (rounds f tolerance left done s) := by
  intro left
  induction left with
  | zero => intro done s _ _; exact hcond _
  | succ left ih =>
    intro done s hs htop
    unfold rounds
    split_ifs with h
    · exact ⟨hs, htop⟩
    · refine (probe_ends hf _).bind fun u hu => ?_
      have hkeeps := absorb_keeps (s.propose tolerance) hu.2 hs htop
      exact ih _ _ hkeeps.1 hkeeps.2

/-- **The search by values** ends with a recorded value no higher than the middle of the bracket. -/
theorem minimize_ends (hcond : ∀ c, fails (.condition c)) (hf : ∀ x, Ends fails (fun _ => True) (f x))
    {t : Bracket α} {tolerance : α} (ht : t.isValid = true) (hb : t.b.Of f) (htol : 0 < tolerance) :
    Ends fails (fun m => f m.x = .ok m.value ∧ m.value ≤ t.b.value) (minimize f t tolerance) := by
  unfold minimize
  rw [liftExcept_eq, checkSearch_eq_ok ht htol]
  exact rounds_ends hcond hf tolerance _ _ _ hb le_rfl

end Parabolic

/-- Value and slope are those of the function at the place. -/
def Tangent.Of (f : α → Except (Fault α) (α × α)) (t : Tangent α) : Prop :=
  f t.x = .ok (t.value, t.slope)

namespace Secant

variable {f : α → Except (Fault α) (α × α)} {top : α}

/-- In exact arithmetic a probe is an evaluation, and nothing is out of range. -/
theorem probeSlope_eq (f : α → Except (Fault α) (α × α)) (x : α) :
    probeSlope f x = (f x).map fun p => ⟨⟨x, p.1⟩, p.2⟩ := by
  unfold probeSlope
  cases hf : f x with
  | ok p => simp [pure, Except.pure, bind, Except.bind, Except.map]
  | error e => simp [bind, Except.bind, Except.map]

theorem probeSlope_ends (hf : ∀ x, Ends fails (fun _ => True) (f x)) (x : α) :
    Ends fails (fun t => t.x = x ∧ t.Of f) (probeSlope f x) := by
  rw [probeSlope_eq]
  have hx := hf x
  cases h : f x with
  | ok p => exact ⟨rfl, h⟩
  | error e => rw [h] at hx; exact hx

omit [Exact α] in
theorem absorb_best [Scalar α] (s : Secant α) (step : Step α) (u : Tangent α) :
    (s.absorb step u).best = if u.value ≤ s.best.value then u else s.best := by
  unfold absorb
  dsimp only
  split_ifs <;> rfl

/-- One round: a tangent becomes the best unless it is higher. -/
theorem absorb_keeps {s : Secant α} (step : Step α) {u : Tangent α} (hu : u.Of f) (hs : s.best.Of f)
    (htop : s.best.value ≤ top) :
    (s.absorb step u).best.Of f ∧ (s.absorb step u).best.value ≤ top := by
  rw [absorb_best]
  split_ifs with hv
  · exact ⟨hu, hv.trans htop⟩
  · exact ⟨hs, htop⟩

/-- The result is a tangent of `f` that is no higher than `top`. -/
def Recorded (f : α → Except (Fault α) (α × α)) (top : α) (m : LineMinimum α) : Prop :=
  ∃ slope, m.slope = some slope ∧ f m.x = .ok (m.value, slope) ∧ m.value ≤ top

theorem rounds_ends (hcond : ∀ c, fails (.condition c)) (hf : ∀ x, Ends fails (fun _ => True) (f x))
    (tolerance : α) : ∀ left done (s : Secant α), s.best.Of f → s.best.value ≤ top →
      Ends fails (Recorded f top) (rounds f tolerance left done s) := by
  intro left
  induction left with
  | zero => intro done s _ _; exact hcond _
  | succ left ih =>
    intro done s hs htop
    unfold rounds
    split_ifs with h
    · exact ⟨s.best.slope, rfl, hs, htop⟩
    · refine (probeSlope_ends hf _).bind fun u hu => ?_
      split_ifs with hm
      · exact ⟨s.best.slope, rfl, hs, htop⟩
      · have hkeeps := absorb_keeps (s.propose tolerance) hu.2 hs htop
        exact ih _ _ hkeeps.1 hkeeps.2

/-- **The search by values and slopes** ends with a recorded tangent no higher than the middle of the
bracket. -/
theorem minimize_ends (hcond : ∀ c, fails (.condition c)) (hf : ∀ x, Ends fails (fun _ => True) (f x))
    {t : Bracket α} {tolerance : α} (ht : t.isValid = true)
    (hb : ∀ v s, f t.b.x = .ok (v, s) → v ≤ t.b.value) (htol : 0 < tolerance) :
    Ends fails (Recorded f t.b.value) (minimize f t tolerance) := by
  unfold minimize
  rw [liftExcept_eq, checkSearch_eq_ok ht htol]
  refine (probeSlope_ends hf _).bind fun b h => ?_
  exact rounds_ends hcond hf tolerance _ _ _ h.2 (hb b.value b.slope (h.1 ▸ h.2))

end Secant

/-- **An objective within a set of faults**: the numbers may always give out, and an evaluation at a
point of the right length has no other faults. -/
structure Objective.Within (f : Objective (Except (Fault α)) α) (fails : Fault α → Prop) : Prop where
  condition : ∀ c, fails (.condition c)
  value : ∀ x, x.size = f.dimension → Ends fails (fun _ => True) (f.value x)

omit [Exact α] in
/-- Every objective is within the set of all faults. -/
theorem Objective.within_all (f : Objective (Except (Fault α)) α) : f.Within fun _ => True where
  condition _ := trivial
  value _ _ := Ends.of_all (fun _ => trivial) _

/-- The ray ends at a point no higher than the value `v`, and `w` is the value there. -/
structure Objective.Descent (f : Objective (Except (Fault α)) α) (v : α) (r : Ray α) (w : α) : Prop where
  sized : r.Sized f.dimension
  value : f.value r.origin = .ok w
  below : w ≤ v

namespace Objective

variable {f : Objective (Except (Fault α)) α} {search : LineSearch α} {r : Ray α} {v : α}

theorem Within.along (hf : f.Within fails) (hr : r.Sized f.dimension) (w : α) :
    Ends fails (fun _ => True) (f.along r w) := hf.value _ (hr.size_point w)

/-- The bracket on a line is no higher than the origin. -/
theorem bracketAlong_ends (hf : f.Within fails)
    (hfit : Ends fails (fun _ => True) (r.check f.dimension)) (hv : f.value r.origin = .ok v) :
    Ends fails (fun t => r.Sized f.dimension ∧ t.isValid = true ∧ t.b.Of (f.along r) ∧ t.b.value ≤ v)
      (f.bracketAlong search r) := by
  unfold bracketAlong
  rw [ensure_eq]
  refine hfit.is_result.bind fun _ h => ?_
  have hr := Ray.check_eq_ok.1 h.2
  refine (Bracket.find_ends hf.condition (hf.along hr) zero_ne_one _).mono fun t ht => ?_
  obtain ⟨hval, v₁, v₂, h1, -, hd⟩ := ht
  -- the first seed is the origin, so the bracket starts from the value there
  have h0 : f.along r 0 = .ok v := by unfold Objective.along; rw [hr.point_zero]; exact hv
  have hv1 : v₁ = v := Except.ok.inj (h1.symm.trans h0)
  exact ⟨hr, hval, hd.b, hd.below.trans (hv1 ▸ min_le_left _ _)⟩

/-- **A line minimization by values descends.** -/
theorem descend_ends (hf : f.Within fails) (htol : 0 < search.tolerance)
    (hr : r.Sized f.dimension) (hv : f.value r.origin = .ok v) :
    Ends fails (fun p => f.Descent v p.1 p.2) (f.descend search r) := by
  have hfit : Ends fails (fun _ => True) (r.check f.dimension) := by rw [Ray.check_eq_ok.2 hr]; trivial
  refine (bracketAlong_ends hf hfit hv).bind fun t ht => ?_
  obtain ⟨-, hval, hb, hle⟩ := ht
  refine (Parabolic.minimize_ends hf.condition (hf.along hr) hval hb htol).bind fun m hm => ?_
  exact Ends.pure.2 ⟨hr.advance _, by rw [Ray.advance_origin]; exact hm.1, hm.2.trans hle⟩

end Objective

/-- The value that comes with the gradient is the value of the objective. -/
def SmoothObjective.Coherent (f : SmoothObjective (Except (Fault α)) α) : Prop :=
  ∀ x v g, f.valueAndGradient x = .ok (v, g) → f.value x = .ok v

/-- **An objective with gradient within a set of faults.** Unless every fault is allowed, gradients
have the right length. -/
structure SmoothObjective.Within (f : SmoothObjective (Except (Fault α)) α) (fails : Fault α → Prop) :
    Prop extends f.toObjective.Within fails where
  gradient : ∀ x, x.size = f.dimension → Ends fails (fun _ => True) (f.valueAndGradient x)
  sized : (∀ e, fails e) ∨
    ∀ x v g, x.size = f.dimension → f.valueAndGradient x = .ok (v, g) → g.size = f.dimension

namespace SmoothObjective

variable {f : SmoothObjective (Except (Fault α)) α} {search : LineSearch α} {r : Ray α} {v : α}

theorem Within.alongWithSlope (hf : f.Within fails) (hr : r.Sized f.dimension) (w : α) :
    Ends fails (fun _ => True) (f.alongWithSlope r w) :=
  (hf.gradient _ (hr.size_point w)).bind fun _ _ => trivial

/-- The value that comes with the slope is the value on the line. -/
theorem Coherent.alongWithSlope (hc : f.Coherent) {w a s : α} (h : f.alongWithSlope r w = .ok (a, s)) :
    f.along r w = .ok a := by
  obtain ⟨⟨v, g⟩, h1, h2⟩ := bind_eq_ok.1 h
  cases h2
  exact hc _ _ _ h1

/-- **A line minimization by values and slopes descends**, and its value and gradient are those at
the new point. -/
theorem descend_ends (hf : f.Within fails) (hc : f.Coherent) (htol : 0 < search.tolerance)
    (hfit : Ends fails (fun _ => True) (r.check f.dimension)) (hv : f.value r.origin = .ok v) :
    Ends fails (fun p => f.toObjective.Descent v p.1 p.2.1 ∧
      f.valueAndGradient p.1.origin = .ok p.2) (f.descend search r) := by
  refine (Objective.bracketAlong_ends hf.toWithin hfit hv).bind fun t ht => ?_
  obtain ⟨hr, hval, hb, hle⟩ := ht
  have htop : ∀ v s, f.alongWithSlope r t.b.x = .ok (v, s) → v ≤ t.b.value := by
    intro v s h
    exact (Except.ok.inj ((hc.alongWithSlope h).symm.trans hb)).le
  refine (Secant.minimize_ends hf.condition (hf.alongWithSlope hr) hval htop htol).bind fun m hm => ?_
  obtain ⟨s, -, hs, hm⟩ := hm
  have hval' := hc.alongWithSlope hs
  simp only
  -- the objective is evaluated once more, at the point of the search, and gives the same value
  rw [Ray.advance_origin]
  refine (hf.gradient _ (hr.size_point _)).is_result.bind fun p hp => Ends.pure.2 ?_
  have hp1 : p.1 = m.value := Except.ok.inj ((hc _ _ _ hp.2).symm.trans hval')
  refine ⟨⟨hr.advance _, ?_, hp1 ▸ hm.trans hle⟩, ?_⟩ <;> simp only [Ray.advance_origin]
  · exact hc _ _ _ hp.2
  · exact hp.2

end SmoothObjective
end EnergyStep
