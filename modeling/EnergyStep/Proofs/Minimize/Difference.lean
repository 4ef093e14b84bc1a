import EnergyStep.Proofs.Linear.Components
import EnergyStep.Proofs.Recording
import EnergyStep.Minimize.CentralDifference

/-!
# Central differences

A difference quotient looks at an objective from two points that differ from the given one in a single
component. Where the objective is a function `F` of the components, the quotient is one of `F`. The points
can be made in place from a single probe, which is moved in one component and put back for the next.

* `axis`: the direction of a component.
* `Objective.differenceInPlace`: the gradient from a probe that is moved in place.
* `Objective.ran_differenceInPlace`: the same gradient, and the probe is back.
* `Objective.differences_of_values`: the components of the gradient.
-/

namespace EnergyStep

variable {α : Type} [Exact α]

/-- **One in component `i`**, zero elsewhere. -/
def axis (i j : ℕ) : α := if j = i then 1 else 0

/-- The components of a vector with one of them moved. -/
theorem Components.component_moved {x : Components α} {i : ℕ} (hi : i < x.size) (h : α) :
    component (x.set i (x.component i + h)) = fun j => x.component j + h * axis i j := by
  funext j
  rw [component_set hi, axis]
  by_cases hj : j = i
  · rw [if_pos hj, if_pos hj, mul_one, hj]
  · rw [if_neg hj, if_neg hj, mul_zero, add_zero]

theorem differenceWidth_eq (step x : α) : differenceWidth step x = step * max |x| 1 := by
  unfold differenceWidth
  rw [Scalar.larger_eq_max]
  rfl

theorem differenceWidth_pos {step : α} (hstep : 0 < step) (x : α) : 0 < differenceWidth step x := by
  rw [differenceWidth_eq]
  exact mul_pos hstep (one_pos.trans_le (le_max_right _ _))

namespace Objective

variable {f : Objective (Except (Fault α)) α} {x : Components α} {step : α}

/-- The difference quotient from a probe that is moved in place and put back. -/
def quotientInPlace (f : Objective (Except (Fault α)) α) (step : α) (x : Components α)
    (i : Fin x.size) : Recording (Components α) α α := do
  let h := differenceWidth step (x.component i)
  modify (·.setIfInBounds i (x.component i + h))
  let forward ← liftExcept (f.value (← get))
  modify (·.setIfInBounds i (x.component i - h))
  let backward ← liftExcept (f.value (← get))
  modify (·.setIfInBounds i (x.component i))
  pure ((forward - backward) / (2.0 * h))

/-- The gradient at `x` from a probe that is moved in place. -/
def differenceInPlace (f : Objective (Except (Fault α)) α) (x : Components α) (step : α) :
    Recording (Components α) α (Components α) := do
  ensure (checkDimension (α := α) .differencePoint f.dimension x.size)
  unless Scalar.isPositive step do
    throw (Fault.argument (.differenceStep step))
  let quotients ← (List.finRange x.size).mapM (f.quotientInPlace step x)
  pure quotients.toArray

/-- After a quotient the probe is where it was. -/
theorem ran_quotientInPlace {i : Fin x.size} {q : α} (h : f.differenceQuotient step x i = .ok q) :
    (f.quotientInPlace step x i).ran x = (.ok q, x) := by
  obtain ⟨forward, hforward, h⟩ := bind_eq_ok.1 h
  obtain ⟨backward, hbackward, h⟩ := bind_eq_ok.1 h
  cases h
  have hset : ∀ u, x.set i u = x.setIfInBounds i u := fun u => by
    rw [Array.setIfInBounds, dif_pos i.isLt]
  have hi : x.component i = x[i] := Components.component_eq i.isLt
  have hback : x.setIfInBounds i x[i] = x := by rw [← hset]; exact Array.set_getElem_self i.isLt
  rw [hset] at hforward hbackward
  unfold quotientInPlace
  simp only [hi, Recording.ran_bind, Recording.ran_modify, Recording.ran_get, Recording.ran_liftExcept,
    Recording.ran_pure, hforward, Array.setIfInBounds_setIfInBounds, hbackward, hback]

/-- When there is a gradient, and what it consists of. -/
theorem differenceGradient_eq_ok {d : Components α} : f.differenceGradient x step = .ok d ↔
    f.dimension = x.size ∧ 0 < step ∧ ∃ quotients,
      (List.finRange x.size).mapM (f.differenceQuotient step x) = .ok quotients ∧
        quotients.toArray = d := by
  unfold differenceGradient
  rw [ensure_eq, ← Scalar.isPositive_iff]
  constructor
  · intro h
    obtain ⟨_, hsize, h⟩ := bind_eq_ok.1 h
    by_cases hstep : Scalar.isPositive step = true
    · simp only [hstep, if_true] at h
      obtain ⟨quotients, hquotients, h⟩ := bind_eq_ok.1 h
      exact ⟨checkDimension_eq_ok.1 hsize, hstep, quotients, hquotients, Except.ok.inj h⟩
    · simp only [hstep] at h
      cases h
  · rintro ⟨hsize, hstep, quotients, hquotients, rfl⟩
    rw [checkDimension_eq_ok.2 hsize, hstep, hquotients]
    rfl

/-- **The probe is put back**, and what it finds is the gradient. -/
theorem ran_differenceInPlace {d : Components α} (h : f.differenceGradient x step = .ok d) :
    (f.differenceInPlace x step).ran x = (.ok d, x) := by
  obtain ⟨hsize, hstep, quotients, hquotients, rfl⟩ := differenceGradient_eq_ok.1 h
  have hrow := Recording.ran_mapM (fun i _ q => ran_quotientInPlace (i := i)) hquotients
  unfold differenceInPlace ensure
  rw [checkDimension_eq_ok.2 hsize, Scalar.isPositive_iff.2 hstep]
  simp only [Recording.ran_bind, Recording.ran_liftExcept, if_true, Recording.ran_pure, hrow]

/-- The difference quotient of a function of the components, in component `i`. -/
def quotientAt (F : (ℕ → α) → α) (x : Components α) (step : α) (i : ℕ) : α :=
  let h := differenceWidth step (x.component i)
  (F (fun j => x.component j + h * axis i j) - F (fun j => x.component j + -h * axis i j)) / (2.0 * h)

variable {F : (ℕ → α) → α}

theorem differenceQuotient_of_values
    (hF : ∀ y : Components α, y.size = x.size → f.value y = .ok (F y.component)) (i : Fin x.size) :
    f.differenceQuotient step x i = .ok (quotientAt F x step i) := by
  have hi : x[i] = x.component i := (Components.component_eq i.isLt).symm
  have hmoved : ∀ h, f.value (x.set i (x.component i + h)) =
      .ok (F fun j => x.component j + h * axis i j) := by
    intro h
    rw [hF _ (Array.size_set ..), Components.component_moved i.isLt]
  unfold differenceQuotient
  simp only [hi, sub_eq_add_neg (x.component i), hmoved]
  rfl

/-- **The gradient of an objective with known values** consists of the difference quotients of those. -/
theorem differences_of_values (hx : x.size = f.dimension) (hstep : 0 < step)
    (hF : ∀ y : Components α, y.size = x.size → f.value y = .ok (F y.component)) :
    ∃ d, f.differenceGradient x step = .ok d ∧ d.size = x.size ∧
      ∀ i < x.size, d.component i = quotientAt F x step i := by
  have hquotient : f.differenceQuotient step x = fun i => .ok (quotientAt F x step i) :=
    funext fun i => differenceQuotient_of_values hF i
  have hrow : (List.finRange x.size).mapM (f.differenceQuotient step x) =
      .ok ((List.finRange x.size).map fun i : Fin x.size => quotientAt F x step i) := by
    rw [hquotient]
    exact List.mapM_pure
  refine ⟨_, differenceGradient_eq_ok.2 ⟨hx.symm, hstep, _, hrow, rfl⟩, by simp, fun i hi => ?_⟩
  rw [Components.component_eq (by simpa using hi)]
  simp

end Objective
end EnergyStep
