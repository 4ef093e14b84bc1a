import EnergyStep.Minimize.Minimum

/-!
# Minimizing by conjugate gradients

Every iteration goes to the minimum along a direction that is made of the direction of steepest
descent there and, by the rule of Polak and Ribière, a part of the last direction.

* `ConjugateGradient.usable`: a direction that has all but vanished is replaced.
* `ConjugateGradient.judge`: after a line, either the reason to stop or the next state.
* `SmoothObjective.minimizeByGradients`: the minimization. A line without a minimum ends it with the
  last point, since that is how a vanished gradient shows.
-/

namespace EnergyStep

variable {m : Type → Type} {α : Type} [Scalar α] [Monad m] [MonadExceptOf (Fault α) m]

/-- The state between two iterations. -/
structure ConjugateGradient (α : Type) where
  point : Components α
  value : α
  /-- The direction of steepest descent at the point. -/
  descent : Components α
  /-- The direction of the next line. -/
  conjugate : Components α
  /-- The largest fall of the value in one iteration so far. -/
  largestDrop : α

namespace ConjugateGradient

/-- The direction itself, or a fixed unit vector if its square vanishes. -/
def usable (direction : Components α) : Components α :=
  if direction.normSq < 2.2250738585072014e-308 then
    Array.replicate direction.size (1 / Scalar.sqrt (direction.size : α))
  else direction

/-- Value and gradient are finite. -/
def checkFinite (value : α) (gradient : Components α) : Except (Fault α) Unit :=
  if Scalar.isFinite value && gradient.all Scalar.isFinite then .ok ()
  else .error (.condition (.gradientNotFinite value))

/-- What a line leads to. -/
inductive Verdict (α : Type)
  | stop (reason : Termination)
  | proceed (next : ConjugateGradient α)

/-- Compares the new point with the last one. -/
def judge (tolerance : α) (s : ConjugateGradient α) (point : Components α) (value : α)
    (gradient : Components α) : Verdict α :=
  let drop := s.value - value
  let largestDrop := Scalar.larger s.largestDrop drop
  if drop ≤ tolerance * largestDrop then .stop .valueConverged
  else
    let descent := gradient.neg
    let before := s.descent.normSq
    if Scalar.same before 0 ∨ Scalar.same descent.normSq 0 then .stop .gradientVanished
    else
      let gamma := (descent.sub s.descent).dot descent / before
      if Scalar.abs gamma < tolerance then .stop .gammaConverged
      else .proceed ⟨point, value, descent, descent.add (s.conjugate.scale gamma), largestDrop⟩

/-- Iterates until there is a reason to stop. -/
def iterate (f : SmoothObjective m α) (settings : Settings α) :
    (left done : Nat) → ConjugateGradient α → m (Minimum α)
  | 0, _, _ => throw (Fault.condition (.conjugateGradient settings.maxIterations))
  | left + 1, done, s => do
    let iteration := done + 1
    let line := f.descend (LineSearch.ofSettings settings) ⟨s.point, usable s.conjugate⟩
    match ← observing line with
    | .error fault =>
      if fault.isPoorlyConditioned then pure ⟨s.point, s.value, iteration, .lineSearchStalled⟩
      else throw fault
    | .ok (there, value, gradient) =>
      ensure (checkFinite value gradient)
      match s.judge settings.tolerance there.origin value gradient with
      | .stop reason => pure ⟨there.origin, value, iteration, reason⟩
      | .proceed next => iterate f settings left iteration next

end ConjugateGradient

/-- A minimum of the objective, from values and gradients. -/
def SmoothObjective.minimizeByGradients (f : SmoothObjective m α)
    (start : Components α) (settings : Settings α) : m (Minimum α) := do
  ensure (checkStart f.dimension start settings)
  let (value, gradient) ← f.valueAndGradient start
  ensure (ConjugateGradient.checkFinite value gradient)
  let descent := gradient.neg
  ConjugateGradient.iterate f settings settings.maxIterations 0 ⟨start, value, descent, descent, 0⟩

end EnergyStep
