import EnergyStep.Minimize.Minimum

/-!
# Minimizing with direction sets

Powell's method. One iteration goes to the minimum along each direction of a set in turn. The way
made since the anchor then takes the place of the direction along which the value fell most, if
going the same way once more promises a lower value. Every `n` iterations the set is the coordinate
directions again, since it drifts toward dependence; the search never ends before the first `n`.

* `DirectionSet.sweep`: along every direction in turn.
* `DirectionSet.isConverged`: the value fell by no more than a fraction of itself.
* `DirectionSet.replaceDirection`: the extrapolation test and the new direction.
* `Objective.minimizeByDirections`: the minimization.
-/

namespace EnergyStep

variable {m : Type → Type} {α : Type} [Scalar α] [Monad m] [MonadExceptOf (Fault α) m]

/-- The state between two iterations. -/
structure DirectionSet (α : Type) where
  point : Components α
  value : α
  directions : List (Components α)
  /-- The point from which the way made is measured. -/
  anchor : Components α

namespace DirectionSet

/-- What is known after some directions of a sweep. -/
structure Sweep (α : Type) where
  point : Components α
  value : α
  /-- The position of the direction along which the value fell most. -/
  steepest : Nat
  /-- How much it fell along that direction. -/
  largestDrop : α
deriving DecidableEq

/-- Goes to the minimum along each direction in turn; `i` is the position of the first. -/
def sweep (f : Objective m α) (search : LineSearch α) :
    (i : Nat) → List (Components α) → Sweep α → m (Sweep α)
  | _, [], s => pure s
  | i, d :: rest, s => do
    let (there, value) ← f.descend search ⟨s.point, d⟩
    let drop := s.value - value
    if drop > s.largestDrop then sweep f search (i + 1) rest ⟨there.origin, value, i, drop⟩
    else sweep f search (i + 1) rest { s with point := there.origin, value := value }

/-- Twice the fall of the value is at most the tolerance times the size of the values. -/
def isConverged (tolerance before after : α) : Bool :=
  2.0 * (before - after) ≤ tolerance * (Scalar.abs before + Scalar.abs after) + 1e-25

/-- The point as far beyond the current one as that is from the anchor. -/
def extrapolated (anchor point : Components α) : Components α :=
  (point.scale 2.0).sub anchor

/-- The test value of the extrapolation: negative if going on promises a lower value. -/
def promise (before after beyond largestDrop : α) : α :=
  2.0 * (before - 2.0 * after + beyond) * Scalar.sq (before - after - largestDrop) -
    largestDrop * Scalar.sq (before - beyond)

/-- The directions without the one at `steepest`, whose place the last one takes, and with the given
one at the end. -/
def exchange (directions : List (Components α)) (steepest : Nat) (added : Components α) :
    List (Components α) :=
  let last := directions.length - 1
  ((directions[last]?.elim directions (directions.set steepest ·))).set last added

/-- If going the same way once more promises a lower value, goes to the minimum along that way and
takes it into the set. `before` is the value before the sweep. -/
def replaceDirection (f : Objective m α) (search : LineSearch α) (s : DirectionSet α)
    (before : α) (w : Sweep α) : m (DirectionSet α) := do
  let way := w.point.sub s.anchor
  let beyond ← f.value (extrapolated s.anchor w.point)
  if beyond < before ∧ promise before w.value beyond w.largestDrop < 0 then
    let (there, value) ← f.descend search ⟨w.point, way⟩
    pure ⟨there.origin, value, exchange s.directions w.steepest there.direction, w.point⟩
  else
    pure ⟨w.point, w.value, s.directions, w.point⟩

/-- Iterates until the value has converged. -/
def iterate (f : Objective m α) (settings : Settings α) :
    (left done : Nat) → DirectionSet α → m (Minimum α)
  | 0, _, _ => throw (Fault.condition (.directionSets settings.maxIterations))
  | left + 1, done, s => do
    let n := f.dimension
    let iteration := done + 1
    let search := LineSearch.ofSettings settings
    let w ← sweep f search 0 s.directions ⟨s.point, s.value, 0, 0⟩
    if isConverged settings.tolerance s.value w.value && n ≤ iteration then
      pure ⟨w.point, w.value, iteration, .valueConverged⟩
    else if iteration % n = 0 then
      iterate f settings left iteration ⟨w.point, w.value, Components.basis n, w.point⟩
    else
      iterate f settings left iteration (← replaceDirection f search s s.value w)

end DirectionSet

/-- A minimum of the objective, from values only. -/
def Objective.minimizeByDirections (f : Objective m α) (start : Components α)
    (settings : Settings α) : m (Minimum α) := do
  ensure (checkStart f.dimension start settings)
  let value ← f.value start
  unless Scalar.isFinite value do
    throw (Fault.condition (.startNotFinite value))
  DirectionSet.iterate f settings settings.maxIterations 0
    ⟨start, value, Components.basis f.dimension, start⟩

end EnergyStep
