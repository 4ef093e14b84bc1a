import EnergyStep.Search.Ray

/-!
# Minima of functions of many variables

* `Minimum`: the result of a minimization.
* `checkStart`: the preconditions that every minimization has.
-/

namespace EnergyStep

variable {α : Type} [Scalar α]

/-- Why an iteration stopped. -/
inductive Termination
  /-- The value no longer fell by more than the tolerance. -/
  | valueConverged
  /-- The next direction no longer depended on the last one. -/
  | gammaConverged
  | gradientVanished
  /-- No minimum was found on a line, as happens where the gradient has all but vanished. -/
  | lineSearchStalled
deriving DecidableEq, Repr

/-- The minimum of a function of many variables. -/
structure Minimum (α : Type) where
  point : Components α
  value : α
  iterations : Nat
  termination : Termination
deriving DecidableEq

/-- There is something to vary, the start has as many components, and the settings make sense. -/
def checkStart (dimension : Nat) (start : Components α) (settings : Settings α) :
    Except (Fault α) Unit := do
  if dimension = 0 then .error (.argument .noVariables)
  checkDimension .startingPoint dimension start.size
  settings.check

end EnergyStep
