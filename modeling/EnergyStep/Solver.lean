import EnergyStep.StepEnergy
import EnergyStep.Minimize.DirectionSet
import EnergyStep.Minimize.ConjugateGradient

/-!
# Solving a step

* `Solver`: a set of terms over states of one dimension, and the settings to minimize with.
* `Solver.make`: refuses settings, terms and scales that cannot work, once and for all steps.
* `Solver.solve`: the state after a step, found by minimization from the state before it.
-/

namespace EnergyStep

variable {m : Type → Type} {α : Type} [Scalar α]

/-- A minimum of the objective by the method of the settings. -/
def SmoothObjective.minimize [Monad m] [MonadExceptOf (Fault α) m]
    (f : SmoothObjective m α) (start : Components α) (settings : Settings α) : m (Minimum α) :=
  match settings.method with
  | .powell => f.toObjective.minimizeByDirections start settings
  | .conjugateGradient => f.minimizeByGradients start settings

/-- Solves steps of one system. -/
structure Solver (α : Type) where
  dimension : Nat
  terms : List (Term α)
  settings : Settings α
deriving DecidableEq

/-- The state after a step. -/
structure Outcome (α : Type) where
  state : Components α
  /-- The total energy left at the state. -/
  residual : α
  iterations : Nat
  termination : Termination
deriving DecidableEq

namespace Solver

/-- A solver for states of the dimension. -/
def make (dimension : Nat) (terms : List (Term α)) (settings : Settings α) :
    Except (Fault α) (Solver α) := do
  settings.check
  checkTerms dimension terms
  pure ⟨dimension, terms, settings⟩

/-- The energy of a step of `dt` from the initial state. -/
def energy (s : Solver α) (initial : Components α) (dt : α) :
    Except (Fault α) (StepEnergy α) := do
  checkDimension .initialState s.dimension initial.size
  StepEnergy.make initial dt s.terms

/-- The state after a step of `dt` from the initial state. -/
def solve (s : Solver α) (initial : Components α) (dt : α) :
    Except (Fault α) (Outcome α) := do
  let f ← s.energy initial dt
  let minimum ← f.objective.minimize initial s.settings
  pure ⟨minimum.point, minimum.value, minimum.iterations, minimum.termination⟩

end Solver
end EnergyStep
