import EnergyStep.Law.Term
import EnergyStep.Objective

/-!
# The energy of a step

The sum of the energies of all terms, for a fixed initial state and time step, as a function of the
candidate state.

* `StepEnergy.make`: refuses time steps that are not positive and terms that do not fit.
* `StepEnergy.evaluate`: the total energy and its gradient.
* `StepEnergy.breakdown`: the energy of every term.
* `StepEnergy.objective`: what a minimization works on.
-/

namespace EnergyStep

variable {α : Type} [Scalar α]

/-- Every term finds its positions in states of the dimension, and its scales make sense. -/
def checkTerms (dimension : Nat) (terms : List (Term α)) : Except (Fault α) Unit :=
  terms.forM fun t => do
    unless Placed.fits t dimension do
      throw (.config (.shortState t.name t.requiredDimension dimension))
    t.scales.check

/-- Terms over one step. -/
structure StepEnergy (α : Type) where
  initial : Components α
  dt : α
  terms : List (Term α)

namespace StepEnergy

/-- The energy of a step of `dt` from the initial state. -/
def make (initial : Components α) (dt : α) (terms : List (Term α)) :
    Except (Fault α) (StepEnergy α) := do
  checkTimestep dt
  checkTerms initial.size terms
  pure ⟨initial, dt, terms⟩

/-- The number of components of a candidate state. -/
def dimension (f : StepEnergy α) : Nat := f.initial.size

/-- Evaluates one term after others: their total energy and gradient grow by its own. -/
def accumulate (f : StepEnergy α) (state : Components α)
    (sofar : α × Components α) (t : Term α) : Except (Fault α) (α × Components α) :=
  let (energy, gradient) := t.evaluate f.initial state f.dt sofar.2
  energy.map fun e => (sofar.1 + e, gradient)

/-- The total energy and its gradient at a candidate state. -/
def evaluate (f : StepEnergy α) (state : Components α) :
    Except (Fault α) (α × Components α) := do
  checkDimension .candidateState f.dimension state.size
  f.terms.foldlM (f.accumulate state) (0, Components.zeros state.size)

/-- The name and the energy of every term at a candidate state. -/
def breakdown (f : StepEnergy α) (state : Components α) :
    Except (Fault α) (List (String × α)) := do
  checkDimension .candidateState f.dimension state.size
  f.terms.mapM fun t => do
    let c ← t.contribution f.initial state f.dt
    pure (t.name, c.energy)

/-- The total energy as an objective. -/
def objective (f : StepEnergy α) : SmoothObjective (Except (Fault α)) α where
  dimension := f.dimension
  value state := (f.evaluate state).map Prod.fst
  valueAndGradient state := f.evaluate state

end StepEnergy
end EnergyStep
