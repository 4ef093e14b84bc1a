import EnergyStep.Law.Balance
import EnergyStep.Law.Kinematics
import EnergyStep.Law.Constraint

/-!
# Terms

A term is a law with the scales in which its violation is measured. There are seven kinds of laws.

* `Term.contribution`: energy and additions to the gradient, never negative and zero exactly where
  the law holds.
* `Term.evaluate`: the same with the additions made to a given gradient.
* `Term.requiredDimension`: the number of components that a state needs.
-/

namespace EnergyStep

variable {α : Type} [Scalar α]

/-- A physical law about a step from an initial state to a candidate state. -/
inductive Law (α : Type)
  | mass (balance : MassBalance)
  | momentum (balance : MomentumBalance)
  | newton (balance : NewtonBalance)
  | position (balance : RateBalance)
  | velocity (balance : RateBalance)
  | versor (constraint : VersorConstraint)
  | field (force : FieldForce α)
deriving DecidableEq

namespace Law

def name : Law α → String
  | mass _ => "mass conservation"
  | momentum _ => "momentum conservation"
  | newton _ => "newton second law"
  | position _ => "position kinematics"
  | velocity _ => "velocity kinematics"
  | versor _ => "versor constraint"
  | field _ => "uniform field"

/-- All positions that matter to the law. -/
def indices : Law α → List Nat
  | mass b => b.slots.map Slot.index
  | momentum b => b.slots.map Slot.index
  | newton b => b.slots.map Slot.index
  | position b => b.slots.map Slot.index
  | velocity b => b.slots.map Slot.index
  | versor c => Placed.indices c.quat
  | field c => c.slots.map Slot.index

/-- The same positions, slot by slot, but those of a quaternion together. -/
def blocks : Law α → List (List Nat)
  | mass b => b.slots.map Placed.indices
  | momentum b => b.slots.map Placed.indices
  | newton b => b.slots.map Placed.indices
  | position b => b.slots.map Placed.indices
  | velocity b => b.slots.map Placed.indices
  | versor c => [Placed.indices c.quat]
  | field c => c.slots.map Placed.indices

omit [Scalar α] in
theorem flatten_blocks (law : Law α) : law.blocks.flatten = law.indices := by
  cases law with
  | versor c => exact List.append_nil _
  | _ => exact Slot.flatten_indices _

end Law

/-- A law and the scales in which its violation is measured. -/
structure Term (α : Type) where
  law : Law α
  scales : Scales α
deriving DecidableEq

instance : Placed (Term α) where
  indices t := t.law.indices
  blocks t := t.law.blocks
  flatten_blocks t := t.law.flatten_blocks

namespace Term

def name (t : Term α) : String := t.law.name

/-- The number of components a state needs. -/
def requiredDimension (t : Term α) : Nat := Placed.requiredDimension t

/-- Energy and additions to the gradient. -/
def contribution (t : Term α) (initial state : Components α) (dt : α) :
    Except (Fault α) (Contribution α) :=
  match t.law with
  | .mass b => b.contribution t.scales initial state dt
  | .momentum b => b.contribution t.scales initial state dt
  | .newton b => b.contribution t.scales state
  | .position b => b.contribution t.scales.energy t.scales.length initial state dt
  | .velocity b => b.contribution t.scales.energy t.scales.velocity initial state dt
  | .versor c => c.contribution t.scales state
  | .field c => c.contribution t.scales state

/-- The energy, and the gradient with the additions made to it; an addition without a place in the
gradient is a fault, and those before it stay. -/
def evaluate (t : Term α) (initial state : Components α) (dt : α)
    (gradient : Components α) : Except (Fault α) α × Components α :=
  match t.contribution initial state dt with
  | .error fault => (.error fault, gradient)
  | .ok c =>
    let (outcome, gradient) := deliver c.additions gradient
    (outcome.map fun _ => c.energy, gradient)

end Term
end EnergyStep
