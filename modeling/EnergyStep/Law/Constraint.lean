import EnergyStep.Scales
import EnergyStep.Law.Contribution
import EnergyStep.Store.Rotation

/-!
# Constraints on one state

* `FieldForce`: a force is what a uniform field exerts on a mass.
* `VersorConstraint`: a stored quaternion has norm one.
-/

namespace EnergyStep

variable {α : Type} [Scalar α]

/-- A force along an axis that a uniform field exerts on a mass. -/
structure FieldForce (α : Type) where
  force : Slot
  mass : Slot
  /-- The acceleration of the field along the axis. -/
  acceleration : α
deriving DecidableEq

namespace FieldForce

def slots (c : FieldForce α) : List Slot := [c.force, c.mass]

/-- Energy and gradient of the force less mass times acceleration. -/
def contribution (c : FieldForce α) (scales : Scales α) (state : Components α) :
    Except (Fault α) (Contribution α) := do
  let force ← c.force.read state
  let mass ← c.mass.read state
  let penalty := squaredError scales.energy scales.force (force - mass * c.acceleration)
  let s := penalty.slope
  pure ⟨penalty.energy, [c.force.addition s, c.mass.addition (-c.acceleration * s)]⟩

end FieldForce

/-- A quaternion that has norm one. -/
structure VersorConstraint where
  quat : QuatSlots
deriving DecidableEq, Repr

namespace VersorConstraint

/-- Energy and gradient of the square of the norm less one. -/
def contribution (c : VersorConstraint) (scales : Scales α) (state : Components α) :
    Except (Fault α) (Contribution α) := do
  let q ← c.quat.read state
  let violation := q.normSq - 1
  let weight := scales.rotationalEnergy
  pure ⟨weight * violation * violation, [c.quat.entries (q.scale (4.0 * weight * violation))]⟩

end VersorConstraint
end EnergyStep
