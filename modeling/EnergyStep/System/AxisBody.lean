import EnergyStep.Law.Term
import EnergyStep.Store.Layout

/-!
# A body on one axis

* `AxisBody`: mass, position, velocity, acceleration and force along one axis.
* `AxisBody.terms`: its laws under a uniform field.
* `AxisBody.encode`: a state in which it falls freely.
-/

namespace EnergyStep

variable {α : Type} [Scalar α]

/-- The positions of the quantities of a body on one axis. -/
structure AxisBody where
  mass : Slot
  position : Slot
  velocity : Slot
  acceleration : Slot
  force : Slot
deriving DecidableEq, Repr

namespace AxisBody

/-- A body at the next five positions of the layout. -/
def allocate : Allocation AxisBody := do
  let mass ← Layout.scalar
  let position ← Layout.scalar
  let velocity ← Layout.scalar
  let acceleration ← Layout.scalar
  let force ← Layout.scalar
  pure ⟨mass, position, velocity, acceleration, force⟩

/-- The laws of a closed body under the acceleration `g` of a field. -/
def laws (b : AxisBody) (g : α) : List (Law α) :=
  [.mass (MassBalance.closed b.mass),
    .momentum ⟨b.mass, b.velocity, [b.force], [], []⟩,
    .newton ⟨b.mass, b.velocity, b.acceleration, [b.force], [], []⟩,
    .position ⟨b.position, b.velocity⟩,
    .velocity ⟨b.velocity, b.acceleration⟩,
    .field ⟨b.force, b.mass, g⟩]

/-- The laws as terms, all in the same scales. -/
def terms (b : AxisBody) (g : α) (scales : Scales α) : List (Term α) :=
  (b.laws g).map fun law => ⟨law, scales⟩

/-- A state with the body in free fall, all other components zero. -/
def encode (b : AxisBody) (dimension : Nat) (mass position velocity g : α) :
    Components α :=
  let put (x : Components α) (slot : Slot) (value : α) : Components α :=
    x.setIfInBounds slot.index value
  let x := put (Components.zeros dimension) b.mass mass
  let x := put x b.position position
  let x := put x b.velocity velocity
  let x := put x b.acceleration g
  put x b.force (mass * g)

end AxisBody
end EnergyStep
