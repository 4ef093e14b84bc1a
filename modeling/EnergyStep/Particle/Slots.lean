import EnergyStep.Gravity
import EnergyStep.Law.Term
import EnergyStep.Store.Layout

/-!
# Where a particle lives

* `ParticleSlots`: the positions of the quantities of one particle.
* `ParticleSlots.plain`, `ParticleSlots.oriented`: the next positions of a layout.
* `ParticleSlots.terms`: the laws of a particle whose only force is a uniform field.
-/

namespace EnergyStep

variable {α : Type} [Scalar α]

/-- The positions of the quantities of one particle. -/
structure ParticleSlots where
  mass : Slot
  position : Slots 3
  velocity : Slots 3
  acceleration : Slots 3
  /-- The net force. -/
  force : Slots 3
  orientation : Option QuatSlots
deriving DecidableEq, Repr

instance : Placed ParticleSlots where
  indices p :=
    Placed.indices p.mass ++ Placed.indices p.position ++ Placed.indices p.velocity ++
      Placed.indices p.acceleration ++ Placed.indices p.force ++
      p.orientation.elim [] Placed.indices
  blocks p :=
    [Placed.indices p.mass, Placed.indices p.position, Placed.indices p.velocity,
      Placed.indices p.acceleration, Placed.indices p.force] ++
      p.orientation.toList.map Placed.indices
  flatten_blocks p := by cases p.orientation <;> simp

namespace ParticleSlots

/-- A particle without an orientation at the next positions of the layout. -/
def plain : Allocation ParticleSlots := do
  let mass ← Layout.scalar
  let position ← Layout.vector 3
  let velocity ← Layout.vector 3
  let acceleration ← Layout.vector 3
  let force ← Layout.vector 3
  pure ⟨mass, position, velocity, acceleration, force, none⟩

/-- A particle with an orientation at the next positions of the layout. -/
def oriented : Allocation ParticleSlots := do
  let particle ← plain
  let orientation ← Layout.quat
  pure { particle with orientation := some orientation }

/-- The positions of a particle that has a state of its own. -/
def alone (particle : Allocation ParticleSlots) : ParticleSlots := (particle.run Layout.empty).1

/-- The number of components that a state needs to hold the particle. -/
def dimension (p : ParticleSlots) : Nat := Placed.requiredDimension p

/-- One law per axis. -/
def perAxis {β : Type} (law : Fin 3 → β) : List β := [law 0, law 1, law 2]

/-- The balances of momentum and of force along one axis. -/
def axisLaws (p : ParticleSlots) (axis : Fin 3) : List (Law α) :=
  let velocity := p.velocity.components[axis]
  let force := p.force.components[axis]
  [.momentum ⟨p.mass, velocity, [force], [], []⟩,
    .newton ⟨p.mass, velocity, p.acceleration.components[axis], [force], [], []⟩]

/-- The force along each axis is what the field exerts. -/
def fieldLaws (force : Slots 3) (mass : Slot) (field : Gravity α) : List (Law α) :=
  perAxis fun axis => .field ⟨force.components[axis], mass, field.acceleration[axis]⟩

/-- The laws of a closed particle on which only the field acts. -/
def laws (p : ParticleSlots) (field : Gravity α) : List (Law α) :=
  .mass (MassBalance.closed p.mass) ::
    ((perAxis p.axisLaws).flatten ++
      (RateBalance.perAxis p.position p.velocity).map .position ++
      (RateBalance.perAxis p.velocity p.acceleration).map .velocity ++
      fieldLaws p.force p.mass field ++
      p.orientation.elim [] fun q => [.versor ⟨q⟩])

/-- The laws of a closed particle as terms, all in the same scales. -/
def terms (p : ParticleSlots) (scales : Scales α) (field : Gravity α) : List (Term α) :=
  (p.laws field).map fun law => ⟨law, scales⟩

end ParticleSlots
end EnergyStep
