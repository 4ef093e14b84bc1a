import EnergyStep.Particle.Slots

/-!
# The state of a particle

* `Particle`: the quantities of one particle.
* `Particle.encodeInto`, `Particle.encode`: into the components of a state.
* `Particle.decode`: out of them.
-/

namespace EnergyStep

variable {α : Type} [Scalar α]

/-- The quantities of one particle. -/
structure Particle (α : Type) where
  mass : α
  position : Vec3 α
  velocity : Vec3 α
  acceleration : Vec3 α
  /-- The net force. -/
  force : Vec3 α
  /-- A quaternion of norm one. -/
  orientation : Option (Quat α)

namespace Particle

/-- A particle at rest on which no force acts. -/
def atRest (mass : α) (position : Vec3 α) : Particle α :=
  ⟨mass, position, Vec3.zero, Vec3.zero, Vec3.zero, none⟩

/-- A particle that falls freely in the field. -/
def inField (mass : α) (position velocity : Vec3 α) (field : Gravity α) :
    Particle α :=
  ⟨mass, position, velocity, field.acceleration, field.forceOn mass, none⟩

def oriented (p : Particle α) (orientation : Quat α) : Particle α :=
  { p with orientation := some orientation }

/-- Half the mass times the square of the speed. -/
def kineticEnergy (p : Particle α) : α := 0.5 * p.mass * p.velocity.normSq

/-- The orientation to store: none for a plain layout, and no rotation if the layout has a place for
an orientation that the particle lacks. -/
def storedOrientation (p : Particle α) (slots : ParticleSlots) :
    Except (Fault α) (Option (RotationSlots × Quat α)) :=
  match slots.orientation, p.orientation with
  | some quat, orientation => .ok (some (⟨quat⟩, orientation.getD Quat.identity))
  | none, some _ => .error (.argument .orientationNotStored)
  | none, none => .ok none

/-- The state with the quantities of the particle added at their positions. -/
def encodeInto (p : Particle α) (slots : ParticleSlots) (x : Components α) :
    Except (Fault α) (Components α) := do
  let orientation ← p.storedOrientation slots
  if x.size < slots.dimension then
    throw (.index (slots.dimension - 1) x.size)
  let x ← slots.mass.add x p.mass
  let x ← slots.position.add x p.position
  let x ← slots.velocity.add x p.velocity
  let x ← slots.acceleration.add x p.acceleration
  let x ← slots.force.add x p.force
  match orientation with
  | some (rotation, q) => rotation.add x q
  | none => pure x

/-- A state that holds the particle and nothing else. -/
def encode (p : Particle α) (slots : ParticleSlots) :
    Except (Fault α) (Components α) :=
  p.encodeInto slots (Components.zeros slots.dimension)

/-- The stored orientation as a rotation, if there is a place for one. -/
def decodeOrientation (slots : ParticleSlots) (x : Components α) :
    Except (Fault α) (Option (Quat α)) :=
  match slots.orientation with
  | some quat => (RotationSlots.read ⟨quat⟩ x).map some
  | none => .ok none

/-- The particle that a state holds. -/
def decode (slots : ParticleSlots) (x : Components α) :
    Except (Fault α) (Particle α) := do
  let mass ← slots.mass.read x
  let position ← slots.position.read x
  let velocity ← slots.velocity.read x
  let acceleration ← slots.acceleration.read x
  let force ← slots.force.read x
  let orientation ← decodeOrientation slots x
  pure ⟨mass, position, velocity, acceleration, force, orientation⟩

end Particle
end EnergyStep
