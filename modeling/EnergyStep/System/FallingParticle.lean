import EnergyStep.Particle.State
import EnergyStep.Solver

/-!
# A falling particle

* `FallingParticle`: one particle in a uniform field, with the solver for its standard laws.
-/

namespace EnergyStep

variable {α : Type} [Scalar α]

/-- One particle in a uniform field. -/
structure FallingParticle (α : Type) where
  slots : ParticleSlots
  gravity : Gravity α
  solver : Solver α

namespace FallingParticle

/-- A particle at the given positions, accelerated by the field. -/
def make (slots : ParticleSlots) (acceleration : Vec3 α) (scales : Scales α)
    (settings : Settings α) : Except (Fault α) (FallingParticle α) := do
  let gravity : Gravity α := ⟨acceleration⟩
  let solver ← Solver.make slots.dimension (slots.terms scales gravity) settings
  pure ⟨slots, gravity, solver⟩

/-- A particle without an orientation in a state of its own. -/
def scaled (acceleration : Vec3 α) (scales : Scales α) (settings : Settings α) :
    Except (Fault α) (FallingParticle α) :=
  make (ParticleSlots.alone ParticleSlots.plain) acceleration scales settings

/-- A particle with an orientation in a state of its own, in units. -/
def oriented (acceleration : Vec3 α) (settings : Settings α) :
    Except (Fault α) (FallingParticle α) :=
  make (ParticleSlots.alone ParticleSlots.oriented) acceleration Scales.unit settings

/-- The state in which the particle falls freely. -/
def start (s : FallingParticle α) (mass : α) (position velocity : Vec3 α) :
    Except (Fault α) (Components α) :=
  (Particle.inField mass position velocity s.gravity).encode s.slots

/-- The particle in a state of the system. -/
def decode (s : FallingParticle α) (x : Components α) :
    Except (Fault α) (Particle α) :=
  Particle.decode s.slots x

end FallingParticle
end EnergyStep
