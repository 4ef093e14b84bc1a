import EnergyStep.Scalar

/-!
# Reference scales

Characteristic magnitudes of a modelled system. A violation of a law has the unit of that law;
divided by the matching magnitude it is a plain number, and times the energy scale it can be summed
with the violations of other laws.

* `Scales`: mass, length, time and energy per mass, and the magnitudes derived from them.
* `Scales.defect?`: the first scale that is not positive and finite.
-/

namespace EnergyStep

variable {α : Type} [Scalar α]

/-- Characteristic magnitudes of a system. -/
structure Scales (α : Type) where
  mass : α
  length : α
  time : α
  /-- Energy per unit of mass. -/
  specificEnergy : α
deriving DecidableEq

/-- The four scales that are chosen, not derived. -/
inductive BaseScale
  | mass
  | length
  | time
  | specificEnergy
deriving DecidableEq, Repr

namespace Scales

/-- One unit of everything. -/
def unit : Scales α := ⟨1, 1, 1, 1⟩

/-- For a body of the given mass that moves `length` in `time`; the specific energy is the square of
its speed. -/
def ofMotion (mass length time : α) : Scales α :=
  ⟨mass, length, time, Scalar.sq (length / time)⟩

def energy (s : Scales α) : α := s.mass * s.specificEnergy

def velocity (s : Scales α) : α := s.length / s.time

def acceleration (s : Scales α) : α := s.length / (s.time * s.time)

def momentum (s : Scales α) : α := s.mass * s.velocity

def force (s : Scales α) : α := s.mass * s.acceleration

/-- The energy scale of a rotation, from the mass and the velocity scale. -/
def rotationalEnergy (s : Scales α) : α := s.mass * s.velocity * s.velocity

/-- The four chosen scales, in the order in which they are checked. -/
def base (s : Scales α) : List (BaseScale × α) :=
  [(.mass, s.mass), (.length, s.length), (.time, s.time), (.specificEnergy, s.specificEnergy)]

/-- The first chosen scale that is not positive and finite. -/
def defect? (s : Scales α) : Option (BaseScale × α) :=
  s.base.find? fun scale => !Scalar.isPositive scale.2

end Scales
end EnergyStep
