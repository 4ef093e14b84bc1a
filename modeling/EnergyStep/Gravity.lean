import EnergyStep.Linear.Space

/-!
# Uniform fields

* `Gravity`: the acceleration of a uniform field.
* `Gravity.forceOn`: the force on a mass.
-/

namespace EnergyStep

variable {α : Type} [Scalar α]

/-- A field that accelerates every mass alike. -/
structure Gravity (α : Type) where
  acceleration : Vec3 α

namespace Gravity

/-- The standard field at the surface of the Earth. -/
def earth : Gravity α := ⟨#v[0, 0, -9.81]⟩

/-- Free flight. -/
def none : Gravity α := ⟨Vec3.zero⟩

/-- The force on a mass. -/
def forceOn (g : Gravity α) (mass : α) : Vec3 α := g.acceleration.scale mass

end Gravity
end EnergyStep
