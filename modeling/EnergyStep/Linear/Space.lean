import EnergyStep.Scalar

/-!
# Vectors in space

* `Vec3`: three components, with their inner product and length.
* `Vec3.direction?`: the unit vector along a vector that is long enough to have a direction.
-/

namespace EnergyStep

variable {α : Type} [Scalar α]

/-- A vector in space. -/
abbrev Vec3 (α : Type) := Vector α 3

namespace Vec3

def x {α : Type} (a : Vec3 α) : α := a[0]

def y {α : Type} (a : Vec3 α) : α := a[1]

def z {α : Type} (a : Vec3 α) : α := a[2]

def dot (a b : Vec3 α) : α := a.x * b.x + a.y * b.y + a.z * b.z

def normSq (a : Vec3 α) : α := 0 + dot a a

def norm (a : Vec3 α) : α := Scalar.sqrt (normSq a)

/-- No extent in any direction. -/
def zero : Vec3 α := #v[0, 0, 0]

def scale (a : Vec3 α) (factor : α) : Vec3 α := a.map fun x => x * factor

def neg (a : Vec3 α) : Vec3 α := a.map fun x => -x

/-- The unit vector along `a`, if `a` is longer than `least`. -/
def direction? (a : Vec3 α) (least : α) : Option (Vec3 α) :=
  let s := normSq a
  if s > least * least then some (a.map fun x => x / Scalar.sqrt s) else none

end Vec3
end EnergyStep
