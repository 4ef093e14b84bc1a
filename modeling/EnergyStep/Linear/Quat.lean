import EnergyStep.Linear.Space

/-!
# Quaternions

* `Quat`: four components; those of norm one stand for rotations.
* `Quat.normalized`, `Quat.versor?`: the quaternion of norm one along a quaternion.
-/

namespace EnergyStep

variable {α : Type} [Scalar α]

/-- The quaternion `w + i𝐢 + j𝐣 + k𝐤`. -/
structure Quat (α : Type) where
  w : α
  i : α
  j : α
  k : α

namespace Quat

/-- The rotation that turns nothing. -/
def identity : Quat α := ⟨1, 0, 0, 0⟩

/-- The quaternion with real part `w` and vector part `v`. -/
def ofParts {α : Type} (w : α) (v : Vec3 α) : Quat α := ⟨w, v.x, v.y, v.z⟩

/-- The part that is a vector in space. -/
def vector (q : Quat α) : Vec3 α := #v[q.i, q.j, q.k]

def normSq (q : Quat α) : α :=
  0 + ((q.i * q.i + q.k * q.k) + (q.j * q.j + q.w * q.w))

def scale (q : Quat α) (factor : α) : Quat α :=
  ⟨q.w * factor, q.i * factor, q.j * factor, q.k * factor⟩

def shrink (q : Quat α) (divisor : α) : Quat α :=
  ⟨q.w / divisor, q.i / divisor, q.j / divisor, q.k / divisor⟩

/-- The quaternion of norm one along `q`. -/
def normalized (q : Quat α) : Quat α := q.shrink (Scalar.sqrt q.normSq)

/-- The quaternion of norm one along `q`, if the norm of `q` is above `least`. -/
def versor? (q : Quat α) (least : α) : Option (Quat α) :=
  if q.normSq > least * least then some q.normalized else none

end Quat
end EnergyStep
