import EnergyStep.Linear.Quat

/-!
# Rotations by axis and angle

* `AxisAngle`: a unit axis and an angle in `(-π, π]`; `AxisAngle.ofAxis` makes one of any axis and
  any angle.
* `AxisAngle.toQuat`, `AxisAngle.ofQuat`: the same rotation as a quaternion of norm one.
-/

namespace EnergyStep

variable {α : Type} [Angular α]

/-- A rotation about an axis. -/
structure AxisAngle (α : Type) where
  axis : Vec3 α
  angle : α

namespace AxisAngle

/-- No rotation, about the third axis. -/
def identity : AxisAngle α := ⟨#v[0, 0, 1], 0⟩

/-- The rotation about an axis of any length; an axis without a direction means no rotation. -/
def ofAxis (axis : Vec3 α) (angle : α) : AxisAngle α :=
  match axis.direction? Scalar.epsilon with
  | some direction => ⟨direction, Angular.wrap angle⟩
  | none => identity

/-- The rotation of a quaternion of norm one. Of the two opposite quaternions of a rotation the one
with `w ≥ 0` is taken, so that the angle is at most a half turn. -/
def ofQuat (q : Quat α) : AxisAngle α :=
  let v := if q.w ≥ 0 then q.vector else q.vector.neg
  match v.direction? 0 with
  | some direction =>
    ⟨direction, Angular.wrap (Angular.atan2 q.vector.norm (Scalar.abs q.w) * 2.0)⟩
  | none => identity

/-- The quaternion of norm one of the rotation. -/
def toQuat (r : AxisAngle α) : Quat α :=
  let half := r.angle / 2.0
  Quat.ofParts (Angular.cos half) (r.axis.scale (Angular.sin half))

end AxisAngle
end EnergyStep
