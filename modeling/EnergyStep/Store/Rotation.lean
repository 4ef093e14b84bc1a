import EnergyStep.Store.Slot
import EnergyStep.Linear.AxisAngle

/-!
# Slots of rotations

* `QuatSlots`: a quaternion, as stored.
* `RotationSlots`: a rotation, stored as a quaternion that is brought to norm one when it is read.
* `AxisAngleSlots`: a rotation, stored as an axis and an angle.
-/

namespace EnergyStep

variable {α : Type}

/-- The positions of the components of a quaternion. -/
structure QuatSlots where
  w : Nat
  i : Nat
  j : Nat
  k : Nat
deriving DecidableEq, Repr

instance : Placed QuatSlots where
  indices s := [s.w, s.i, s.j, s.k]

namespace QuatSlots

def consecutive (start : Nat) : QuatSlots := ⟨start, start + 1, start + 2, start + 3⟩

def read [Scalar α] (s : QuatSlots) (x : Components α) :
    Except (Fault α) (Quat α) := do
  checkIndices x.size (Placed.indices s)
  pure ⟨x.component s.w, x.component s.i, x.component s.j, x.component s.k⟩

/-- What to add, and where, to add the quaternion. -/
def entries (s : QuatSlots) (q : Quat α) : List (Nat × α) :=
  [(s.w, q.w), (s.i, q.i), (s.j, q.j), (s.k, q.k)]

def add [Scalar α] (s : QuatSlots) (x : Components α) (q : Quat α) :
    Except (Fault α) (Components α) :=
  x.deposit (s.entries q)

end QuatSlots

/-- The positions of a rotation that is stored as a quaternion. -/
structure RotationSlots where
  quat : QuatSlots
deriving DecidableEq, Repr

instance : Placed RotationSlots where
  indices s := Placed.indices s.quat

namespace RotationSlots

/-- The stored quaternion brought to norm one; a vanishing one is no rotation. -/
def read [Scalar α] (s : RotationSlots) (x : Components α) :
    Except (Fault α) (Quat α) := do
  let stored ← s.quat.read x
  match stored.versor? Scalar.epsilon with
  | some versor => pure versor
  | none => throw (.argument .zeroRotation)

/-- The state with the quaternion of a rotation added. -/
def add [Scalar α] (s : RotationSlots) (x : Components α) (rotation : Quat α) :
    Except (Fault α) (Components α) :=
  s.quat.add x rotation

end RotationSlots

/-- The positions of a rotation that is stored as an axis and an angle. -/
structure AxisAngleSlots where
  axis : Slots 3
  angle : Slot
deriving DecidableEq, Repr

instance : Placed AxisAngleSlots where
  indices s := Placed.indices s.axis ++ Placed.indices s.angle

namespace AxisAngleSlots

/-- Three positions for the axis and the next for the angle. -/
def consecutive (start : Nat) : AxisAngleSlots := ⟨Slots.consecutive start, ⟨start + 3⟩⟩

def read [Angular α] (s : AxisAngleSlots) (x : Components α) :
    Except (Fault α) (AxisAngle α) := do
  let axis ← s.axis.read x
  let angle ← s.angle.read x
  pure (AxisAngle.ofAxis axis angle)

/-- The state with axis and angle added, if it has all the positions. -/
def add [Scalar α] (s : AxisAngleSlots) (x : Components α) (rotation : AxisAngle α) :
    Except (Fault α) (Components α) := do
  checkIndex x.size s.angle.index
  let x ← s.axis.add x rotation.axis
  s.angle.add x rotation.angle

end AxisAngleSlots
end EnergyStep
