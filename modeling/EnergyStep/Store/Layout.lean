import EnergyStep.Store.Rotation

/-!
# Layouts

A layout hands out positions one after the other, so that no two quantities share one.

* `Layout`: how many components are taken; `Layout.scalar` and its kin take the next ones.
* `checkDisjoint`: positions that were chosen by other means.
-/

namespace EnergyStep

/-- The state under construction: its first `dimension` components are taken. -/
structure Layout where
  dimension : Nat
deriving DecidableEq, Repr

/-- A choice of positions in the layout at hand. -/
abbrev Allocation := StateM Layout

namespace Layout

/-- Nothing is taken yet. -/
def empty : Layout := ⟨0⟩

/-- Takes the next `length` components and gives the position of the first. -/
def reserve (length : Nat) : Allocation Nat :=
  modifyGet fun l => (l.dimension, ⟨l.dimension + length⟩)

def scalar : Allocation Slot := do pure ⟨← reserve 1⟩

def vector (n : Nat) : Allocation (Slots n) := do pure (Slots.consecutive (← reserve n))

def list (length : Nat) : Allocation SlotList := do
  pure (SlotList.consecutive (← reserve length) length)

def quat : Allocation QuatSlots := do pure (QuatSlots.consecutive (← reserve 4))

/-- A rotation stored as a quaternion. -/
def rotation : Allocation RotationSlots := do pure ⟨← quat⟩

/-- A rotation stored as an axis and an angle. -/
def axisAngle : Allocation AxisAngleSlots := do pure (AxisAngleSlots.consecutive (← reserve 4))

/-- The state in which every component is zero. -/
def zeroState {α : Type} [Scalar α] (l : Layout) : Components α :=
  Components.zeros l.dimension

end Layout

/-- Takes the positions in order; `taken` are in use already. -/
def occupy {α : Type} (dimension : Nat) : (taken indices : List Nat) → Except (Fault α) Unit
  | _, [] => .ok ()
  | taken, i :: rest => do
    checkIndex dimension i
    if taken.contains i then .error (.config (.sharedIndex i))
    else occupy dimension (i :: taken) rest

/-- All positions exist and none occurs twice; the first that breaks this is reported. -/
def checkDisjoint {α : Type} (sets : List (List Nat)) (dimension : Nat) : Except (Fault α) Unit :=
  occupy dimension [] sets.flatten

end EnergyStep
