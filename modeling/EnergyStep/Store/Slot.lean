import EnergyStep.Store.Access
import EnergyStep.Linear.Space

/-!
# Slots

Where a quantity lives in a state: nothing but positions. Slots do not know whether other quantities
use the same positions; whoever hands them out does.

* `Slot`, `Slots n`, `SlotList`: one component, a fixed number of them, any number of them.
* `Placed`: the positions of a quantity in order, and from them the number of components that a
  state needs, which is a machine word.
-/

namespace EnergyStep

/-- The number of components a state needs to have the given positions: one more than the last of them, as a
machine word. After the last word comes zero. -/
def requiredDimension (indices : List Nat) : Nat :=
  indices.max?.elim 0 fun last => (last + 1) % UInt64.size

/-- A quantity that lives at certain positions of a state. -/
class Placed (β : Type) where
  /-- The positions, in the order of the components. -/
  indices : β → List Nat
  /-- The positions of its parts, if it is made of parts that say for themselves what they require. -/
  blocks : β → List (List Nat) := fun b => [indices b]
  flatten_blocks (b : β) : (blocks b).flatten = indices b := by simp

namespace Placed

/-- The number of components a state needs to hold the quantity: the most that one of its parts requires. -/
def requiredDimension {β : Type} [Placed β] (b : β) : Nat :=
  ((blocks b).map EnergyStep.requiredDimension).max?.getD 0

/-- States with this number of components hold the quantity. -/
def fits {β : Type} [Placed β] (b : β) (dimension : Nat) : Bool := requiredDimension b ≤ dimension

end Placed

variable {α : Type} [Scalar α]

/-- The position of a single number. -/
structure Slot where
  index : Nat
deriving DecidableEq, Repr

instance : Placed Slot where
  indices s := [s.index]

namespace Slot

/-- Slots one by one have the positions of all of them. -/
theorem flatten_indices (slots : List Slot) :
    (slots.map Placed.indices).flatten = slots.map Slot.index := by
  induction slots with
  | nil => rfl
  | cons s slots ih => exact congrArg (s.index :: ·) ih

def read (s : Slot) (x : Components α) : Except (Fault α) α := x.fetch s.index

/-- The state with the amount added. -/
def add (s : Slot) (x : Components α) (amount : α) :
    Except (Fault α) (Components α) :=
  x.deposit [(s.index, amount)]

/-- The number in an earlier and in a later state. -/
def readPair (s : Slot) (earlier later : Components α) :
    Except (Fault α) (α × α) := do
  let a ← s.read earlier
  let b ← s.read later
  pure (a, b)

end Slot

/-- The positions of a vector with `n` components. -/
structure Slots (n : Nat) where
  positions : Vector Nat n
deriving DecidableEq, Repr

instance {n : Nat} : Placed (Slots n) where
  indices s := s.positions.toList

namespace Slots

variable {n : Nat}

def consecutive (start : Nat) : Slots n := ⟨Vector.ofFn fun i => start + i.val⟩

/-- Positions from a list of the right length. -/
def ofList (indices : List Nat) : Except (Fault α) (Slots n) :=
  if h : indices.length = n then .ok ⟨⟨indices.toArray, by simpa using h⟩⟩
  else .error (.dimension .vectorIndices n indices.length)

/-- The positions of the components one by one. -/
def components (s : Slots n) : Vector Slot n := s.positions.map Slot.mk

def component? (s : Slots n) (axis : Nat) : Option Slot := s.components[axis]?

def read (s : Slots n) (x : Components α) : Except (Fault α) (Vector α n) := do
  checkIndices x.size s.positions.toList
  pure (s.positions.map x.component)

/-- The state with the vector added. -/
def add (s : Slots n) (x : Components α) (v : Vector α n) :
    Except (Fault α) (Components α) :=
  x.deposit (s.positions.toList.zip v.toList)

end Slots

/-- The positions of a vector of any length. -/
structure SlotList where
  positions : List Nat
deriving DecidableEq, Repr

instance : Placed SlotList where
  indices := SlotList.positions

namespace SlotList

def consecutive (start length : Nat) : SlotList := ⟨List.range' start length⟩

def length (s : SlotList) : Nat := s.positions.length

def isEmpty (s : SlotList) : Bool := s.positions.isEmpty

def read (s : SlotList) (x : Components α) : Except (Fault α) (Components α) := do
  pure (← x.fetchAll s.positions).toArray

/-- The state with the vector added, if that has as many components as there are positions. -/
def add (s : SlotList) (x v : Components α) :
    Except (Fault α) (Components α) := do
  checkDimension .mappedVector s.length v.size
  x.deposit (s.positions.zip v.toList)

end SlotList
end EnergyStep
