import EnergyStep.Fault
import EnergyStep.Linear.Dot

/-!
# Reading and adding to a state

A state is a flat vector of numbers. It is read component by component, and amounts are added to
it, never overwritten, so that several contributions to one component meet.

* `Components.fetch`: one component.
* `Components.deposit`: adds amounts to several components, or to none if one of them is missing.
-/

namespace EnergyStep

variable {α : Type}

/-- The component exists. -/
def checkIndex (dimension i : Nat) : Except (Fault α) Unit :=
  if i < dimension then .ok () else .error (.index i dimension)

/-- All components exist; the first that does not is reported. -/
def checkIndices (dimension : Nat) (indices : List Nat) : Except (Fault α) Unit :=
  indices.forM (checkIndex dimension)

namespace Components

variable [Scalar α]

/-- The component at position `i`, zero beyond the end. -/
def component (x : Components α) (i : Nat) : α := x.getD i 0

/-- The component at position `i`, if there is one. -/
def fetch (x : Components α) (i : Nat) : Except (Fault α) α := do
  checkIndex x.size i
  pure (x.component i)

/-- The components at the given positions, if there are all of them. -/
def fetchAll (x : Components α) (indices : List Nat) : Except (Fault α) (List α) := do
  checkIndices x.size indices
  pure (indices.map x.component)

/-- The state with the amount added at position `i`, if there is one. -/
def bump (x : Components α) (i : Nat) (amount : α) : Components α :=
  x.modify i fun old => old + amount

/-- The state with all amounts added in order, positions that it lacks left out. -/
def bumpAll (x : Components α) (entries : List (Nat × α)) : Components α :=
  entries.foldl (fun x entry => x.bump entry.1 entry.2) x

/-- The state with all amounts added in order, if it has all the positions. -/
def deposit (x : Components α) (entries : List (Nat × α)) :
    Except (Fault α) (Components α) := do
  checkIndices x.size (entries.map Prod.fst)
  pure (x.bumpAll entries)

end Components
end EnergyStep
