import EnergyStep.Store.Slot

/-!
# Contributions of a law

A law turns its violation `δ` by a candidate state into an energy. What it gives to the whole is
that energy and, for the gradient, amounts to be added at the positions it reads.

* `squaredError`: the energy `E · (δ / scale)²` and its derivative by `δ`.
* `Contribution`: energy and additions.
* `deliver`: puts the additions into a gradient.
-/

namespace EnergyStep

variable {α : Type} [Scalar α]

/-- An energy and its derivative by the violation. -/
structure Penalty (α : Type) where
  energy : α
  slope : α

/-- The energy `E · (δ / scale)²` and its derivative by `δ`. -/
def squaredError (energyScale scale violation : α) : Penalty α :=
  let weight := energyScale / (scale * scale)
  ⟨weight * violation * violation, 2.0 * weight * violation⟩

/-- Amounts that are added to a gradient together or not at all. -/
abbrev Addition (α : Type) := List (Nat × α)

/-- An amount at one position. -/
def Slot.addition (s : Slot) (amount : α) : Addition α := [(s.index, amount)]

/-- What a law gives to the total energy and to its gradient. -/
structure Contribution (α : Type) where
  energy : α
  additions : List (Addition α)

/-- Makes the additions in order, up to the first that the gradient has no place for. -/
def deliver : List (Addition α) → Components α →
    Except (Fault α) Unit × Components α
  | [], gradient => (.ok (), gradient)
  | a :: rest, gradient =>
    match gradient.deposit a with
    | .ok gradient => deliver rest gradient
    | .error fault => (.error fault, gradient)

end EnergyStep
