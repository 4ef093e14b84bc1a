import EnergyStep.Scalar

/-!
# Samples of a function on a line

A search along a line keeps a few places with the values found there.

* `Sample`: a place and the value there.
* `Bracket`: three samples; if `Bracket.isValid`, the middle one is no higher than the ends, so a
  continuous function has a local minimum between them.
-/

namespace EnergyStep

variable {α : Type} [Scalar α]

/-- A place on a line and the value of a function there. -/
structure Sample (α : Type) where
  x : α
  value : α
deriving DecidableEq

/-- Three samples that are to enclose a minimum. -/
structure Bracket (α : Type) where
  a : Sample α
  b : Sample α
  c : Sample α
deriving DecidableEq

namespace Bracket

/-- The inner place is strictly between the ends, in either order, and its value is no higher. -/
def isValid (t : Bracket α) : Bool :=
  ((t.a.x < t.b.x && t.b.x < t.c.x) || (t.c.x < t.b.x && t.b.x < t.a.x)) &&
    t.b.value ≤ t.a.value && t.b.value ≤ t.c.value

def lower (t : Bracket α) : α := Scalar.smaller t.a.x t.c.x

def upper (t : Bracket α) : α := Scalar.larger t.a.x t.c.x

def width (t : Bracket α) : α := t.upper - t.lower

/-- The place is between the ends or on one of them. -/
def contains (t : Bracket α) (x : α) : Bool := t.lower ≤ x && x ≤ t.upper

end Bracket
end EnergyStep
