import EnergyStep.Scalar

/-!
# Vectors of any length

Componentwise arithmetic on arrays, and the inner product in the one order of additions that fixes
its rounding: eight running sums over blocks of eight products, then the products left over.

* `dot`: the inner product.
* `Lanes.total`: how the eight running sums are put together.
-/

namespace EnergyStep

variable {α : Type} [Scalar α]

/-- A point or a direction with any number of components. -/
abbrev Components (α : Type) := Array α

/-- Eight running sums. -/
structure Lanes (α : Type) where
  s0 : α
  s1 : α
  s2 : α
  s3 : α
  s4 : α
  s5 : α
  s6 : α
  s7 : α

namespace Lanes

/-- Nothing summed yet. -/
def zero : Lanes α := ⟨0, 0, 0, 0, 0, 0, 0, 0⟩

/-- The sum over all lanes, of opposite lanes first. -/
def total (l : Lanes α) : α :=
  0 + (l.s0 + l.s4) + (l.s1 + l.s5) + (l.s2 + l.s6) + (l.s3 + l.s7)

/-- Adds blocks of eight products to the lanes and, after the last whole block, the rest to the
total one by one. -/
def sum : Lanes α → List α → α
  | l, p0 :: p1 :: p2 :: p3 :: p4 :: p5 :: p6 :: p7 :: rest =>
    sum ⟨l.s0 + p0, l.s1 + p1, l.s2 + p2, l.s3 + p3, l.s4 + p4, l.s5 + p5, l.s6 + p6, l.s7 + p7⟩
      rest
  | l, rest => rest.foldl (· + ·) l.total

end Lanes

namespace Components

/-- The inner product, over the shorter of the two lengths. -/
def dot (a b : Components α) : α :=
  Lanes.zero.sum (Array.zipWith (· * ·) a b).toList

def normSq (a : Components α) : α := 0 + a.dot a

def zeros (n : Nat) : Components α := Array.replicate n 0

def neg (a : Components α) : Components α := a.map fun x => -x

def scale (a : Components α) (factor : α) : Components α := a.map fun x => x * factor

def add (a b : Components α) : Components α := Array.zipWith (· + ·) a b

def sub (a b : Components α) : Components α := Array.zipWith (· - ·) a b

/-- The vector with one at position `i` and zeros elsewhere. -/
def unit (n i : Nat) : Components α :=
  Array.ofFn fun k : Fin n => if k.val = i then 1 else 0

/-- The coordinate directions in order. -/
def basis (n : Nat) : List (Components α) := (List.range n).map (unit n)

end Components
end EnergyStep
