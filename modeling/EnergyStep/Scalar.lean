/-!
# Scalars

The arithmetic that laws, searches and minimizers are written over. An exact ordered field with a
square root is a scalar, and so are the binary floating-point numbers, which do not satisfy the
field laws and have an undefined number that compares with nothing.

* `Scalar`: the operations.
* `same`, `larger`, `smaller`: comparisons that say what they do with an undefined number.
* `Angular`: a scalar with the circular functions, for rotations.
-/

namespace EnergyStep

/-- The operations on numbers that laws, searches and minimizers use. -/
class Scalar (α : Type) extends Zero α, One α, Add α, Sub α, Mul α, Div α, Neg α, NatCast α,
    OfScientific α, LT α, LE α where
  decideLT : DecidableLT α
  decideLE : DecidableLE α
  abs : α → α
  sqrt : α → α
  /-- The magnitude of the first number with the sign of the second. -/
  copySign : α → α → α
  /-- Neither infinite nor undefined. -/
  isFinite : α → Bool
  /-- The least natural number that is not below, up to the largest count the carrier has. -/
  ceilNat : α → Nat

namespace Scalar

variable {α : Type} [Scalar α]

instance : DecidableLT α := decideLT

instance : DecidableLE α := decideLE

/-- Equal as numbers: the zeros of both signs are the same, an undefined number is not itself. -/
def same (a b : α) : Bool := a ≤ b && b ≤ a

/-- The larger number, the first if neither is; an undefined operand gives way to the other. -/
def larger (a b : α) : α := if a < b then b else if a ≤ a then a else b

/-- The smaller number, the first if neither is; an undefined operand gives way to the other. -/
def smaller (a b : α) : α := if b < a then b else if a ≤ a then a else b

def sq (a : α) : α := a * a

/-- The spacing of binary floating-point numbers just above one, `2⁻⁵²`. -/
def epsilon : α := 2.220446049250313080847263336181640625e-16

/-- Positive, and neither infinite nor undefined. -/
def isPositive (a : α) : Bool := isFinite a && 0 < a

end Scalar

/-- A scalar with the circular functions. -/
class Angular (α : Type) extends Scalar α where
  sin : α → α
  cos : α → α
  /-- The angle of the point `(x, y)`, given `y` first. -/
  atan2 : α → α → α
  /-- A half turn. -/
  pi : α
  /-- The remainder of a division whose quotient is cut toward zero. -/
  remainder : α → α → α

namespace Angular

variable {α : Type} [Angular α]

/-- A full turn. -/
def tau : α := 2.0 * pi

/-- The angle less whole turns, in `(-π, π]`. -/
def wrap (angle : α) : α :=
  let r := remainder (angle + pi) tau
  let wrapped := (if r < 0 then r + Scalar.abs tau else r) - pi
  if wrapped ≤ -pi then pi else wrapped

end Angular
end EnergyStep
