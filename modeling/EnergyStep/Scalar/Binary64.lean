import EnergyStep.Scalar

/-!
# Binary floating-point scalars

The scalar instance of `Float`: IEEE 754 binary64, rounded to nearest after every operation. What
the primitive operations do not offer is read off the bits.

* `Binary64.decode`: a finite number as `± m · 2^q`.
* `Binary64.remainder`: the exact remainder of a division cut toward zero.
-/

namespace EnergyStep.Binary64

/-- A finite number `m · 2^q` or `-(m · 2^q)`. -/
structure Decoded where
  negative : Bool
  significand : Nat
  exponent : Int

/-- The fields of a number that is neither infinite nor undefined. -/
def decode (x : Float) : Decoded :=
  let bits := x.toBits
  let negative := bits >>> 63 == 1
  let fraction := (bits &&& 0x000fffffffffffff).toNat
  let biased := (bits >>> 52 &&& 0x7ff).toNat
  if biased = 0 then ⟨negative, fraction, -1074⟩
  else ⟨negative, fraction + 0x0010000000000000, (biased : Int) - 1075⟩

/-- The sign is minus. The undefined result of an arithmetic operation carries a minus sign. -/
def isNegative (x : Float) : Bool := x.isNaN || x.toBits >>> 63 == 1

/-- The magnitude of `x` with the sign of `s`. -/
def copySign (x s : Float) : Float := if isNegative s then -x.abs else x.abs

/-- The remainder of `x / y` when the quotient is cut toward zero, with the sign of `x`. It is a
multiple of the smaller unit and below both operands, so it needs no rounding. -/
def remainder (x y : Float) : Float :=
  if x.isNaN || y.isNaN || x.isInf || y == 0.0 then 0.0 / 0.0
  else if y.isInf then x
  else
    let a := decode x
    let b := decode y
    let unit := min a.exponent b.exponent
    let r := (a.significand <<< (a.exponent - unit).toNat) %
      (b.significand <<< (b.exponent - unit).toNat)
    let magnitude := (Float.ofNat r).scaleB unit
    if a.negative then -magnitude else magnitude

instance : Scalar Float where
  natCast := Float.ofNat
  decideLT := inferInstance
  decideLE := inferInstance
  abs := Float.abs
  sqrt := Float.sqrt
  copySign := copySign
  isFinite := Float.isFinite
  ceilNat x := x.ceil.toUInt64.toNat

instance : Angular Float where
  sin := Float.sin
  cos := Float.cos
  atan2 := Float.atan2
  pi := 3.141592653589793
  remainder := remainder

end EnergyStep.Binary64
