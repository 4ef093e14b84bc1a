import EnergyStep.Decimal.Shortest

/-!
# Decimal styles

How a shortest decimal is written down: where the decimal point goes and when an exponent is used.

* `Style.write`: a binary floating-point number in a given style.
* `plain`: never an exponent and no point in whole numbers, for numbers in running text.
* `marked`: always a point or an exponent, for the fields of a printed record.
-/

namespace EnergyStep.Decimal

/-- The choices of a way to write decimals. -/
structure Style where
  /-- The exponents of the first digit for which no exponent is written. -/
  isPositional : Int → Bool
  /-- A whole number is written with `.0`. -/
  wholeMarked : Bool
  /-- A positive exponent is written with a plus sign. -/
  plusMarked : Bool

/-- Without an exponent, never marked as floating-point: `0`, `0.0000001`, `1000`. -/
def plain : Style := ⟨fun _ => true, false, false⟩

/-- With an exponent below `10⁻⁴` and from `10¹⁶` on: `0.0`, `1e-7`, `1000.0`, `1.5e16`. -/
def marked : Style := ⟨fun e => -4 ≤ e && e < 16, true, false⟩

/-- `d₀d₁…dₖ · 10^(e-k)` without an exponent. -/
def positional (wholeMarked : Bool) (d : Decimal) : List Char :=
  let fraction (cs : List Char) : List Char :=
    if cs.isEmpty then (if wholeMarked then ['.', '0'] else []) else '.' :: cs
  if d.exponent < 0 then
    '0' :: '.' :: (List.replicate (-d.exponent - 1).toNat '0' ++ d.digits)
  else
    let whole := d.exponent.toNat + 1
    d.digits.take whole ++ List.replicate (whole - d.digits.length) '0' ++
      fraction (d.digits.drop whole)

/-- `d₀.d₁…dₖ` followed by an exponent. -/
def scientific (plusMarked : Bool) (d : Decimal) : List Char :=
  let mantissa := match d.digits with
    | c :: c' :: cs => c :: '.' :: c' :: cs
    | cs => cs
  let sign := if d.exponent < 0 then ['-'] else if plusMarked then ['+'] else []
  mantissa ++ 'e' :: sign ++ Nat.toDigits 10 d.exponent.natAbs

/-- The text of a positive decimal. -/
def Style.writeDecimal (n : Style) (d : Decimal) : List Char :=
  if n.isPositional d.exponent then positional n.wholeMarked d else scientific n.plusMarked d

/-- The shortest text of a number that reads back as it. -/
def Style.write (n : Style) (x : Float) : String :=
  if x.isNaN then "NaN"
  else if x.isInf then (if x < 0.0 then "-inf" else "inf")
  else
    let b := Binary64.decode x
    let body :=
      if b.significand = 0 then (if n.wholeMarked then ['0', '.', '0'] else ['0'])
      else n.writeDecimal (shortest b.significand b.exponent)
    String.ofList (if b.negative then '-' :: body else body)

end EnergyStep.Decimal
