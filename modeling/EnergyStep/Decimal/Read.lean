/-!
# Reading decimals

* `Decimal.read`: the binary floating-point number nearest to a decimal text such as `-12.5e-3`. The
  sign of a zero is kept.
-/

namespace EnergyStep.Decimal

/-- The number that a row of digits stands for. -/
def ofDigits (cs : List Char) : Nat := cs.foldl (fun n c => 10 * n + (c.toNat - '0'.toNat)) 0

/-- The number after an optional sign. -/
def ofSigned : List Char → Int
  | '-' :: cs => -(ofDigits cs : Int)
  | '+' :: cs => ofDigits cs
  | cs => ofDigits cs

/-- A character that separates the exponent. -/
def isExponentMark (c : Char) : Bool := c == 'e' || c == 'E'

/-- The number nearest to a decimal text without a sign. -/
def readMagnitude (cs : List Char) : Float :=
  let mantissa := cs.takeWhile (!isExponentMark ·)
  let power := ofSigned ((cs.dropWhile (!isExponentMark ·)).drop 1)
  let whole := mantissa.takeWhile (· != '.')
  let fraction := (mantissa.dropWhile (· != '.')).drop 1
  let exponent := power - fraction.length
  Float.ofScientific (ofDigits (whole ++ fraction)) (exponent < 0) exponent.natAbs

/-- The number nearest to a decimal text. -/
def read (text : String) : Float :=
  match text.toList with
  | '-' :: cs => -readMagnitude cs
  | cs => readMagnitude cs

end EnergyStep.Decimal
