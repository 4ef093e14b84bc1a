import EnergyStep.Scalar.Binary64

/-!
# Shortest decimals

The decimal with the fewest digits that reads back as a given binary number, and of those the
nearest to it.

* `Decimal`: the digits `d₀ d₁ … dₖ` and the exponent of `d₀.d₁…dₖ · 10^e`.
* `Decimal.shortest`: for `m · 2^q`. The reals that round to it form an interval that holds its
  ends exactly if `m` is even. If a decimal of `k` digits lies in that interval, so does one of the
  two neighbours of `m · 2^q` on the grid of such decimals, so only these are tried.
-/

namespace EnergyStep

/-- The decimal `d₀.d₁…dₖ · 10^exponent`. -/
structure Decimal where
  digits : List Char
  exponent : Int
deriving DecidableEq, Repr

namespace Decimal

/-- A positive binary number and the interval of reals that round to it, all in one unit: the
number is `value` units, the interval goes from `low` to `high`. -/
structure Rounding where
  low : Nat
  value : Nat
  high : Nat
  /-- The ends of the interval round to the number too. -/
  closed : Bool
  /-- The unit is `numerator / denominator`. -/
  numerator : Nat
  denominator : Nat

/-- The interval of `m · 2^q`, in quarters of its last place. Below a power of two the numbers are
twice as dense. -/
def Rounding.ofBinary (m : Nat) (q : Int) : Rounding :=
  let dense := m == 0x0010000000000000 && q > -1074
  { low := 4 * m - (if dense then 1 else 2)
    value := 4 * m
    high := 4 * m + 2
    closed := m % 2 == 0
    numerator := 1 <<< q.toNat
    denominator := 4 <<< (-q).toNat }

/-- The number `n / d` is in the interval. -/
def Rounding.holds (r : Rounding) (n d : Nat) : Bool :=
  let low := r.low * r.numerator * d
  let mid := n * r.denominator
  let high := r.high * r.numerator * d
  if r.closed then low ≤ mid && mid ≤ high else low < mid && mid < high

/-- A power of ten, one for a negative exponent. -/
def tenTo (e : Int) : Nat := Nat.pow 10 e.toNat

/-- The exponent of the first decimal digit, found from an estimate that is never too large and
at most `fuel` too small. -/
def Rounding.leading (r : Rounding) : Nat → Int → Int
  | 0, e => e
  | fuel + 1, e =>
    if r.value * r.numerator * tenTo (-(e + 1)) ≥ tenTo (e + 1) * r.denominator then
      r.leading fuel (e + 1)
    else e

/-- The neighbours of the number on the grid of decimals with `k` digits that start at
`10^e`, if they read back: the nearer one of two, the upper one of two equally near. -/
def Rounding.onGrid (r : Rounding) (e : Int) (k : Nat) : Option Nat :=
  let step : Int := e - (k - 1)
  let up := tenTo step
  let down := tenTo (-step)
  let n := r.value * r.numerator * down
  let d := r.denominator * up
  let below := n / d
  let above := below + 1
  match r.holds (below * up) down, r.holds (above * up) down with
  | true, true => if 2 * (n % d) < d then some below else some above
  | true, false => some below
  | false, true => some above
  | false, false => none

/-- The first grid with a decimal that reads back. Seventeen digits are always enough. -/
def Rounding.search (r : Rounding) (e : Int) : Nat → Nat → Nat × Nat
  | 0, k => (r.value * r.numerator / r.denominator, k)
  | fuel + 1, k =>
    match r.onGrid e k with
    | some n => (n, k)
    | none => r.search e fuel (k + 1)

/-- The digits of `n` with the zeros at the end cut off. -/
def significant (n : Nat) : List Char :=
  ((Nat.toDigits 10 n).reverse.dropWhile (· == '0')).reverse

/-- The shortest decimal for `m · 2^q`, with `m` positive. -/
def shortest (m : Nat) (q : Int) : Decimal :=
  let r := Rounding.ofBinary m q
  let estimate : Int := (((Nat.log2 m : Int) + q) * 30103).fdiv 100000 - 1
  let e := r.leading 4 estimate
  let (n, k) := r.search e 17 1
  -- A neighbour above can be the next power of ten, with one digit more.
  let carried := (Nat.toDigits 10 n).length - k
  ⟨significant n, e + carried⟩

end Decimal
end EnergyStep
