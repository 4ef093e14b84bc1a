import EnergyStep.Search.Bracketing

/-!
# The minimum of a function on a line

What the searches inside a bracket have in common: their result, their precision and their budget.

* `LineMinimum`: the result.
* `Precision`: how close to a place the search may look again.
* `checkSearch`: the preconditions.
-/

namespace EnergyStep

variable {α : Type} [Scalar α]

/-- The minimum found on a line. -/
structure LineMinimum (α : Type) where
  x : α
  value : α
  /-- The slope at `x`, if the search knows slopes. -/
  slope : Option α
  /-- Rounds that were needed. -/
  iterations : Nat

/-- The budget of rounds of one search. -/
def searchRounds : Nat := 200

/-- The smallest distance at which the search looks again: a fraction of the place, and never zero
so that a minimum at zero can be found. -/
def minimalStep (tolerance x : α) : α := tolerance * Scalar.abs x + 1e-12

def midpoint (lower upper : α) : α := 0.5 * (lower + upper)

/-- No place of the interval is farther than two minimal steps from `x`. -/
def isSettled (tolerance lower upper x : α) : Bool :=
  Scalar.abs (x - midpoint lower upper) ≤
    2.0 * minimalStep tolerance x - 0.5 * (upper - lower)

/-- The tolerance is positive and finite and the samples are a bracket. -/
def checkSearch (t : Bracket α) (tolerance : α) : Except (Fault α) Unit :=
  if !Scalar.isPositive tolerance then .error (.argument (.lineTolerance tolerance))
  else if !t.isValid then .error (.argument (.searchBracket t))
  else .ok ()

end EnergyStep
