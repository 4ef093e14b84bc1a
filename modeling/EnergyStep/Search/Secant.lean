import EnergyStep.Search.LineMinimum

/-!
# Minimizing inside a bracket by values and slopes

Brent's search with slopes. The next place is where the slope would vanish if it were linear between
the best and an earlier sample, if that place is inside the interval, downhill, and nearer than half
the step before last; otherwise the downhill part of the interval is halved.

* `Secant.propose`: the next step.
* `Secant.absorb`: the state after value and slope at the next place are known.
* `Secant.minimize`: the search. It also ends when even a minimal step leads uphill.
-/

namespace EnergyStep

variable {m : Type → Type} {α : Type} [Scalar α] [Monad m] [MonadExceptOf (Fault α) m]

/-- A place on a line with the value and the slope there. -/
structure Tangent (α : Type) extends Sample α where
  slope : α

/-- Value and slope at a finite place, if they are finite. -/
def probeSlope (f : α → m (α × α)) (x : α) : m (Tangent α) := do
  unless Scalar.isFinite x do
    throw (Fault.condition (.leftFiniteRange x))
  let (value, slope) ← f x
  unless Scalar.isFinite value && Scalar.isFinite slope do
    throw (Fault.condition (.slopeNotFinite value slope x))
  pure ⟨⟨x, value⟩, slope⟩

/-- The state of the search: the interval, the three best samples and the last two steps. -/
structure Secant (α : Type) where
  lower : α
  upper : α
  /-- The sample with the least value. -/
  best : Tangent α
  /-- The second best. -/
  second : Tangent α
  /-- The second best before that. -/
  third : Tangent α
  /-- The step before last. -/
  before : α
  last : α

namespace Secant

/-- The step that the search is about to take. -/
structure Step (α : Type) where
  /-- Becomes the step before last. -/
  before : α
  size : α

/-- Halves the downhill part of the interval. -/
def halvingStep (s : Secant α) : Step α :=
  let reach := if s.best.slope ≥ 0 then s.lower - s.best.x else s.upper - s.best.x
  ⟨reach, 0.5 * reach⟩

/-- The way from the best place to where the slope vanishes on the secant through an earlier sample;
twice the interval, which is never accepted, if the slopes are equal. -/
def offset (s : Secant α) (t : Tangent α) : α :=
  if Scalar.same t.slope s.best.slope then 2.0 * (s.upper - s.lower)
  else (t.x - s.best.x) * s.best.slope / (s.best.slope - t.slope)

/-- The step stays inside the interval and goes downhill. -/
def isAcceptable (s : Secant α) (d : α) : Bool :=
  let u := s.best.x + d
  (s.lower - u) * (u - s.upper) > 0 && s.best.slope * d ≤ 0

/-- The acceptable one of the two secant steps, the shorter of two. -/
def candidate? (s : Secant α) : Option α :=
  let d₁ := s.offset s.second
  let d₂ := s.offset s.third
  match s.isAcceptable d₁, s.isAcceptable d₂ with
  | true, true => some (if Scalar.abs d₁ < Scalar.abs d₂ then d₁ else d₂)
  | true, false => some d₁
  | false, true => some d₂
  | false, false => none

/-- The next step: the secants are tried once the step before last was more than minimal. -/
def propose (tolerance : α) (s : Secant α) : Step α :=
  let x := s.best.x
  let least := minimalStep tolerance x
  if Scalar.abs s.before > least then
    match s.candidate? with
    | none => s.halvingStep
    | some d =>
      if Scalar.abs d ≤ Scalar.abs (0.5 * s.before) then
        let u := x + d
        if u - s.lower < 2.0 * least ∨ s.upper - u < 2.0 * least then
          ⟨s.last, Scalar.copySign least (midpoint s.lower s.upper - x)⟩
        else ⟨s.last, d⟩
      else s.halvingStep
  else s.halvingStep

/-- The step is too short to be taken as it is. -/
def isMinimal (tolerance : α) (s : Secant α) (step : Step α) : Bool :=
  Scalar.abs step.size < minimalStep tolerance s.best.x

/-- The next place, at least a minimal step away from the best one. -/
def target (tolerance : α) (s : Secant α) (step : Step α) : α :=
  if s.isMinimal tolerance step then
    s.best.x + Scalar.copySign (minimalStep tolerance s.best.x) step.size
  else s.best.x + step.size

/-- Cuts the interval at the best place or at the new one, and ranks the new sample. -/
def absorb (s : Secant α) (step : Step α) (u : Tangent α) : Secant α :=
  let s := { s with before := step.before, last := step.size }
  if u.value ≤ s.best.value then
    let s := if u.x ≥ s.best.x then { s with lower := s.best.x } else { s with upper := s.best.x }
    { s with best := u, second := s.best, third := s.second }
  else
    let s := if u.x < s.best.x then { s with lower := u.x } else { s with upper := u.x }
    if u.value ≤ s.second.value ∨ Scalar.same s.second.x s.best.x then
      { s with second := u, third := s.second }
    else if u.value < s.third.value ∨ Scalar.same s.third.x s.best.x ∨
        Scalar.same s.third.x s.second.x then
      { s with third := u }
    else s

def result (s : Secant α) (iterations : Nat) : LineMinimum α :=
  ⟨s.best.x, s.best.value, some s.best.slope, iterations⟩

/-- Rounds until the interval is settled around the best place, or a minimal step leads uphill. -/
def rounds (f : α → m (α × α)) (tolerance : α) :
    (left done : Nat) → Secant α → m (LineMinimum α)
  | 0, _, _ => throw (Fault.condition (.secantSearch searchRounds))
  | left + 1, done, s => do
    if isSettled tolerance s.lower s.upper s.best.x then
      pure (s.result done)
    else
      let step := s.propose tolerance
      let u ← probeSlope f (s.target tolerance step)
      if s.isMinimal tolerance step && u.value > s.best.value then
        pure (s.result (done + 1))
      else
        rounds f tolerance left (done + 1) (s.absorb step u)

/-- The minimum of `f` in the bracket, to the given relative precision. -/
def minimize (f : α → m (α × α)) (t : Bracket α) (tolerance : α) :
    m (LineMinimum α) := do
  liftExcept (checkSearch t tolerance)
  let b ← probeSlope f t.b.x
  rounds f tolerance searchRounds 0 ⟨t.lower, t.upper, b, b, b, 0, 0⟩

end Secant
end EnergyStep
