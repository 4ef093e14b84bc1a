import EnergyStep.Search.LineMinimum

/-!
# Minimizing inside a bracket by values

Brent's search. The next place is the lowest point of the parabola through the three best samples,
if that point is inside the interval and nearer than half the step before last; otherwise the
farther part of the interval is cut at the golden section. Every round cuts the interval at the best
or at the new place.

* `Parabolic.propose`: the next step.
* `Parabolic.absorb`: the state after the value at the next place is known.
* `Parabolic.minimize`: the search.
-/

namespace EnergyStep

variable {m : Type → Type} {α : Type} [Scalar α] [Monad m] [MonadExceptOf (Fault α) m]

/-- The smaller part of the golden section. -/
def goldenSection : α := 0.381966011250105

/-- The state of the search: the interval, the three best samples and the last two steps. -/
structure Parabolic (α : Type) where
  lower : α
  upper : α
  /-- The sample with the least value. -/
  best : Sample α
  /-- The second best. -/
  second : Sample α
  /-- The second best before that. -/
  third : Sample α
  /-- The step before last. -/
  before : α
  last : α

namespace Parabolic

/-- The step that the search is about to take. -/
structure Step (α : Type) where
  /-- Becomes the step before last. -/
  before : α
  size : α
  /-- Has the sign of the step, also when its size is undefined. -/
  side : α

/-- Three times the best sample, in the interval between the ends of the bracket. -/
def start (t : Bracket α) : Parabolic α := ⟨t.lower, t.upper, t.b, t.b, t.b, 0, 0⟩

/-- The way from the best place to the end of the farther part of the interval. -/
def reach (s : Parabolic α) : α :=
  if s.best.x ≥ midpoint s.lower s.upper then s.lower - s.best.x else s.upper - s.best.x

/-- Cuts the farther part of the interval at the golden section. -/
def sectionStep (s : Parabolic α) : Step α :=
  let size := goldenSection * s.reach
  ⟨s.reach, size, size⟩

/-- Goes to the lowest point of the parabola through the three samples, if that is acceptable. Where
the parabola overflows the size is undefined, and only the side is left. -/
def parabolaStep (tolerance : α) (s : Parabolic α) : Step α :=
  let x := s.best.x
  let r := (x - s.second.x) * (s.best.value - s.third.value)
  let q₀ := (x - s.third.x) * (s.best.value - s.second.value)
  let p₀ := (x - s.third.x) * q₀ - (x - s.second.x) * r
  let q₁ := 2.0 * (q₀ - r)
  let p := if q₁ > 0 then -p₀ else p₀
  let q := Scalar.abs q₁
  if Scalar.abs p ≥ Scalar.abs (0.5 * q * s.before) ∨ p ≤ q * (s.lower - x) ∨ p ≥ q * (s.upper - x)
  then s.sectionStep
  else
    let size := p / q
    let least := minimalStep tolerance x
    let u := x + size
    if u - s.lower < 2.0 * least ∨ s.upper - u < 2.0 * least then
      let toMiddle := Scalar.copySign least (midpoint s.lower s.upper - x)
      ⟨s.last, toMiddle, toMiddle⟩
    else
      ⟨s.last, size, if size ≤ size then size else if q₁ > 0 ∨ p ≤ p then 1 else -1⟩

/-- The next step: the parabola is tried once the step before last was more than minimal. -/
def propose (tolerance : α) (s : Parabolic α) : Step α :=
  if Scalar.abs s.before > minimalStep tolerance s.best.x then s.parabolaStep tolerance
  else s.sectionStep

/-- The next place, at least a minimal step away from the best one. -/
def target (tolerance : α) (s : Parabolic α) (step : Step α) : α :=
  let least := minimalStep tolerance s.best.x
  if Scalar.abs step.size ≥ least then s.best.x + step.size
  else s.best.x + Scalar.copySign least step.side

/-- Cuts the interval at the best place or at the new one, and ranks the new sample. -/
def absorb (s : Parabolic α) (step : Step α) (u : Sample α) : Parabolic α :=
  let s := { s with before := step.before, last := step.size }
  if u.value ≤ s.best.value then
    let s := if u.x ≥ s.best.x then { s with lower := s.best.x } else { s with upper := s.best.x }
    { s with best := u, second := s.best, third := s.second }
  else
    let s := if u.x < s.best.x then { s with lower := u.x } else { s with upper := u.x }
    if u.value ≤ s.second.value ∨ Scalar.same s.second.x s.best.x then
      { s with second := u, third := s.second }
    else if u.value ≤ s.third.value ∨ Scalar.same s.third.x s.best.x ∨
        Scalar.same s.third.x s.second.x then
      { s with third := u }
    else s

/-- Rounds until the interval is settled around the best place. -/
def rounds (f : α → m α) (tolerance : α) :
    (left done : Nat) → Parabolic α → m (LineMinimum α)
  | 0, _, _ => throw (Fault.condition (.parabolicSearch searchRounds))
  | left + 1, done, s => do
    if isSettled tolerance s.lower s.upper s.best.x then
      pure ⟨s.best.x, s.best.value, none, done⟩
    else
      let step := s.propose tolerance
      let u ← probe f (s.target tolerance step)
      rounds f tolerance left (done + 1) (s.absorb step u)

/-- The minimum of `f` in the bracket, to the given relative precision. -/
def minimize (f : α → m α) (t : Bracket α) (tolerance : α) : m (LineMinimum α) := do
  liftExcept (checkSearch t tolerance)
  rounds f tolerance searchRounds 0 (start t)

end Parabolic
end EnergyStep
