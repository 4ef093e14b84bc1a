import EnergyStep.Fault

/-!
# Bracketing a minimum

From two seeds, walk downhill with growing steps until the function turns up again. Each step first
tries the lowest point of the parabola through the last three samples, but goes no farther than a
fixed multiple of the last step.

* `Bracket.ofSamples`: three given samples, refused unless they are a bracket.
* `probe`: one evaluation; places and values outside the finite range end the search.
* `Bracket.expand`: one step, which either closes the bracket or moves all three samples on.
* `Bracket.find`: the search with a budget of steps.
-/

namespace EnergyStep

variable {m : Type → Type} {α : Type} [Scalar α] [Monad m] [MonadExceptOf (Fault α) m]

/-- The growth of successive steps. -/
def goldenRatio : α := 1.618033988749895

/-- How many times farther than the last step a parabola may lead. -/
def maxMagnification : α := 100.0

/-- Keeps the denominator of the parabola away from zero. -/
def parabolaGuard : α := 1e-20

/-- The usual budget of steps. -/
def defaultExpansions : Nat := 100

/-- The value at a finite place, if it is finite. -/
def probe (f : α → m α) (x : α) : m (Sample α) := do
  unless Scalar.isFinite x do
    throw (Fault.condition (.leftFiniteRange x))
  let value ← f x
  unless Scalar.isFinite value do
    throw (Fault.condition (.valueNotFinite value x))
  pure ⟨x, value⟩

namespace Bracket

/-- Three samples as a bracket. -/
def ofSamples (a b c : Sample α) : Except (Fault α) (Bracket α) :=
  let t : Bracket α := ⟨a, b, c⟩
  if t.isValid then .ok t else .error (.argument (.notBracket t))

/-- The place one golden step beyond `b`, seen from `a`. -/
def beyond (a b : α) : α := b + goldenRatio * (b - a)

/-- The place where the parabola through the three samples is lowest. -/
def vertex (t : Bracket α) : α :=
  let r := (t.b.x - t.a.x) * (t.b.value - t.c.value)
  let q := (t.b.x - t.c.x) * (t.b.value - t.a.value)
  let denominator :=
    2.0 * Scalar.copySign (Scalar.larger (Scalar.abs (q - r)) parabolaGuard) (q - r)
  t.b.x - ((t.b.x - t.c.x) * q - (t.b.x - t.a.x) * r) / denominator

/-- The farthest place a parabola may lead to. -/
def limit (t : Bracket α) : α := t.b.x + maxMagnification * (t.c.x - t.b.x)

/-- What one step leads to. -/
inductive Expansion (α : Type)
  /-- The samples enclose a minimum. -/
  | closed (t : Bracket α)
  /-- The samples have moved on. -/
  | moved (t : Bracket α)

/-- One step downhill from samples `a`, `b`, `c` with falling values. -/
def expand (f : α → m α) (t : Bracket α) : m (Expansion α) := do
  let u := t.vertex
  let limit := t.limit
  if (t.b.x - u) * (u - t.c.x) > 0 then
    -- The parabola leads between `b` and `c`.
    let s ← probe f u
    if s.value < t.c.value then pure (.closed ⟨t.b, s, t.c⟩)
    else if s.value > t.b.value then pure (.closed ⟨t.a, t.b, s⟩)
    else pure (.moved ⟨t.b, t.c, ← probe f (beyond t.b.x t.c.x)⟩)
  else if (t.c.x - u) * (u - limit) > 0 then
    -- Between `c` and the limit.
    let s ← probe f u
    if s.value < t.c.value then pure (.moved ⟨t.c, s, ← probe f (beyond t.c.x u)⟩)
    else pure (.moved ⟨t.b, t.c, s⟩)
  else if (u - limit) * (limit - t.c.x) ≥ 0 then
    -- Beyond the limit.
    pure (.moved ⟨t.b, t.c, ← probe f limit⟩)
  else
    pure (.moved ⟨t.b, t.c, ← probe f (beyond t.b.x t.c.x)⟩)

/-- Steps on until the values no longer fall. -/
def close (f : α → m α) (budget : Nat) : Nat → Bracket α → m (Bracket α)
  | 0, t =>
    if t.b.value > t.c.value then throw (Fault.condition (.noBracket budget t.c)) else pure t
  | left + 1, t =>
    if t.b.value > t.c.value then do
      match ← expand f t with
      | .closed t' => pure t'
      | .moved t' => close f budget left t'
    else pure t

/-- The samples at the seeds, downhill in order, and one a golden step farther on. -/
def start (f : α → m α) (x₁ x₂ : α) : m (Bracket α) := do
  let s₁ ← probe f x₁
  let s₂ ← probe f x₂
  let (a, b) := if s₂.value > s₁.value then (s₂, s₁) else (s₁, s₂)
  pure ⟨a, b, ← probe f (beyond a.x b.x)⟩

/-- A bracket of a minimum of `f` downhill from two distinct seeds, found in at most `budget`
steps. -/
def find (f : α → m α) (x₁ x₂ : α) (budget : Nat) : m (Bracket α) := do
  unless Scalar.isFinite x₁ && Scalar.isFinite x₂ do
    throw (Fault.argument (α := α) .seedsNotFinite)
  if Scalar.same x₁ x₂ then
    throw (Fault.argument (α := α) .seedsEqual)
  close f budget budget (← start f x₁ x₂)

end Bracket
end EnergyStep
