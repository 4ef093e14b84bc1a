import EnergyStep.Solver

/-!
# Stepping through time

* `Progress.cover`: covers an interval with one step, or with two halves if the step makes no
  progress, and so on down to a smallest step.
* `Stepper`: a solver with a clock and the current state.
* `Stepper.step`, `Stepper.run`, `Stepper.runFor`: one step, a number of steps, a span of time. A
  step that fails leaves the stepper as it was before that step.
-/

namespace EnergyStep

variable {m : Type → Type} {α : Type} [Scalar α]

/-- What has been accepted while covering an interval. -/
structure Progress (α : Type) where
  /-- The state at the end of the part that is covered. -/
  state : Components α
  /-- Accepted solves. -/
  substeps : Nat
  /-- The sum of their residual energies. -/
  residual : α
  /-- The sum of their iterations. -/
  iterations : Nat
deriving DecidableEq

namespace Progress

/-- Nothing is covered yet. -/
def start (state : Components α) : Progress α := ⟨state, 0, 0, 0⟩

/-- One more accepted solve. -/
def record (p : Progress α) (o : Outcome α) : Progress α :=
  ⟨o.state, p.substeps + 1, p.residual + o.residual, p.iterations + o.iterations⟩

/-- Covers the next `dt`. If no progress is possible it covers the first half and then the second,
each of which may be halved once less. -/
def cover [Monad m] [MonadExceptOf (Fault α) m] (solve : Components α → α → m (Outcome α)) :
    (halvings : Nat) → (dt : α) → Progress α → m (Progress α)
  | 0, dt, p => do pure (p.record (← solve p.state dt))
  | halvings + 1, dt, p => do
    match ← observing (solve p.state dt) with
    | .ok outcome => pure (p.record outcome)
    | .error fault =>
      if fault.isPoorlyConditioned then
        let p ← cover solve halvings (0.5 * dt) p
        cover solve halvings (0.5 * dt) p
      else throw fault

end Progress

/-- A solver with a clock and the current state. -/
structure Stepper (α : Type) where
  solver : Solver α
  plan : Plan α
  state : Components α
  time : α
  /-- Completed steps. -/
  steps : Nat
deriving DecidableEq

/-- What one step did. -/
structure StepReport (α : Type) where
  state : Components α
  /-- The time at the end of the step. -/
  time : α
  /-- Solves that were needed; one unless the step was halved. -/
  substeps : Nat
  /-- The residual energies of the solves, summed. -/
  residual : α
  /-- The iterations of the solves, summed. -/
  iterations : Nat
deriving DecidableEq

namespace Stepper

/-- A stepper at time zero. Plan and solver have the same settings. -/
def make (solver : Solver α) (initial : Components α) (plan : Plan α) :
    Except (Fault α) (Stepper α) := do
  plan.check
  unless plan.settings.agrees solver.settings do
    throw (.config (.settingsDiffer plan.settings solver.settings))
  checkDimension .initialState solver.dimension initial.size
  pure ⟨solver, plan, initial, 0, 0⟩

/-- The stepper with another state and the same clock. -/
def reset (s : Stepper α) (state : Components α) : Except (Fault α) (Stepper α) := do
  checkDimension .stepperState s.solver.dimension state.size
  pure { s with state := state }

/-- One step. -/
def step (s : Stepper α) : Except (Fault α) (StepReport α × Stepper α) := do
  let dt := s.plan.timestep
  let p ← Progress.cover s.solver.solve s.plan.maxHalvings dt (Progress.start s.state)
  let time := s.time + dt
  pure (⟨p.state, time, p.substeps, p.residual, p.iterations⟩,
    { s with state := p.state, time := time, steps := s.steps + 1 })

/-- Takes steps while the clock allows it, and collects the states after them. The stepper is the
one after the last step that succeeded, also if a later one failed. -/
def runWhile (go : α → Bool) :
    (left : Nat) → Stepper α → Except (Fault α) (List (Components α)) × Stepper α
  | 0, s => (.ok [], s)
  | left + 1, s =>
    if go s.time then
      match s.step with
      | .error fault => (.error fault, s)
      | .ok (report, s) =>
        let (rest, s) := runWhile go left s
        (rest.map (report.state :: ·), s)
    else (.ok [], s)

/-- The given number of steps: the state after each, or the fault that ended them. Memory is not
modelled: room for the states is reserved before the first step, and from `2 ^ 58` states on there is
none. -/
def run (s : Stepper α) (steps : Nat) :
    Except (Fault α) (List (Components α)) × Stepper α :=
  s.runWhile (fun _ => true) steps

/-- Steps until the span of time is covered. Memory is not modelled here either, and the estimate is the
number of states that room is reserved for. -/
def runFor (s : Stepper α) (duration : α) :
    Except (Fault α) (List (Components α)) × Stepper α :=
  if !Scalar.isFinite duration || duration < 0 then
    (.error (.argument (.runDuration duration)), s)
  else if duration ≤ 0 then (.ok [], s)
  else
    let target := s.time + duration
    let estimate := max (Scalar.ceilNat (duration / s.plan.timestep)) 1
    s.runWhile (fun time => !(time ≥ target)) estimate

end Stepper
end EnergyStep
