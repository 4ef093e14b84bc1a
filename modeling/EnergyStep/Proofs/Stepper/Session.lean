import EnergyStep.Proofs.Recording
import EnergyStep.Proofs.System.Trajectory

/-!
# Sessions with a stepper

A stepper is asked for one step, for a number of steps, for a span of time, or to go on from another
state. Each of these may fail, and the longer ones in the middle. State, clock and counter move
together, with a single step that has succeeded and with nothing else, so after any calls the clock
shows how many of these there were, and a longer call that failed has done what its earlier steps did.

* `Stepper.Call`, `Stepper.perform`: the calls, and how each of them ends.
* `Stepper.completed`, `Stepper.journal`: the single steps that have succeeded in a call, in a session.
* `Stepper.runWhile_ends`: a loop of steps, by induction on those that are left.
* `Stepper.Consistent.perform`, `Stepper.Consistent.after`: what a call keeps, and so a session.
* `Stepper.run_add`: a run in two parts.
* `Stepper.session_consistent`: a stepper after any calls.
-/

namespace EnergyStep
namespace Stepper

variable {α : Type} [Exact α]

/-- What a stepper can be asked for. -/
inductive Call (α : Type)
  | step
  | run (steps : ℕ)
  | runFor (duration : α)
  | reset (state : Components α)

/-- What it answers. -/
inductive Answer (α : Type)
  | report (report : StepReport α)
  | trajectory (states : List (Components α))
  | done

/-- One step of a stepper that is kept in one place. State, clock and counter are written one after
the other, and not before the interval is covered. -/
def stepInPlace : Recording (Stepper α) α (StepReport α) := do
  let s ← get
  let dt := s.plan.timestep
  let p ← liftExcept (Progress.cover s.solver.solve s.plan.maxHalvings dt (Progress.start s.state))
  modify fun s => { s with state := p.state }
  modify fun s => { s with time := s.time + dt }
  modify fun s => { s with steps := s.steps + 1 }
  let s ← get
  pure ⟨s.state, s.time, p.substeps, p.residual, p.iterations⟩

/-- Another state for a stepper that is kept in one place. -/
def resetInPlace (state : Components α) : Recording (Stepper α) α PUnit := do
  let s ← get
  liftExcept (checkDimension (α := α) .stepperState s.solver.dimension state.size)
  modify fun s => { s with state := state }

/-- How a call ends, and the stepper after it. -/
def perform (s : Stepper α) : Call α → Except (Fault α) (Answer α) × Stepper α
  | .step => (stepInPlace.ran s).map (Except.map .report) id
  | .run steps => (s.run steps).map (Except.map .trajectory) id
  | .runFor duration => (s.runFor duration).map (Except.map .trajectory) id
  | .reset state => ((resetInPlace state).ran s).map (Except.map fun _ => .done) id

/-- The stepper after a session. -/
def after (s : Stepper α) : List (Call α) → Stepper α
  | [] => s
  | call :: calls => after (s.perform call).2 calls

/-- The reports on the single steps of a loop that succeed. -/
def completedWhile (go : α → Bool) : (left : ℕ) → Stepper α → List (StepReport α)
  | 0, _ => []
  | left + 1, s =>
    if go s.time then
      match s.step with
      | .error _ => []
      | .ok (report, s) => report :: completedWhile go left s
    else []

/-- The reports on the single steps of a call that succeed. -/
def completed (s : Stepper α) : Call α → List (StepReport α)
  | .step => completedWhile (fun _ => true) 1 s
  | .run steps => completedWhile (fun _ => true) steps s
  | .runFor duration =>
    if duration ≤ 0 then [] else
      completedWhile (fun time => !(time ≥ s.time + duration))
        (max (Scalar.ceilNat (duration / s.plan.timestep)) 1) s
  | .reset _ => []

/-- The reports on the single steps of a session that succeed. -/
def journal (s : Stepper α) : List (Call α) → List (StepReport α)
  | [] => []
  | call :: calls => s.completed call ++ journal (s.perform call).2 calls

variable {s s' : Stepper α} {r : StepReport α} {e : Fault α}

/-- In place or not, a step does the same. -/
theorem ran_stepInPlace (s : Stepper α) : stepInPlace.ran s = match s.step with
    | .error e => (.error e, s)
    | .ok (report, s') => (.ok report, s') := by
  unfold stepInPlace step
  simp only [Recording.ran_bind, Recording.ran_get, Recording.ran_liftExcept, Recording.ran_modify,
    Recording.ran_pure]
  cases Progress.cover s.solver.solve s.plan.maxHalvings s.plan.timestep (Progress.start s.state) <;> rfl

omit [Exact α] in
theorem ran_resetInPlace (s : Stepper α) (state : Components α) :
    (resetInPlace state).ran s = match s.reset state with
      | .error e => (.error e, s)
      | .ok s' => (.ok ⟨⟩, s') := by
  unfold resetInPlace reset
  simp only [Recording.ran_bind, Recording.ran_get, Recording.ran_liftExcept, Recording.ran_modify]
  cases checkDimension (α := α) .stepperState s.solver.dimension state.size <;> rfl

section Loop

variable {go : α → Bool} {left : ℕ}

theorem runWhile_succ_of_ok (hgo : go s.time = true) (h : s.step = .ok (r, s')) :
    s.runWhile go (left + 1) =
      ((s'.runWhile go left).1.map (r.state :: ·), (s'.runWhile go left).2) := by
  rw [runWhile, if_pos hgo, h]

theorem runWhile_succ_of_error (hgo : go s.time = true) (h : s.step = .error e) :
    s.runWhile go (left + 1) = (.error e, s) := by
  rw [runWhile, if_pos hgo, h]

theorem completedWhile_succ_of_ok (hgo : go s.time = true) (h : s.step = .ok (r, s')) :
    completedWhile go (left + 1) s = r :: completedWhile go left s' := by
  rw [completedWhile, if_pos hgo, h]

theorem completedWhile_succ_of_error (hgo : go s.time = true) (h : s.step = .error e) :
    completedWhile go (left + 1) s = [] := by
  rw [completedWhile, if_pos hgo, h]

/-- A step before a walk. -/
theorem Walk.cons {reports : List (StepReport α)} {last : Stepper α} (h : s.step = .ok (r, s'))
    (w : Walk s' reports last) : Walk s (r :: reports) last := by
  induction w with
  | start => exact Walk.start.step h
  | step _ hlast ih => exact ih.step hlast

/-- **A loop of steps** leads where those that succeed lead to. It answers with their states, or one of
the steps that it had left fails where they have led to. -/
theorem runWhile_ends (go : α → Bool) : ∀ (left : ℕ) (s : Stepper α),
    Walk s (completedWhile go left s) (s.runWhile go left).2 ∧
    Ends (fun e => (completedWhile go left s).length < left ∧ (s.runWhile go left).2.step = .error e)
      (fun states => states = (completedWhile go left s).map fun r => r.state)
      (s.runWhile go left).1 := by
  intro left
  induction left with
  | zero => intro s; exact ⟨.start, rfl⟩
  | succ left ih =>
    intro s
    by_cases hgo : go s.time = true
    · cases hstep : s.step with
      | error e =>
        -- the step that fails is the next one of the stepper as it is
        rw [runWhile_succ_of_error hgo hstep, completedWhile_succ_of_error hgo hstep]
        exact ⟨.start, left.succ_pos, hstep⟩
      | ok p =>
        obtain ⟨r, s'⟩ := p
        obtain ⟨hwalk, hends⟩ := ih s'
        rw [runWhile_succ_of_ok hgo hstep, completedWhile_succ_of_ok hgo hstep]
        refine ⟨hwalk.cons hstep, ?_⟩
        dsimp only
        cases hrest : (s'.runWhile go left).1 with
        | error e =>
          obtain ⟨hfewer, hlast⟩ := hends.of_error hrest
          exact ⟨Nat.succ_lt_succ hfewer, hlast⟩
        | ok states => exact congrArg (r.state :: ·) (hends.of_ok hrest)
    · rw [runWhile, completedWhile, if_neg hgo, if_neg hgo]
      exact ⟨.start, rfl⟩

end Loop

theorem run_succ_of_ok (h : s.step = .ok (r, s')) (steps : ℕ) :
    s.run (steps + 1) = ((s'.run steps).1.map (r.state :: ·), (s'.run steps).2) :=
  runWhile_succ_of_ok rfl h

theorem run_succ_of_error (h : s.step = .error e) (steps : ℕ) : s.run (steps + 1) = (.error e, s) :=
  runWhile_succ_of_error rfl h

/-- A loop in the middle of which a step fails leaves nothing to the loops after it. -/
theorem run_of_step_error (h : s.step = .error e) (steps : ℕ) : (s.run steps).2 = s := by
  cases steps with
  | zero => rfl
  | succ steps => rw [run_succ_of_error h]

/-- **A run in two parts** is the run of both. -/
theorem run_add (s : Stepper α) (m n : ℕ) : s.run (m + n) =
    (do
      let first ← (s.run m).1
      let second ← ((s.run m).2.run n).1
      pure (first ++ second), ((s.run m).2.run n).2) := by
  induction m generalizing s with
  | zero =>
    -- nothing comes before the second part
    rw [zero_add]
    show _ = (((s.run n).1 >>= fun second => .ok ([] ++ second)), (s.run n).2)
    cases h : s.run n with
    | mk result last => cases result <;> rfl
  | succ m ih =>
    rw [Nat.succ_add]
    cases hstep : s.step with
    | error e =>
      -- the second part begins with the step that has failed, and fails like the first
      rw [run_succ_of_error hstep, run_succ_of_error hstep, run_of_step_error hstep]
      rfl
    | ok p =>
      obtain ⟨r, s'⟩ := p
      rw [run_succ_of_ok hstep, run_succ_of_ok hstep, ih s']
      dsimp only
      cases (s'.run m).1 with
      | error e => rfl
      | ok first => cases ((s'.run m).2.run n).1 <;> rfl

section Calls

variable {solver : Solver α} {plan : Plan α} {n : ℕ}

/-- **State, clock and counter belong together**: solver and plan are those given, and after `n` single
steps the counter says so and the clock shows as many time steps. -/
structure Consistent (solver : Solver α) (plan : Plan α) (n : ℕ) (s : Stepper α) : Prop where
  same_solver : s.solver = solver
  same_plan : s.plan = plan
  size : s.state.size = solver.dimension
  steps : s.steps = n
  time : s.time = s.steps * plan.timestep

theorem consistent_of_make {initial : Components α} (h : make solver initial plan = .ok s) :
    Consistent solver plan 0 s := by
  obtain ⟨-, -, hdim, rfl⟩ := make_eq_ok.1 h
  exact ⟨rfl, rfl, hdim.symm, rfl, by simp⟩

theorem Consistent.walk (h : Consistent solver plan n s) {reports : List (StepReport α)}
    (w : Walk s reports s') : Consistent solver plan (n + reports.length) s' := by
  obtain ⟨rfl, rfl, hsize, rfl, htime⟩ := h
  refine ⟨w.same.1, w.same.2, w.size hsize, w.steps_eq, ?_⟩
  rw [w.time_eq, w.steps_eq, htime, Nat.cast_add]
  ring

theorem Consistent.reset (h : Consistent solver plan n s) {state : Components α}
    (hr : s.reset state = .ok s') : Consistent solver plan n s' := by
  obtain ⟨rfl, rfl, -, hsteps, htime⟩ := h
  obtain ⟨_, hdim, hr⟩ := bind_eq_ok.1 hr
  cases hr
  exact ⟨rfl, rfl, (checkDimension_eq_ok.1 hdim).symm, hsteps, htime⟩

/-- A call for a step is a run of one. -/
theorem perform_step (s : Stepper α) : (s.perform .step).2 = (s.run 1).2 := by
  show (stepInPlace.ran s).2 = (s.runWhile (fun _ => true) 1).2
  rw [ran_stepInPlace]
  cases hstep : s.step with
  | error e => rw [runWhile_succ_of_error rfl hstep]
  | ok p => rw [runWhile_succ_of_ok rfl hstep]; rfl

/-- A span of time, if there is any, is a loop of steps. -/
theorem runFor_eq_runWhile {duration : α} (h : 0 < duration) : s.runFor duration =
    s.runWhile (fun time => !(time ≥ s.time + duration))
      (max (Scalar.ceilNat (duration / s.plan.timestep)) 1) := by
  unfold runFor
  rw [if_neg (by simp [h.le]), if_neg h.not_ge]

/-- **What the steps of a call that succeed lead to.** Only with another state it goes on elsewhere. -/
theorem walk_completed (s : Stepper α) : ∀ call : Call α, (∀ state, call ≠ .reset state) →
    Walk s (s.completed call) (s.perform call).2
  | .step, _ => by
    rw [perform_step]
    exact (runWhile_ends (fun _ => true) 1 s).1
  | .run steps, _ => (runWhile_ends _ steps s).1
  | .runFor duration, _ => by
    show Walk s (s.completed (.runFor duration)) (s.runFor duration).2
    by_cases hzero : duration ≤ 0
    · rw [completed, if_pos hzero, runFor]
      split_ifs <;> exact .start
    · rw [completed, if_neg hzero, runFor_eq_runWhile (not_le.1 hzero)]
      exact (runWhile_ends _ _ s).1
  | .reset state, h => absurd rfl (h state)

/-- **A call keeps a stepper consistent**, with the single steps of the call that succeed. -/
theorem Consistent.perform (h : Consistent solver plan n s) (call : Call α) :
    Consistent solver plan (n + (s.completed call).length) (s.perform call).2 := by
  cases call with
  | reset state =>
    show Consistent solver plan n ((resetInPlace state).ran s).2
    rw [ran_resetInPlace]
    cases hreset : s.reset state with
    | error e => exact h
    | ok s' => exact h.reset hreset
  | step => exact h.walk (walk_completed s .step nofun)
  | run steps => exact h.walk (walk_completed s (.run steps) nofun)
  | runFor duration => exact h.walk (walk_completed s (.runFor duration) nofun)

/-- **A session keeps a stepper consistent.** -/
theorem Consistent.after (calls : List (Call α)) : ∀ {n : ℕ} {s : Stepper α},
    Consistent solver plan n s → Consistent solver plan (n + (s.journal calls).length) (s.after calls) := by
  induction calls with
  | nil => intro n s h; exact h
  | cons call calls ih =>
    intro n s h
    rw [journal, List.length_append, ← add_assoc]
    exact ih (h.perform call)

theorem after_append (s : Stepper α) (calls more : List (Call α)) :
    s.after (calls ++ more) = (s.after calls).after more := by
  induction calls generalizing s with
  | nil => rfl
  | cons call calls ih => exact ih _

/-- A walk is a session of calls for a step. -/
theorem Walk.after_eq {reports : List (StepReport α)} (w : Walk s reports s') :
    s.after (List.replicate reports.length .step) = s' := by
  induction w with
  | start => rfl
  | @step reports middle last r _ h ih =>
    rw [List.length_append, List.length_singleton, List.replicate_succ', after_append, ih]
    show (stepInPlace.ran middle).2 = last
    rw [ran_stepInPlace, h]

/-- **A call is stopped by a step that fails.** The stepper is the one that calls for a step lead to, as
many as have succeeded, and the fault is that of the next one. -/
structure Stopped (s : Stepper α) (call : Call α) (e : Fault α) : Prop where
  walk : Walk s (s.completed call) (s.perform call).2
  steps : s.after (List.replicate (s.completed call).length .step) = (s.perform call).2
  fault : (s.perform call).2.step = .error e

theorem fault_of_run {steps : ℕ} (h : (s.run steps).1 = .error e) :
    (s.completed (.run steps)).length < steps ∧ Stopped s (.run steps) e := by
  obtain ⟨hwalk, hends⟩ := runWhile_ends (fun _ => true) steps s
  obtain ⟨hfewer, hlast⟩ := hends.of_error h
  exact ⟨hfewer, hwalk, hwalk.after_eq, hlast⟩

theorem fault_of_runFor {duration : α} (hduration : 0 ≤ duration)
    (h : (s.runFor duration).1 = .error e) : Stopped s (.runFor duration) e := by
  have hwalk := walk_completed s (.runFor duration) nofun
  refine ⟨hwalk, hwalk.after_eq, ?_⟩
  show (s.runFor duration).2.step = .error e
  rcases hduration.eq_or_lt with rfl | hpos
  · rw [runFor, if_neg (by simp), if_pos le_rfl] at h
    cases h
  · rw [runFor_eq_runWhile hpos] at h ⊢
    exact ((runWhile_ends _ _ s).2.of_error h).2

/-- **A stepper after any calls**, with and without success. Solver and plan are those that it was made
with, the state has the solver's dimension, the counter is the number of single steps that have
succeeded, and the clock shows as many time steps. From there a step that fails, a state of another
dimension and a span of time that is negative change nothing; a run of steps and a span of time that
fail leave the stepper that their earlier steps lead to; and a run in two parts is the run of both. -/
theorem session_consistent {initial : Components α} {first : Stepper α}
    (hmake : make solver initial plan = .ok first) (calls : List (Call α)) {s : Stepper α}
    (hs : first.after calls = s) :
    Consistent solver plan (first.journal calls).length s ∧
    (∀ e, s.step = .error e → s.perform .step = (.error e, s)) ∧
    (∀ state e, s.reset state = .error e → s.perform (.reset state) = (.error e, s)) ∧
    (∀ duration, duration < 0 →
      s.perform (.runFor duration) = (.error (.argument (.runDuration duration)), s)) ∧
    (∀ steps e, (s.run steps).1 = .error e →
      (s.completed (.run steps)).length < steps ∧ Stopped s (.run steps) e) ∧
    (∀ duration e, 0 ≤ duration → (s.runFor duration).1 = .error e → Stopped s (.runFor duration) e) ∧
    (∀ m n, s.run (m + n) =
      (do
        let first ← (s.run m).1
        let second ← ((s.run m).2.run n).1
        pure (first ++ second), ((s.run m).2.run n).2)) := by
  have hconsistent := (consistent_of_make hmake).after calls
  rw [zero_add, hs] at hconsistent
  refine ⟨hconsistent, ?_, ?_, ?_, fun _ _ => fault_of_run, fun _ _ => fault_of_runFor, run_add s⟩
  · intro e h
    rw [perform, ran_stepInPlace, h]
    rfl
  · intro state e h
    rw [perform, ran_resetInPlace, h]
    rfl
  · intro duration h
    rw [perform, runFor, if_pos (by simp [h])]
    rfl

end Calls

/-- A session with a glide. Too fast for its steps, it has no result until it is slow again. -/
def glides : List (Call ℚ) :=
  [.run 2, .reset #[3], .reset #[0, 2], .step, .runFor (-1), .runFor 512, .reset #[5, 1], .runFor 500]

/-- The glide has been made fast by the third call, and none of its steps succeeds. After the session
there are two steps from before that and two from after it. -/
theorem session_consistent_longGlide :
    Consistent longGlide.solver longGlide.plan 4 (longGlide.after glides) ∧
    (longGlide.after glides).time = 1024 ∧
    (∃ e, (longGlide.after (glides.take 3)).step = .error e ∧
      (longGlide.after (glides.take 3)).perform .step = (.error e, longGlide.after (glides.take 3))) ∧
    ∃ e, Stopped (longGlide.after (glides.take 3)) (.runFor 512) e := by
  have hmake : make longGlide.solver longGlide.state longGlide.plan = .ok longGlide := by decide +kernel
  obtain ⟨hconsistent, -⟩ := session_consistent hmake glides rfl
  obtain ⟨-, hstep, -, -, -, hspan, -⟩ := session_consistent hmake (glides.take 3) rfl
  have hcount : (longGlide.journal glides).length = 4 := by decide +kernel
  rw [hcount] at hconsistent
  have htime : (longGlide.after glides).time = 1024 := by
    rw [hconsistent.time, hconsistent.steps]
    norm_num [longGlide]
  have hfault : ∀ {β : Type} {r : Except (Fault ℚ) β}, r.isOk = false → ∃ e, r = .error e := by
    intro β r h
    cases r with
    | error e => exact ⟨e, rfl⟩
    | ok b => cases h
  obtain ⟨e, he⟩ := hfault
    (show (longGlide.after (glides.take 3)).step.isOk = false by decide +kernel)
  obtain ⟨e', he'⟩ := hfault
    (show ((longGlide.after (glides.take 3)).runFor 512).1.isOk = false by decide +kernel)
  exact ⟨hconsistent, htime, ⟨e, he, hstep e he⟩, e', hspan 512 e' (by norm_num) he'⟩

end Stepper
end EnergyStep
