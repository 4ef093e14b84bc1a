import EnergyStep.Proofs.Stepper.Session

/-!
# Spans of time

A stepper that is asked to run for a span of time fixes a number of steps beforehand and watches its
clock as well. In exact arithmetic the two rules say the same: the number is the least one whose steps
cover the span, and before the last of them the clock has not arrived. So the clock never stops the run,
and a span of time is a run of that many steps, in success and in failure.

* `Stepper.runWhile_eq_run`: a loop that the clock does not stop, by induction on its steps.
* `Stepper.run_time_le`, `Stepper.run_ends`: the clock after a run.
* `Stepper.lt_target`, `Stepper.target_le`: the clock and the count of steps.
* `Stepper.runFor_covers`: a span of time.
-/

namespace EnergyStep
namespace Stepper

variable {α : Type} [Exact α] {s s' : Stepper α} {r : StepReport α}

/-- A step moves the clock on by the time step, and keeps the plan. -/
theorem step_clock (h : s.step = .ok (r, s')) :
    s'.time = s.time + s.plan.timestep ∧ s'.plan = s.plan := by
  obtain ⟨q, -, -, rfl⟩ := step_eq_ok.1 h
  exact ⟨rfl, rfl⟩

/-- **A loop that the clock does not stop** is a run of all its steps. -/
theorem runWhile_eq_run {go : α → Bool} : ∀ {left : ℕ} {s : Stepper α},
    (∀ k < left, go (s.time + k * s.plan.timestep) = true) → s.runWhile go left = s.run left := by
  intro left
  induction left with
  | zero => intro s _; rfl
  | succ left ih =>
    intro s h
    have hgo : go s.time = true := by simpa using h 0 left.succ_pos
    cases hstep : s.step with
    | error e => rw [runWhile_succ_of_error hgo hstep, run_succ_of_error hstep]
    | ok p =>
      obtain ⟨r, s'⟩ := p
      obtain ⟨htime, hplan⟩ := step_clock hstep
      -- what is left of the loop begins one time step later
      have hrest : ∀ k < left, go (s'.time + k * s'.plan.timestep) = true := by
        intro k hk
        have hlater : s'.time + k * s'.plan.timestep = s.time + (k + 1 : ℕ) * s.plan.timestep := by
          rw [htime, hplan, Nat.cast_succ]
          ring
        rw [hlater]
        exact h (k + 1) (Nat.succ_lt_succ hk)
      rw [runWhile_succ_of_ok hgo hstep, run_succ_of_ok hstep, ih hrest]

/-- A run takes no more steps than it is asked for. -/
theorem length_completed_run_le : ∀ (steps : ℕ) (s : Stepper α),
    (s.completed (.run steps)).length ≤ steps := by
  intro steps
  induction steps with
  | zero => intro s; exact le_rfl
  | succ steps ih =>
    intro s
    have hgo : (fun _ : α => true) s.time = true := rfl
    show (completedWhile (fun _ => true) (steps + 1) s).length ≤ steps + 1
    cases hstep : s.step with
    | error e =>
      rw [completedWhile_succ_of_error hgo hstep]
      exact Nat.zero_le _
    | ok p =>
      obtain ⟨r, s'⟩ := p
      rw [completedWhile_succ_of_ok hgo hstep, List.length_cons]
      exact Nat.succ_le_succ (ih s')

/-- However a run ends, the clock is not ahead of its steps. -/
theorem run_time_le (hdt : 0 ≤ s.plan.timestep) (steps : ℕ) :
    (s.run steps).2.time ≤ s.time + steps * s.plan.timestep := by
  have hwalk : Walk s (s.completed (.run steps)) (s.run steps).2 := walk_completed s (.run steps) nofun
  have hlength : ((s.completed (.run steps)).length : α) ≤ steps :=
    Nat.cast_le.2 (length_completed_run_le steps s)
  rw [hwalk.time_eq]
  have := mul_le_mul_of_nonneg_right hlength hdt
  linarith

/-- **A run that succeeds** has a state for each of its steps, and the clock shows all of them. -/
theorem run_ends {steps : ℕ} {states : List (Components α)} (h : (s.run steps).1 = .ok states) :
    states.length = steps ∧ (s.run steps).2.time = s.time + steps * s.plan.timestep := by
  induction steps generalizing s states with
  | zero =>
    cases h
    have hlast : (s.run 0).2 = s := rfl
    rw [hlast]
    simp
  | succ steps ih =>
    cases hstep : s.step with
    | error e =>
      rw [run_succ_of_error hstep] at h
      cases h
    | ok p =>
      obtain ⟨r, s'⟩ := p
      rw [run_succ_of_ok hstep] at h ⊢
      obtain ⟨rest, hrest, rfl⟩ := map_eq_ok.1 h
      obtain ⟨hlength, htime⟩ := ih hrest
      obtain ⟨hfirst, hplan⟩ := step_clock hstep
      refine ⟨congrArg (· + 1) hlength, ?_⟩
      dsimp only
      rw [htime, hfirst, hplan, Nat.cast_succ]
      ring

section Count

variable {t duration dt : α}

/-- Before the count is reached the clock has not arrived. -/
theorem lt_target (hdt : 0 < dt) {k : ℕ} (hk : k < ⌈duration / dt⌉₊) : t + k * dt < t + duration := by
  have hlt : (k : α) < duration / dt := Nat.lt_ceil.1 hk
  have := (lt_div_iff₀ hdt).1 hlt
  linarith

/-- **The count is the least** number of time steps that cover the span. -/
theorem target_le (hdt : 0 < dt) {k : ℕ} : t + duration ≤ t + k * dt ↔ ⌈duration / dt⌉₊ ≤ k := by
  rw [Nat.ceil_le, div_le_iff₀ hdt, add_le_add_iff_left]

/-- The last time step reaches beyond the span by less than itself. -/
theorem count_lt (hdt : 0 < dt) (hduration : 0 ≤ duration) :
    t + ⌈duration / dt⌉₊ * dt < t + duration + dt := by
  have hlt : (⌈duration / dt⌉₊ : α) < duration / dt + 1 :=
    Nat.ceil_lt_add_one (div_nonneg hduration hdt.le)
  have hspan : duration / dt * dt = duration := div_mul_cancel₀ _ hdt.ne'
  have := mul_lt_mul_of_pos_right hlt hdt
  linarith

end Count

/-- **A span of time is a run of steps**, the least number that covers it, as long as a machine word
counts them. -/
theorem runFor_eq_run (hdt : 0 < s.plan.timestep) {duration : α} (hduration : 0 ≤ duration)
    (hcount : ⌈duration / s.plan.timestep⌉₊ < 2 ^ 64) :
    s.runFor duration = s.run ⌈duration / s.plan.timestep⌉₊ := by
  rcases hduration.eq_or_lt with rfl | hpos
  · -- no time is to be covered, and none is
    rw [zero_div, Nat.ceil_zero, runFor, if_neg (by simp), if_pos le_rfl]
    rfl
  · have hone : 1 ≤ ⌈duration / s.plan.timestep⌉₊ := Nat.one_le_ceil_iff.2 (div_pos hpos hdt)
    have hestimate : max (Scalar.ceilNat (duration / s.plan.timestep)) 1 =
        ⌈duration / s.plan.timestep⌉₊ := by
      have hword : Scalar.ceilNat (duration / s.plan.timestep) =
          min ⌈duration / s.plan.timestep⌉₊ (2 ^ 64 - 1) := rfl
      rw [hword]
      omega
    rw [runFor_eq_runWhile hpos, hestimate]
    refine runWhile_eq_run fun k hk => ?_
    have hlt : s.time + k * s.plan.timestep < s.time + duration := lt_target hdt hk
    simpa using hlt

/-- **A span of time is covered with the least number of steps.** A stepper that is in use, at whatever
time, and is asked to run for a span does what it does when it is asked for as many steps as the span has
time steps, rounded up; whether these succeed or not. The clock stops the run before none of them. If
they succeed there is a state for each, and the clock has passed the end of the span by less than a time
step; no smaller number of steps gets there. For no time at all nothing is done. -/
theorem runFor_covers {solver : Solver α} {plan : Plan α} {initial : Components α} {first : Stepper α}
    (hmake : make solver initial plan = .ok first) (calls : List (Call α)) {duration : α}
    (hduration : 0 ≤ duration) (hcount : ⌈duration / plan.timestep⌉₊ < 2 ^ 64)
    (hs : first.after calls = s) :
    s.time = s.steps * plan.timestep ∧
    s.runFor duration = s.run ⌈duration / plan.timestep⌉₊ ∧
    (∀ k < ⌈duration / plan.timestep⌉₊, (s.run k).2.time < s.time + duration) ∧
    (∀ states, (s.runFor duration).1 = .ok states →
      states.length = ⌈duration / plan.timestep⌉₊ ∧
      (s.runFor duration).2.time = s.time + ⌈duration / plan.timestep⌉₊ * plan.timestep ∧
      s.time + duration ≤ (s.runFor duration).2.time ∧
      (s.runFor duration).2.time < s.time + duration + plan.timestep) ∧
    (∀ k : ℕ, s.time + duration ≤ s.time + k * plan.timestep → ⌈duration / plan.timestep⌉₊ ≤ k) ∧
    s.runFor 0 = (.ok [], s) := by
  have hconsistent := (consistent_of_make hmake).after calls
  rw [zero_add, hs] at hconsistent
  obtain ⟨_, hplan, -, -, htime⟩ := hconsistent
  subst hplan
  have hdt : 0 < s.plan.timestep := by
    obtain ⟨hcheck, -⟩ := make_eq_ok.1 hmake
    obtain ⟨_, hstep, -⟩ := bind_eq_ok.1 hcheck
    exact checkTimestep_eq_ok.1 hstep
  have hrun := runFor_eq_run hdt hduration hcount
  refine ⟨htime, hrun, ?_, ?_, fun k hk => (target_le hdt).1 hk, ?_⟩
  · intro k hk
    exact (run_time_le hdt.le k).trans_lt (lt_target hdt hk)
  · intro states hstates
    rw [hrun] at hstates ⊢
    obtain ⟨hlength, hlast⟩ := run_ends hstates
    refine ⟨hlength, hlast, ?_, ?_⟩
    · rw [hlast]
      exact (target_le hdt).2 le_rfl
    · rw [hlast]
      exact count_lt hdt hduration
  · rw [runFor, if_neg (by simp), if_pos le_rfl]

/-- After two steps of a glide two more cover a span that is not a whole number of steps. -/
theorem runFor_covers_longGlide :
    (longGlide.after [.run 2]).runFor 500 = (longGlide.after [.run 2]).run 2 ∧
    512 + 500 ≤ ((longGlide.after [.run 2]).runFor 500).2.time ∧
    ((longGlide.after [.run 2]).runFor 500).2.time < 512 + 500 + 256 := by
  have hmake : make longGlide.solver longGlide.state longGlide.plan = .ok longGlide := by decide +kernel
  have hceil : ⌈(500 : ℚ) / longGlide.plan.timestep⌉₊ = 2 := by decide +kernel
  have hspan : (0 : ℚ) ≤ 500 := by norm_num
  obtain ⟨-, hrun, -, hends, -, -⟩ := runFor_covers hmake [.run 2] hspan (by rw [hceil]; norm_num) rfl
  rw [hceil] at hrun
  have hok : ((longGlide.after [.run 2]).runFor 500).1 =
      .ok [#[768, 1], #[1024, 1]] := by decide +kernel
  have htime : (longGlide.after [.run 2]).time = 512 := by decide +kernel
  obtain ⟨-, -, hcovers, hless⟩ := hends _ hok
  rw [htime] at hcovers hless
  exact ⟨hrun, hcovers, hless⟩

end Stepper
end EnergyStep
