import EnergyStep.Proofs.Stepper.Cover

/-!
# Budgets of halvings

How often an interval may be halved matters only where the numbers stop a step of the smallest length.
Whatever else comes out of a cover, progress over the whole interval or a fault of the caller, has been
found before the budget was used up, so it comes out of every larger budget too.

* `Decided`: ends that a larger budget does not change.
* `Progress.cover_of_le`: a cover with a larger budget, by induction on the smaller one.
* `Stepper.withHalvings`, `Stepper.step_withHalvings`: the same for the step of a stepper.
* `Stepper.larger_budget_agrees`: both, end by end.
-/

namespace EnergyStep

variable {α β γ : Type}

/-- **Ends that a larger budget does not change**: all but a fault of the numbers. -/
def Decided (r : Except (Fault α) β) : Prop :=
  Ends (fun e => e.isPoorlyConditioned = false) (fun _ => True) r

/-- What decides a sequence has been decided in its first part. -/
theorem Decided.of_bind {r : Except (Fault α) β} {f : β → Except (Fault α) γ}
    (h : Decided (r >>= f)) : Decided r := by
  cases r with
  | ok b => trivial
  | error e => exact h

variable [Scalar α] {solve : Components α → α → Except (Fault α) (Outcome α)}

namespace Progress

/-- A fault of the caller ends a cover at once. -/
theorem cover_of_precondition {halvings : ℕ} {dt : α} {p : Progress α} {fault : Fault α}
    (hs : solve p.state dt = .error fault) (hf : fault.isPoorlyConditioned = false) :
    cover solve halvings dt p = .error fault := by
  cases halvings with
  | zero => exact cover_zero_of_error hs
  | succ halvings => rw [cover_succ_of_error hs, if_neg (by simp [hf])]

/-- **A larger budget changes nothing that is decided.** -/
theorem cover_of_le : ∀ {few many : ℕ} {dt : α} {p : Progress α}, few ≤ many →
    Decided (cover solve few dt p) → cover solve many dt p = cover solve few dt p := by
  intro few
  induction few with
  | zero =>
    intro many dt p _ hd
    cases hs : solve p.state dt with
    | ok o => rw [cover_of_ok hs, cover_of_ok hs]
    | error fault =>
      rw [cover_zero_of_error hs] at hd ⊢
      exact cover_of_precondition hs hd
  | succ few ih =>
    intro many dt p hle hd
    obtain ⟨many, rfl⟩ : ∃ k, many = k + 1 := ⟨many - 1, by omega⟩
    have hle' : few ≤ many := by omega
    cases hs : solve p.state dt with
    | ok o => rw [cover_of_ok hs, cover_of_ok hs]
    | error fault =>
      by_cases hp : fault.isPoorlyConditioned = true
      · rw [cover_succ_of_error hs, if_pos hp] at hd
        rw [cover_succ_of_error hs, cover_succ_of_error hs, if_pos hp, if_pos hp]
        -- the first half is the same, and so is the state that it hands to the second
        rw [ih hle' hd.of_bind]
        cases hfirst : cover solve few (0.5 * dt) p with
        | error e => rfl
        | ok middle =>
          rw [hfirst] at hd
          exact ih hle' hd
      · have hf : fault.isPoorlyConditioned = false := by simpa using hp
        rw [cover_of_precondition hs hf, cover_of_precondition hs hf]

end Progress

namespace Stepper

/-- The stepper with another budget of halvings for each step. -/
def withHalvings (s : Stepper α) (halvings : ℕ) : Stepper α :=
  { s with plan := { s.plan with maxHalvings := halvings } }

/-- A step with a larger budget ends like one that is decided, in a stepper with that budget. -/
theorem step_withHalvings {s : Stepper α} {few many : ℕ} (hle : few ≤ many)
    (hd : Decided (s.withHalvings few).step) : (s.withHalvings many).step =
      (s.withHalvings few).step.map fun p => (p.1, p.2.withHalvings many) := by
  have hcover := Progress.cover_of_le hle
    (Decided.of_bind (r := Progress.cover s.solver.solve few s.plan.timestep (Progress.start s.state)) hd)
  have hstep : ∀ halvings, (s.withHalvings halvings).step =
      (Progress.cover s.solver.solve halvings s.plan.timestep (Progress.start s.state)).map fun p =>
        (⟨p.state, s.time + s.plan.timestep, p.substeps, p.residual, p.iterations⟩,
          { s.withHalvings halvings with
            state := p.state, time := s.time + s.plan.timestep, steps := s.steps + 1 }) :=
    fun _ => rfl
  rw [hstep, hstep, hcover]
  cases Progress.cover s.solver.solve few s.plan.timestep (Progress.start s.state) <;> rfl

/-- **A larger budget of halvings never changes what did not need it.** An interval that is covered with
few halvings is covered with many, by the same progress: the same state, the same count of substeps, the
same residual and the same iterations. If the cover ends with a fault that is not one of the numbers, it
ends with this fault whatever the budget. The same is true of a step of a stepper, with what it reports
and what it leaves. -/
theorem larger_budget_agrees {few many : ℕ} (hle : few ≤ many) :
    (∀ (solver : Solver α) (dt : α) (p q : Progress α), Progress.cover solver.solve few dt p = .ok q →
      Progress.cover solver.solve many dt p = .ok q) ∧
    (∀ (solver : Solver α) (dt : α) (p : Progress α) (e : Fault α), e.isPoorlyConditioned = false →
      Progress.cover solver.solve few dt p = .error e →
        Progress.cover solver.solve many dt p = .error e) ∧
    ∀ s : Stepper α,
      (∀ r s', (s.withHalvings few).step = .ok (r, s') →
        (s.withHalvings many).step = .ok (r, s'.withHalvings many)) ∧
      ∀ e, e.isPoorlyConditioned = false → (s.withHalvings few).step = .error e →
        (s.withHalvings many).step = .error e := by
  refine ⟨?_, ?_, fun s => ⟨?_, ?_⟩⟩
  · intro solver dt p q h
    have hd : Decided (Progress.cover solver.solve few dt p) := by rw [h]; trivial
    rw [Progress.cover_of_le hle hd, h]
  · intro solver dt p e hp h
    have hd : Decided (Progress.cover solver.solve few dt p) := by rw [h]; exact hp
    rw [Progress.cover_of_le hle hd, h]
  · intro r s' h
    have hd : Decided (s.withHalvings few).step := by rw [h]; trivial
    rw [step_withHalvings hle hd, h]
    rfl
  · intro e hp h
    have hd : Decided (s.withHalvings few).step := by rw [h]; exact hp
    rw [step_withHalvings hle hd, h]
    rfl

/-- A step that takes two halves takes no more with a budget of three, and a state of the wrong
dimension is refused with any budget. -/
theorem larger_budget_agrees_longGlide :
    Progress.cover longGlide.solver.solve 3 256 (Progress.start #[0, 1]) = .ok ⟨#[256, 1], 2, 0, 4⟩ ∧
    Progress.cover longGlide.solver.solve 3 256 (Progress.start #[0]) =
      .error (.dimension .initialState 2 1) ∧
    (longGlide.withHalvings 3).step = .ok (⟨#[256, 1], 256, 2, 0, 4⟩,
      { longGlide.withHalvings 3 with state := #[256, 1], time := 256, steps := 1 }) := by
  obtain ⟨hcover, hfault, hstep⟩ := larger_budget_agrees (α := ℚ) (show 1 ≤ 3 by decide)
  refine ⟨hcover _ _ _ _ (by decide +kernel), hfault _ _ _ _ rfl (by decide +kernel), ?_⟩
  exact (hstep longGlide).1 ⟨#[256, 1], 256, 2, 0, 4⟩
    { longGlide with state := #[256, 1], time := 256, steps := 1 } (by decide +kernel)

end Stepper
end EnergyStep
