import EnergyStep.Proofs.Ends
import EnergyStep.Proofs.Exact
import EnergyStep.Proofs.Recording
import EnergyStep.Stepper

/-!
# Covering an interval

A step is one solve, or two halves of which each is covered in the same way. What happened is a
binary tree: its leaves are the accepted solves, one after the other in time, and its inner nodes are
the intervals with which the solver made no progress.

* `Covers`: the tree, read off as the list of its leaves.
* `Progress.cover_eq_ok`: a covered interval has such a tree, and the progress is that of its leaves.
* `counted`: a solve that keeps count.
* `step_covers`: what a step did, and how many solves it took.
-/

namespace EnergyStep

/-- An accepted solve: where it began, the time it covered, and what came of it. -/
structure Piece (α : Type) where
  start : Components α
  dt : α
  outcome : Outcome α

variable {α : Type} [Exact α] {solve : Components α → α → Except (Fault α) (Outcome α)}

/-- **A dyadic splitting** of the interval `dt`, from a state to a state, with at most `halvings` on
every way down: the pieces are its leaves, and it is split only where the solver made no progress. -/
inductive Covers (solve : Components α → α → Except (Fault α) (Outcome α)) :
    (halvings : ℕ) → (start : Components α) → (dt : α) → (finish : Components α) →
      List (Piece α) → Prop
  | accepted {halvings : ℕ} {start : Components α} {dt : α} {outcome : Outcome α}
      (h : solve start dt = .ok outcome) :
      Covers solve halvings start dt outcome.state [⟨start, dt, outcome⟩]
  | halved {halvings : ℕ} {start middle finish : Components α} {dt : α} {fault : Fault α}
      {first second : List (Piece α)} (h : solve start dt = .error fault)
      (hp : fault.isPoorlyConditioned = true) (h₁ : Covers solve halvings start (dt / 2) middle first)
      (h₂ : Covers solve halvings middle (dt / 2) finish second) :
      Covers solve (halvings + 1) start dt finish (first ++ second)

/-- Each piece begins with the state that the one before it ended with. -/
def Linked (start finish : Components α) : List (Piece α) → Prop
  | [] => start = finish
  | p :: ps => p.start = start ∧ Linked p.outcome.state finish ps

omit [Exact α] in
theorem Linked.append {x y z : Components α} : ∀ {ps qs : List (Piece α)},
    Linked x y ps → Linked y z qs → Linked x z (ps ++ qs) := by
  intro ps
  induction ps generalizing x with
  | nil => intro qs h1 h2; rw [show x = y from h1]; exact h2
  | cons p ps ih => intro qs h1 h2; exact ⟨h1.1, ih h1.2 h2⟩

namespace Covers

variable {halvings : ℕ} {start finish : Components α} {dt : α} {ps : List (Piece α)}

theorem linked (h : Covers solve halvings start dt finish ps) : Linked start finish ps := by
  induction h with
  | accepted h => exact ⟨rfl, rfl⟩
  | halved h hp h₁ h₂ ih₁ ih₂ => exact ih₁.append ih₂

theorem solved (h : Covers solve halvings start dt finish ps) :
    ∀ p ∈ ps, solve p.start p.dt = .ok p.outcome := by
  induction h with
  | accepted h => exact List.forall_mem_singleton.2 h
  | halved h hp h₁ h₂ ih₁ ih₂ => exact List.forall_mem_append.2 ⟨ih₁, ih₂⟩

/-- Every piece is the interval cut in half again and again. -/
theorem dyadic (h : Covers solve halvings start dt finish ps) :
    ∀ p ∈ ps, ∃ j ≤ halvings, p.dt = dt / 2 ^ j := by
  induction h with
  | accepted h => exact List.forall_mem_singleton.2 ⟨0, Nat.zero_le _, by simp⟩
  | @halved halvings start middle finish dt fault first second h hp h₁ h₂ ih₁ ih₂ =>
    -- a piece of a half has been cut once more
    have hhalf : ∀ p : Piece α, (∃ j ≤ halvings, p.dt = dt / 2 / 2 ^ j) →
        ∃ j ≤ halvings + 1, p.dt = dt / 2 ^ j := by
      rintro p ⟨j, hj, hdt⟩
      exact ⟨j + 1, by omega, by rw [hdt, div_div, pow_succ']⟩
    exact List.forall_mem_append.2 ⟨fun p hp => hhalf p (ih₁ p hp), fun p hp => hhalf p (ih₂ p hp)⟩

/-- **The pieces add up to the interval.** -/
theorem sum_dt (h : Covers solve halvings start dt finish ps) : (ps.map Piece.dt).sum = dt := by
  induction h with
  | accepted h => simp
  | halved h hp h₁ h₂ ih₁ ih₂ => rw [List.map_append, List.sum_append, ih₁, ih₂, add_halves]

theorem length_le (h : Covers solve halvings start dt finish ps) : ps.length ≤ 2 ^ halvings := by
  induction h with
  | accepted h => exact Nat.one_le_two_pow
  | halved h hp h₁ h₂ ih₁ ih₂ =>
    rw [List.length_append, pow_succ]
    omega

end Covers

namespace Progress

/-- Records pieces one after the other. -/
def recordAll (p : Progress α) (ps : List (Piece α)) : Progress α :=
  ps.foldl (fun p piece => p.record piece.outcome) p

theorem recordAll_append (p : Progress α) (ps qs : List (Piece α)) :
    p.recordAll (ps ++ qs) = (p.recordAll ps).recordAll qs := List.foldl_append ..

/-- The counts and sums of a record are those of its pieces. -/
theorem recordAll_sums (ps : List (Piece α)) : ∀ p : Progress α,
    (p.recordAll ps).substeps = p.substeps + ps.length ∧
    (p.recordAll ps).residual = p.residual + (ps.map fun piece => piece.outcome.residual).sum ∧
    (p.recordAll ps).iterations = p.iterations + (ps.map fun piece => piece.outcome.iterations).sum := by
  induction ps with
  | nil => intro p; simp [recordAll]
  | cons piece ps ih =>
    intro p
    obtain ⟨h1, h2, h3⟩ := ih (p.record piece.outcome)
    have hrec : p.recordAll (piece :: ps) = (p.record piece.outcome).recordAll ps := rfl
    rw [hrec, h1, h2, h3]
    simp only [record, List.length_cons, List.map_cons, List.sum_cons]
    refine ⟨by omega, by ring, by omega⟩

variable {halvings : ℕ} {dt : α} {p : Progress α}

omit [Exact α] in
theorem cover_of_ok [Scalar α] {o : Outcome α} (hs : solve p.state dt = .ok o) :
    cover solve halvings dt p = .ok (p.record o) := by
  cases halvings <;> (unfold cover; rw [hs]; rfl)

omit [Exact α] in
theorem cover_zero_of_error [Scalar α] {fault : Fault α} (hs : solve p.state dt = .error fault) :
    cover solve 0 dt p = .error fault := by
  unfold cover
  rw [hs]
  rfl

omit [Exact α] in
theorem cover_succ_of_error [Scalar α] {fault : Fault α} (hs : solve p.state dt = .error fault) :
    cover solve (halvings + 1) dt p =
      if fault.isPoorlyConditioned then
        cover solve halvings (0.5 * dt) p >>= cover solve halvings (0.5 * dt)
      else .error fault := by
  rw [cover, hs]
  rfl

/-- **A covered interval has a splitting**, and the progress made is that of its pieces. -/
theorem cover_eq_ok : ∀ {halvings : ℕ} {dt : α} {p q : Progress α},
    cover solve halvings dt p = .ok q →
      ∃ ps, Covers solve halvings p.state dt q.state ps ∧ q = p.recordAll ps := by
  intro halvings
  induction halvings with
  | zero =>
    intro dt p q h
    cases hs : solve p.state dt with
    | ok o =>
      rw [cover_of_ok hs] at h
      cases h
      exact ⟨_, .accepted hs, rfl⟩
    | error fault =>
      rw [cover_zero_of_error hs] at h
      cases h
  | succ halvings ih =>
    intro dt p q h
    cases hs : solve p.state dt with
    | ok o =>
      rw [cover_of_ok hs] at h
      cases h
      exact ⟨_, .accepted hs, rfl⟩
    | error fault =>
      rw [cover_succ_of_error hs] at h
      split_ifs at h with hp
      rw [Scalar.half_eq, one_div_mul_eq_div] at h
      obtain ⟨y, h1, h2⟩ := bind_eq_ok.1 h
      obtain ⟨ps, hc₁, rfl⟩ := ih h1
      obtain ⟨qs, hc₂, rfl⟩ := ih h2
      exact ⟨ps ++ qs, .halved hs hp hc₁ hc₂, (recordAll_append ..).symm⟩

end Progress

/-- An evaluation that keeps count of something. -/
abbrev Counted (α β : Type) := ExceptT (Fault α) (StateM ℕ) β

/-- A solve that is counted, also if it fails. -/
def counted (solve : Components α → α → Except (Fault α) (Outcome α)) (start : Components α) (dt : α) :
    Counted α (Outcome α) := do
  modify (· + 1)
  liftExcept (solve start dt)

namespace Counted

variable {β γ : Type} {r : Counted α β} {n k : ℕ}

/-- How a counted evaluation ends, and the count after it. -/
def ran (r : Counted α β) (n : ℕ) : Except (Fault α) β × ℕ := r.run.run n

omit [Exact α] in
@[simp] theorem ran_counted (x : Components α) (dt : α) :
    (counted solve x dt).ran n = (solve x dt, n + 1) := by
  unfold counted
  cases h : solve x dt <;> rfl

omit [Exact α] in
theorem ran_bind_ok {f : β → Counted α γ} {b : β} (h : r.ran n = (.ok b, k)) :
    ran (r >>= f) n = (f b).ran k := by
  have hr : Recording.ran r n = (.ok b, k) := h
  have hbind := Recording.ran_bind r f n
  rw [hr] at hbind
  exact hbind

omit [Exact α] in
theorem ran_bind_error {f : β → Counted α γ} {e : Fault α} (h : r.ran n = (.error e, k)) :
    ran (r >>= f) n = (.error e, k) := by
  have hr : Recording.ran r n = (.error e, k) := h
  have hbind := Recording.ran_bind r f n
  rw [hr] at hbind
  exact hbind

omit [Exact α] in
/-- What is observed has been counted. -/
theorem ran_observing {res : Except (Fault α) β} (h : r.ran n = (res, k)) :
    ran (observing r) n = (.ok res, k) := Recording.ran_observing h

end Counted

namespace Progress

variable {halvings n : ℕ} {dt : α} {p : Progress α}

theorem ran_cover_of_ok {o : Outcome α} (hs : solve p.state dt = .ok o) :
    Counted.ran (cover (counted solve) halvings dt p) n = (.ok (p.record o), n + 1) := by
  have hc : (counted solve p.state dt).ran n = (.ok o, n + 1) := by rw [Counted.ran_counted, hs]
  cases halvings with
  | zero => unfold cover; rw [Counted.ran_bind_ok hc]; rfl
  | succ halvings => unfold cover; rw [Counted.ran_bind_ok (Counted.ran_observing hc)]; rfl

theorem ran_cover_zero_of_error {fault : Fault α} (hs : solve p.state dt = .error fault) :
    Counted.ran (cover (counted solve) 0 dt p) n = (.error fault, n + 1) := by
  unfold cover
  rw [Counted.ran_bind_error (by rw [Counted.ran_counted, hs])]

theorem ran_cover_succ_of_error {fault : Fault α} (hs : solve p.state dt = .error fault) :
    Counted.ran (cover (counted solve) (halvings + 1) dt p) n =
      if fault.isPoorlyConditioned then
        Counted.ran (cover (counted solve) halvings (0.5 * dt) p >>=
          cover (counted solve) halvings (0.5 * dt)) (n + 1)
      else (.error fault, n + 1) := by
  have hc : (counted solve p.state dt).ran n = (.error fault, n + 1) := by rw [Counted.ran_counted, hs]
  rw [cover, Counted.ran_bind_ok (Counted.ran_observing hc)]
  show Counted.ran (if fault.isPoorlyConditioned then _ else _) _ = _
  split_ifs <;> rfl

/-- **Counting changes nothing.** A cover tries less than `2 ^ (halvings + 1)` solves; one with a
result tries its pieces and the intervals that it splits, of which there is one less. -/
theorem ran_cover : ∀ (halvings : ℕ) (dt : α) (p : Progress α) (n : ℕ), ∃ k,
    Counted.ran (cover (counted solve) halvings dt p) n = (cover solve halvings dt p, n + k) ∧
      k + 1 ≤ 2 ^ (halvings + 1) ∧
      ∀ q, cover solve halvings dt p = .ok q → k + 1 + 2 * p.substeps = 2 * q.substeps := by
  intro halvings
  induction halvings with
  | zero =>
    intro dt p n
    cases hs : solve p.state dt with
    | ok o =>
      rw [ran_cover_of_ok hs, cover_of_ok hs]
      refine ⟨1, rfl, le_rfl, ?_⟩
      rintro q ⟨⟩
      show 1 + 1 + 2 * p.substeps = 2 * (p.substeps + 1)
      omega
    | error fault =>
      rw [ran_cover_zero_of_error hs, cover_zero_of_error hs]
      exact ⟨1, rfl, le_rfl, by rintro q ⟨⟩⟩
  | succ halvings ih =>
    intro dt p n
    have htwo : 2 ^ (halvings + 1 + 1) = 2 * 2 ^ (halvings + 1) := pow_succ' ..
    have hpos : 1 ≤ 2 ^ (halvings + 1) := Nat.one_le_two_pow
    cases hs : solve p.state dt with
    | ok o =>
      rw [ran_cover_of_ok hs, cover_of_ok hs]
      refine ⟨1, rfl, by omega, ?_⟩
      rintro q ⟨⟩
      show 1 + 1 + 2 * p.substeps = 2 * (p.substeps + 1)
      omega
    | error fault =>
      rw [ran_cover_succ_of_error hs, cover_succ_of_error hs]
      by_cases hp : fault.isPoorlyConditioned = true
      · -- one solve for the whole, then those for the first half and, if it is covered, the second
        rw [if_pos hp, if_pos hp]
        obtain ⟨k₁, hr₁, hk₁, hs₁⟩ := ih (0.5 * dt) p (n + 1)
        cases hc : cover solve halvings (0.5 * dt) p with
        | error e =>
          rw [hc] at hr₁
          refine ⟨k₁ + 1, ?_, by omega, by rintro q ⟨⟩⟩
          rw [Counted.ran_bind_error hr₁, add_right_comm, add_assoc]
          rfl
        | ok y =>
          rw [hc] at hr₁
          obtain ⟨k₂, hr₂, hk₂, hs₂⟩ := ih (0.5 * dt) y (n + 1 + k₁)
          refine ⟨k₁ + k₂ + 1, ?_, by omega, ?_⟩
          · rw [Counted.ran_bind_ok hr₁, hr₂]
            show (_, n + 1 + k₁ + k₂) = (_, n + (k₁ + k₂ + 1))
            rw [show n + 1 + k₁ + k₂ = n + (k₁ + k₂ + 1) by omega]
            rfl
          · intro q hq
            have h₁ := hs₁ y hc
            have h₂ := hs₂ q hq
            omega
      · rw [if_neg hp, if_neg hp]
        exact ⟨1, rfl, by omega, by rintro q ⟨⟩⟩

end Progress

namespace Stepper

/-- **What a step did**, piece by piece. -/
structure Accounts (s : Stepper α) (r : StepReport α) (s' : Stepper α) (ps : List (Piece α)) : Prop where
  /-- The pieces are the leaves of a splitting of the step. -/
  splitting : Covers s.solver.solve s.plan.maxHalvings s.state s.plan.timestep s'.state ps
  /-- They lead from the old state to the new one. -/
  linked : Linked s.state s'.state ps
  reported : r.state = s'.state
  solved : ∀ p ∈ ps, s.solver.solve p.start p.dt = .ok p.outcome
  dyadic : ∀ p ∈ ps, ∃ j ≤ s.plan.maxHalvings, p.dt = s.plan.timestep / 2 ^ j
  /-- They cover exactly the time step. -/
  covered : (ps.map Piece.dt).sum = s.plan.timestep
  substeps : r.substeps = ps.length
  bounded : r.substeps ≤ 2 ^ s.plan.maxHalvings
  residual : r.residual = (ps.map fun p => p.outcome.residual).sum
  iterations : r.iterations = (ps.map fun p => p.outcome.iterations).sum

/-- The cover of a step with all its solves counted. -/
def countedCover (s : Stepper α) : Except (Fault α) (Progress α) × ℕ :=
  Counted.ran (Progress.cover (counted s.solver.solve) s.plan.maxHalvings s.plan.timestep
    (Progress.start s.state)) 0

theorem make_eq_ok {solver : Solver α} {initial : Components α} {plan : Plan α} {s : Stepper α} :
    make solver initial plan = .ok s ↔ plan.check = .ok () ∧
      plan.settings.agrees solver.settings = true ∧ solver.dimension = initial.size ∧
        ⟨solver, plan, initial, 0, 0⟩ = s := by
  unfold make
  rw [bind_eq_ok]
  dsimp only
  constructor
  · rintro ⟨_, hplan, h⟩
    split_ifs at h with hagrees
    · obtain ⟨_, hdim, h⟩ := bind_eq_ok.1 h
      exact ⟨hplan, hagrees, checkDimension_eq_ok.1 hdim, Except.ok.inj h⟩
    · cases h
  · rintro ⟨hplan, hagrees, hdim, rfl⟩
    refine ⟨(), hplan, ?_⟩
    rw [if_pos hagrees]
    exact bind_eq_ok.2 ⟨(), checkDimension_eq_ok.2 hdim, rfl⟩

theorem step_eq_ok {s s' : Stepper α} {r : StepReport α} : s.step = .ok (r, s') ↔ ∃ q,
    Progress.cover s.solver.solve s.plan.maxHalvings s.plan.timestep (Progress.start s.state) = .ok q ∧
      (⟨q.state, s.time + s.plan.timestep, q.substeps, q.residual, q.iterations⟩ : StepReport α) = r ∧
      { s with state := q.state, time := s.time + s.plan.timestep, steps := s.steps + 1 } = s' := by
  unfold step
  rw [bind_eq_ok]
  constructor
  · rintro ⟨q, hq, h⟩
    cases h
    exact ⟨q, hq, rfl, rfl⟩
  · rintro ⟨q, hq, rfl, rfl⟩
    exact ⟨q, hq, rfl⟩

/-- **A step covers its interval exactly.** A step that succeeds has an account of what it did; a
step, with or without a result, tries less than `2 ^ (maxHalvings + 1)` solves, and one that succeeds
tries one more than two for each further piece. -/
theorem step_covers (s : Stepper α) :
    (∀ r s', s.step = .ok (r, s') → ∃ ps, s.Accounts r s' ps ∧ s.countedCover.2 + 1 = 2 * ps.length) ∧
    s.countedCover.1 = Progress.cover s.solver.solve s.plan.maxHalvings s.plan.timestep
      (Progress.start s.state) ∧
    s.countedCover.2 ≤ 2 ^ (s.plan.maxHalvings + 1) - 1 := by
  obtain ⟨k, hran, hk, hcount⟩ := Progress.ran_cover s.plan.maxHalvings
    s.plan.timestep (Progress.start s.state) 0
  rw [Nat.zero_add] at hran
  have hcover : s.countedCover = (_, k) := hran
  rw [hcover]
  refine ⟨?_, rfl, Nat.le_sub_one_of_lt hk⟩
  intro r s' h
  obtain ⟨q, hq, rfl, rfl⟩ := step_eq_ok.1 h
  obtain ⟨ps, hps, hrec⟩ := Progress.cover_eq_ok hq
  obtain ⟨hsub, hres, hit⟩ := Progress.recordAll_sums ps (Progress.start s.state)
  rw [← hrec] at hsub hres hit
  have hlen : q.substeps = ps.length := hsub.trans (Nat.zero_add _)
  have htwice : k + 1 = 2 * q.substeps := hcount q hq
  refine ⟨ps, ?_, htwice.trans (by rw [hlen])⟩
  exact {
    splitting := hps
    linked := hps.linked
    reported := rfl
    solved := hps.solved
    dyadic := hps.dyadic
    covered := hps.sum_dt
    substeps := hlen
    bounded := hlen.trans_le hps.length_le
    residual := hres.trans (zero_add _)
    iterations := hit.trans (Nat.zero_add _) }

/-- A position that changes at a rate, over a step that is too long for its brackets. -/
def longGlide : Stepper ℚ where
  solver := ⟨2, [⟨.position ⟨⟨0⟩, ⟨1⟩⟩, ⟨1, 1, 1, 2 / 5⟩⟩], ⟨.powell, 2, 1, 2, 1⟩⟩
  plan := ⟨256, ⟨.powell, 2, 1, 2, 1⟩, 1⟩
  state := #[0, 1]
  time := 0
  steps := 0

/-- A step in two halves, after one solve for the whole. -/
theorem step_covers_longGlide : ∃ ps,
    longGlide.Accounts ⟨#[256, 1], 256, 2, 0, 4⟩
      { longGlide with state := #[256, 1], time := 256, steps := 1 } ps ∧
    longGlide.countedCover.2 + 1 = 2 * ps.length :=
  (step_covers longGlide).1 ⟨#[256, 1], 256, 2, 0, 4⟩ _ (by decide +kernel)

end Stepper
end EnergyStep
