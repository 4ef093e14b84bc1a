import EnergyStep.Proofs.Law.Zero
import EnergyStep.Proofs.Loop
import EnergyStep.Proofs.Stepper.Assembly

/-!
# Conjugate gradients that run out of iterations

On the energy of a step whose terms find their positions nothing but the budget can end conjugate
gradients without a result. A line without a minimum ends them with the point before it, and all
preconditions hold. So a fault means that every iteration of the budget was a line with a minimum after
which the rule went on, and it goes on only while the energy falls by more than a fraction of its largest
fall.

* `ConjugateGradient.turn`: one iteration; `ConjugateGradient.iterate_eq_run`: all of them as a loop.
* `ConjugateGradient.Accepted`: a row of lines after each of which the rule went on.
* `ConjugateGradient.Accepted.falls`: how much such lines have lowered the value.
* `StepEnergy.gradients_fail_progressing`: energies.
-/

namespace EnergyStep

variable {α : Type} [Exact α] {settings : Settings α} {top : α}

namespace ConjugateGradient

variable {f : SmoothObjective (Except (Fault α)) α} {s s' : ConjugateGradient α} {done k : ℕ}

/-- The minimization on the line of an iteration. -/
def line (f : SmoothObjective (Except (Fault α)) α) (settings : Settings α) (s : ConjugateGradient α) :
    Except (Fault α) (Ray α × α × Components α) :=
  f.descend (LineSearch.ofSettings settings) ⟨s.point, usable s.conjugate⟩

/-- One iteration, after `done` others. -/
def turn (f : SmoothObjective (Except (Fault α)) α) (settings : Settings α) (done : ℕ)
    (s : ConjugateGradient α) : Except (Fault α) (Turn (Minimum α) (ConjugateGradient α)) :=
  match line f settings s with
  | .error fault =>
    if fault.isPoorlyConditioned then .ok (.stop ⟨s.point, s.value, done + 1, .lineSearchStalled⟩)
    else .error fault
  | .ok (there, value, gradient) =>
    match s.judge settings.tolerance there.origin value gradient with
    | .stop reason => .ok (.stop ⟨there.origin, value, done + 1, reason⟩)
    | .proceed next => .ok (.proceed next)

theorem turn_of_stalled {fault : Fault α} (h : line f settings s = .error fault)
    (hpoor : fault.isPoorlyConditioned = true) :
    turn f settings done s = .ok (.stop ⟨s.point, s.value, done + 1, .lineSearchStalled⟩) := by
  unfold turn; rw [h]; exact if_pos hpoor

theorem turn_of_fault {fault : Fault α} (h : line f settings s = .error fault)
    (hpoor : ¬fault.isPoorlyConditioned = true) : turn f settings done s = .error fault := by
  unfold turn; rw [h]; exact if_neg hpoor

theorem turn_of_minimum {there : Ray α} {value : α} {gradient : Components α}
    (h : line f settings s = .ok (there, value, gradient)) :
    turn f settings done s = .ok (match s.judge settings.tolerance there.origin value gradient with
      | .stop reason => .stop ⟨there.origin, value, done + 1, reason⟩
      | .proceed next => .proceed next) := by
  unfold turn
  rw [h]
  dsimp only
  cases s.judge settings.tolerance there.origin value gradient <;> rfl

/-- **The iterations are a loop** with the budget of the settings. -/
theorem iterate_eq_run (f : SmoothObjective (Except (Fault α)) α) (settings : Settings α) :
    ∀ (left done : ℕ) (s : ConjugateGradient α), iterate f settings left done s =
      Loop.run (turn f settings) (.condition (.conjugateGradient settings.maxIterations)) left done s := by
  intro left
  induction left with
  | zero => intro done s; rfl
  | succ left ih =>
    intro done s
    unfold iterate
    dsimp only
    rw [observing_eq]
    cases hl : line f settings s with
    | error fault =>
      unfold line at hl
      rw [hl]
      show (if fault.isPoorlyConditioned then _ else _) = _
      by_cases h : fault.isPoorlyConditioned = true
      · rw [if_pos h, Loop.run_of_stop (turn_of_stalled hl h)]; rfl
      · rw [if_neg h, Loop.run_of_error (turn_of_fault hl h)]; rfl
    | ok p =>
      obtain ⟨there, value, gradient⟩ := p
      have hturn : turn f settings done s = _ := turn_of_minimum hl
      unfold line at hl
      rw [hl]
      show ((ensure (checkFinite value gradient) : Except (Fault α) Unit) >>= fun _ => _) = _
      rw [ensure_eq, checkFinite_eq]
      show (match s.judge settings.tolerance there.origin value gradient with
        | .stop reason => Except.ok (Minimum.mk there.origin value (done + 1) reason)
        | .proceed next => iterate f settings left (done + 1) next) = _
      cases hj : s.judge settings.tolerance there.origin value gradient with
      | stop reason =>
        rw [hj] at hturn
        rw [Loop.run_of_stop hturn]
      | proceed next =>
        rw [hj] at hturn
        rw [Loop.run_of_proceed hturn]
        exact ih (done + 1) next

/-- An iteration goes on from a line with a minimum, by the rule. -/
theorem turn_eq_proceed : turn f settings done s = .ok (.proceed s') ↔
    ∃ there value gradient, line f settings s = .ok (there, value, gradient) ∧
      s.judge settings.tolerance there.origin value gradient = .proceed s' := by
  constructor
  · intro h
    cases hl : line f settings s with
    | error fault =>
      by_cases hpoor : fault.isPoorlyConditioned = true
      · rw [turn_of_stalled hl hpoor] at h; cases h
      · rw [turn_of_fault hl hpoor] at h; cases h
    | ok p =>
      obtain ⟨there, value, gradient⟩ := p
      rw [turn_of_minimum hl] at h
      cases hj : s.judge settings.tolerance there.origin value gradient with
      | stop reason => rw [hj] at h; cases h
      | proceed next => rw [hj] at h; cases h; exact ⟨there, value, gradient, rfl, hj⟩
  · rintro ⟨there, value, gradient, hl, hj⟩
    rw [turn_of_minimum hl, hj]

/-- **The rule goes on only while the value falls** by more than a fraction of its largest fall. -/
theorem judge_proceed_falls {tolerance value : α} {point gradient : Components α}
    (h : s.judge tolerance point value gradient = .proceed s') :
    s'.largestDrop = max s.largestDrop (s.value - value) ∧
      tolerance * s'.largestDrop < s.value - value := by
  unfold judge at h
  dsimp only at h
  split_ifs at h with hdrop
  cases h
  rw [← Scalar.larger_eq_max]
  exact ⟨rfl, not_le.1 hdrop⟩

/-- A line from a place of the right length ends at a lower one, or for its numbers. -/
theorem line_ends (hf : f.Within Poor) (hc : f.Coherent) (htol : 0 < settings.lineTolerance)
    (hs : s.Coherent Poor f.toObjective top) :
    Ends Poor (fun p => f.Descent s.value p.1 p.2.1 ∧ f.valueAndGradient p.1.origin = .ok p.2)
      (line f settings s) := by
  have hfit : Ends Poor (fun _ => True) (Ray.check f.dimension ⟨s.point, usable s.conjugate⟩) := by
    rcases hs.sized with hall | hsize
    · exact Ends.of_all hall _
    · rw [Ray.check_eq_ok.2 ⟨hs.here.size, (size_usable _).trans hsize⟩]
      trivial
  exact f.descend_ends hf hc htol hfit hs.here.value

/-- **An iteration does not fail**, and where it goes on the next state is a place again. -/
theorem turn_ends (hf : f.Within Poor) (hc : f.Coherent) (htol : 0 < settings.lineTolerance)
    (hs : s.Coherent Poor f.toObjective top) (done : ℕ) :
    ∃ t, turn f settings done s = .ok t ∧
      ∀ next, t = .proceed next → next.Coherent Poor f.toObjective top := by
  have hline := line_ends hf hc htol hs
  cases hl : line f settings s with
  | error fault => exact ⟨_, turn_of_stalled hl (hline.of_error hl), nofun⟩
  | ok p =>
    obtain ⟨there, value, gradient⟩ := p
    obtain ⟨hdescent, hgradient⟩ := hline.of_ok hl
    have hat : f.At top there.origin value := hdescent.at hs.here.below
    have hturn : turn f settings done s = _ := turn_of_minimum hl
    cases hj : s.judge settings.tolerance there.origin value gradient with
    | stop reason =>
      rw [hj] at hturn
      exact ⟨_, hturn, nofun⟩
    | proceed next =>
      rw [hj] at hturn
      refine ⟨_, hturn, ?_⟩
      rintro _ ⟨⟩
      obtain ⟨hpoint, hvalue, hsize⟩ := judge_proceed hj
      refine ⟨by rw [hpoint, hvalue]; exact hat, ?_⟩
      rcases hf.sized with hall | hsz
      · exact .inl hall
      rcases hs.sized with hall | hcs
      · exact .inl hall
      · right
        rw [hsize, hsz _ _ _ hat.size hgradient, hcs, min_self]

/-- The places of a loop. -/
theorem coherent_of_begins (hf : f.Within Poor) (hc : f.Coherent) (htol : 0 < settings.lineTolerance)
    {first : ConjugateGradient α} (hfirst : first.Coherent Poor f.toObjective top)
    (h : Loop.Begins (turn f settings) first k s) : s.Coherent Poor f.toObjective top := by
  induction h with
  | first => exact hfirst
  | @next k s s' _ h ih =>
    obtain ⟨t, ht, hnext⟩ := turn_ends hf hc htol ih k
    rw [h] at ht
    cases ht
    exact hnext s' rfl

/-- **A row of accepted lines**: from the start on, each state is where a line from the one before it has
its minimum, and the rule went on from there. -/
structure Accepted (f : SmoothObjective (Except (Fault α)) α) (settings : Settings α)
    (start : Components α) (k : ℕ) (s : ℕ → ConjugateGradient α) : Prop where
  first : ∃ value gradient, f.valueAndGradient start = .ok (value, gradient) ∧
    s 0 = ⟨start, value, gradient.neg, gradient.neg, 0⟩
  line : ∀ j < k, ∃ there value gradient, line f settings (s j) = .ok (there, value, gradient) ∧
    (s j).judge settings.tolerance there.origin value gradient = .proceed (s (j + 1))

/-- By how much the line after the state lowers the value. -/
def fall (s : ℕ → ConjugateGradient α) (j : ℕ) : α := (s j).value - (s (j + 1)).value

namespace Accepted

variable {start : Components α} {s : ℕ → ConjugateGradient α}

/-- No fall was larger than the largest. -/
theorem fall_le (h : Accepted f settings start k s) : ∀ j ≤ k,
    0 ≤ (s j).largestDrop ∧ ∀ i < j, fall s i ≤ (s j).largestDrop := by
  intro j
  induction j with
  | zero =>
    intro _
    obtain ⟨value, gradient, -, h0⟩ := h.first
    rw [h0]
    exact ⟨le_rfl, fun i hi => absurd hi (Nat.not_lt_zero i)⟩
  | succ j ih =>
    intro hj
    obtain ⟨hnonneg, hle⟩ := ih (by omega)
    obtain ⟨there, value, gradient, -, hjudge⟩ := h.line j (by omega)
    have hvalue : (s (j + 1)).value = value := (judge_proceed hjudge).2.1
    have hlargest := (judge_proceed_falls hjudge).1
    rw [← hvalue] at hlargest
    rw [hlargest]
    refine ⟨hnonneg.trans (le_max_left _ _), fun i hi => ?_⟩
    rcases Nat.lt_succ_iff_lt_or_eq.1 hi with hij | rfl
    · exact (hle i hij).trans (le_max_left _ _)
    · exact le_max_right _ _

/-- **Every accepted line lowers the value**, by more than a fraction of the largest fall up to and
including its own. -/
theorem falls (h : Accepted f settings start k s) (htol : 0 < settings.tolerance) : ∀ j < k,
    (s (j + 1)).value < (s j).value ∧ ∀ i ≤ j, settings.tolerance * fall s i < fall s j := by
  intro j hj
  obtain ⟨hnonneg, hle⟩ := h.fall_le (j + 1) hj
  obtain ⟨there, value, gradient, -, hjudge⟩ := h.line j hj
  have hvalue : (s (j + 1)).value = value := (judge_proceed hjudge).2.1
  have hfall := (judge_proceed_falls hjudge).2
  rw [← hvalue] at hfall
  refine ⟨?_, fun i hi => ?_⟩
  · have hpos : 0 ≤ settings.tolerance * (s (j + 1)).largestDrop := mul_nonneg htol.le hnonneg
    exact sub_pos.1 (hpos.trans_lt hfall)
  · exact (mul_le_mul_of_nonneg_left (hle i (by omega)) htol.le).trans_lt hfall

/-- Iterations begin at the states of the row. -/
theorem begins (h : Accepted f settings start k s) {value : α} {gradient : Components α}
    (hv : f.valueAndGradient start = .ok (value, gradient)) : ∀ j ≤ k,
    Loop.Begins (turn f settings) ⟨start, value, gradient.neg, gradient.neg, 0⟩ j (s j) := by
  obtain ⟨_, _, hv', h0⟩ := h.first
  rw [hv] at hv'
  cases hv'
  exact Loop.begins_of_trail h0 fun j hj => turn_eq_proceed.2 (h.line j hj)

/-- Its states are places, no higher than the start. -/
theorem coherent (h : Accepted f settings start k s) (hf : f.Within Poor) (hc : f.Coherent)
    (htol : 0 < settings.lineTolerance) (hsize : start.size = f.dimension) {value : α}
    {gradient : Components α} (hv : f.valueAndGradient start = .ok (value, gradient)) :
    ∀ j ≤ k, (s j).Coherent Poor f.toObjective value := by
  intro j hj
  refine coherent_of_begins hf hc htol ⟨⟨hsize, hc _ _ _ hv, le_rfl⟩, ?_⟩ (h.begins hv j hj)
  exact hf.sized.imp_right fun hsized => (Components.size_neg _).trans (hsized _ _ _ hsize hv)

end Accepted

/-- **The loop of a minimization.** From a start that passes the check and has a gradient it is the loop
that begins there. -/
theorem minimizeByGradients_eq_run {start gradient : Components α} {value : α}
    (hstart : checkStart f.dimension start settings = .ok ())
    (hv : f.valueAndGradient start = .ok (value, gradient)) :
    f.minimizeByGradients start settings =
      Loop.run (turn f settings) (.condition (.conjugateGradient settings.maxIterations))
        settings.maxIterations 0 ⟨start, value, gradient.neg, gradient.neg, 0⟩ := by
  unfold SmoothObjective.minimizeByGradients
  rw [ensure_eq, hstart, hv]
  show ((ensure (checkFinite value gradient) : Except (Fault α) Unit) >>= fun _ => _) = _
  rw [ensure_eq, checkFinite_eq]
  exact iterate_eq_run f settings _ _ _

/-- A state at which an iteration begins is the last one of a row of accepted lines. -/
theorem accepted_of_begins {start gradient : Components α} {value : α} {t : ConjugateGradient α}
    (hv : f.valueAndGradient start = .ok (value, gradient))
    (h : Loop.Begins (turn f settings) ⟨start, value, gradient.neg, gradient.neg, 0⟩ k t) :
    ∃ s, Accepted f settings start k s ∧ s k = t := by
  obtain ⟨s, h0, hk, hturn⟩ := h.trail
  exact ⟨s, ⟨⟨value, gradient, hv, h0⟩, fun j hj => turn_eq_proceed.1 (hturn j hj)⟩, hk⟩

end ConjugateGradient

namespace StepEnergy

open ConjugateGradient (Accepted line fall)

variable {f : StepEnergy α} {initial start : Components α} {dt : α} {terms : List (Term α)}

/-- **Conjugate gradients on the energy of a step fail only while they make progress.** Let the step have
something to vary and terms whose positions some state can have, let the start have its dimension, and let
the settings make sense. There is no result
exactly when a row of accepted lines from the start is as long as the budget, and then the fault says
that the budget is spent. In such a row each state comes with its energy, and each line lowers the energy,
by more than the tolerance times the largest fall up to and including its own. A line without a minimum
gives a result: the point and the energy that the row before it ended with. -/
theorem gradients_fail_progressing (hmake : make initial dt terms = .ok f)
    (haddressable : ∀ t ∈ f.terms, Placed.Addressable t) (hn : 0 < f.dimension)
    (hsize : start.size = f.dimension) (hset : settings.check = .ok ()) :
    (∀ fault, f.objective.minimizeByGradients start settings = .error fault ↔
      fault = .condition (.conjugateGradient settings.maxIterations) ∧
        ∃ s, Accepted f.objective settings start settings.maxIterations s) ∧
    (∀ k s, Accepted f.objective settings start k s →
      (∀ j ≤ k, (s j).point.size = f.dimension ∧ f.objective.value (s j).point = .ok (s j).value) ∧
      ∀ j < k, (s (j + 1)).value < (s j).value ∧ ∀ i ≤ j, settings.tolerance * fall s i < fall s j) ∧
    (∀ k s fault, k < settings.maxIterations → Accepted f.objective settings start k s →
      line f.objective settings (s k) = .error fault →
        f.objective.minimizeByGradients start settings =
          .ok ⟨(s k).point, (s k).value, k + 1, .lineSearchStalled⟩) := by
  have hfit := (built_of_make hmake).fitsIn haddressable
  have hwithin := objective_within hfit
  have hcoherent := f.objective_coherent
  obtain ⟨htol, hline, -, -⟩ := Settings.check_eq_ok.1 hset
  have hstart : checkStart f.objective.dimension start settings = .ok () :=
    checkStart_eq_ok.2 ⟨hn, hsize, hset⟩
  obtain ⟨⟨value, gradient⟩, hv⟩ : ∃ p, f.objective.valueAndGradient start = .ok p :=
    ⟨_, evaluate_of_fits hsize hfit⟩
  have hrun := ConjugateGradient.minimizeByGradients_eq_run hstart hv
  -- the start is a place, so every state of a row is one
  have hplace : ∀ {k s}, Accepted f.objective settings start k s → ∀ j ≤ k,
      (s j).Coherent Poor f.objective.toObjective value :=
    fun hs => hs.coherent hwithin hcoherent hline hsize hv
  refine ⟨fun fault => ?_, fun k s hs => ⟨fun j hj => ?_, hs.falls htol⟩, fun k s fault hk hs hl => ?_⟩
  · rw [hrun, Loop.run_eq_error]
    constructor
    · rintro (⟨k, -, t, ht, hfault⟩ | ⟨rfl, t, ht⟩)
      · -- no iteration fails
        obtain ⟨s, hs, rfl⟩ := ConjugateGradient.accepted_of_begins hv ht
        obtain ⟨_, hturn, -⟩ :=
          ConjugateGradient.turn_ends hwithin hcoherent hline (hplace hs k le_rfl) k
        rw [hfault] at hturn
        cases hturn
      · obtain ⟨s, hs, -⟩ := ConjugateGradient.accepted_of_begins hv ht
        exact ⟨rfl, s, hs⟩
    · rintro ⟨rfl, s, hs⟩
      exact .inr ⟨rfl, _, hs.begins hv _ le_rfl⟩
  · exact ⟨(hplace hs j hj).here.size, (hplace hs j hj).here.value⟩
  · have hpoor : fault.isPoorlyConditioned = true :=
      (ConjugateGradient.line_ends hwithin hcoherent hline (hplace hs k le_rfl)).of_error hl
    rw [hrun, Loop.run_eq_ok]
    exact ⟨k, hk, s k, hs.begins hv k le_rfl, ConjugateGradient.turn_of_stalled hl hpoor⟩

deriving instance DecidableEq for Ray, ConjugateGradient, ConjugateGradient.Verdict

/-- A point that moves freely, with one law and little accuracy in its lines. -/
def drift : StepEnergy ℚ := ⟨#[0, 1], 1, [⟨.position ⟨⟨0⟩, ⟨1⟩⟩, ⟨1, 1, 1, 199 / 500⟩⟩]⟩

/-- Settings with one expansion a line. -/
def frugal (budget : ℕ) : Settings ℚ := ⟨.conjugateGradient, 1 / 1000, 1, budget, 1⟩

/-- The first line of the drift, and the state after it. -/
def drifts : ℕ → ConjugateGradient ℚ
  | 0 => ⟨#[0, 1], 199 / 500, #[199 / 250, -199 / 500], #[199 / 250, -199 / 500], 0⟩
  | _ => ⟨#[199 / 250, 301 / 500], 199 / 20000000, #[199 / 50000, -199 / 100000],
      #[199 / 10000000, -199 / 20000000], 7959801 / 20000000⟩

/-- One iteration is not enough for the drift, though its line has lowered the energy. With a second one
there is a result, since the second line has no minimum within one expansion. -/
theorem gradients_fail_progressing_drift :
    drift.objective.minimizeByGradients #[0, 1] (frugal 1) = .error (.condition (.conjugateGradient 1)) ∧
    199 / 20000000 < (199 / 500 : ℚ) ∧
    drift.objective.minimizeByGradients #[0, 1] (frugal 2) =
      .ok ⟨#[199 / 250, 301 / 500], 199 / 20000000, 2, .lineSearchStalled⟩ := by
  have hmake : make #[0, 1] 1 drift.terms = .ok drift :=
    make_eq_ok.2 ⟨one_pos, by decide +kernel, rfl⟩
  have hrow : ∀ budget, Accepted drift.objective (frugal budget) #[0, 1] 1 drifts := by
    intro budget
    refine ⟨⟨_, _, (by decide +kernel : drift.objective.valueAndGradient #[0, 1] =
      .ok (199 / 500, #[-199 / 250, 199 / 500])), by decide +kernel⟩, fun j hj => ?_⟩
    obtain rfl : j = 0 := by omega
    refine ⟨⟨#[199 / 250, 301 / 500], #[199 / 250, -199 / 500]⟩, 199 / 20000000,
      #[-199 / 50000, 199 / 100000], ?_, ?_⟩
    · show line drift.objective (frugal 0) (drifts 0) = _
      decide +kernel
    · show (drifts 0).judge (1 / 1000) #[199 / 250, 301 / 500] (199 / 20000000) _ = .proceed (drifts 1)
      decide +kernel
  obtain ⟨hfail, hfalls, -⟩ := gradients_fail_progressing hmake (by decide) (by decide) rfl
    (by decide +kernel : (frugal 1).check = .ok ())
  obtain ⟨-, -, hstall⟩ := gradients_fail_progressing hmake (by decide) (by decide) rfl
    (by decide +kernel : (frugal 2).check = .ok ())
  have hsecond : (line drift.objective (frugal 2) (drifts 1)).isOk = false := by decide +kernel
  cases hl : line drift.objective (frugal 2) (drifts 1) with
  | ok p => rw [hl] at hsecond; cases hsecond
  | error fault =>
    exact ⟨(hfail _).2 ⟨rfl, drifts, hrow 1⟩, ((hfalls 1 drifts (hrow 1)).2 0 one_pos).1,
      hstall 1 drifts fault one_lt_two (hrow 2) hl⟩

/-- On a step that could be made they fail before the first line: a position is beyond all states. -/
theorem gradients_fail_beyond : make #[0, 0] (1 / 2) [Term.beyond] = .ok beyond ∧
    (Settings.standard : Settings ℚ).check = .ok () ∧
    beyond.objective.minimizeByGradients #[0, 0] Settings.standard = .error (.index (2 ^ 64 - 1) 2) :=
  ⟨make_beyond, by decide +kernel, by decide +kernel⟩

end StepEnergy
end EnergyStep
