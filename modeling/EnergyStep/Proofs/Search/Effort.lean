import EnergyStep.Proofs.Recording
import EnergyStep.Proofs.Search.InPlace

/-!
# The effort of a line search

What a search costs is the evaluations of the objective that it asks for, also those that fail. They are
counted in a record beside the search, which runs as before. In whatever arithmetic, a budget bounds them,
and the iterations that a result reports are the evaluations behind it, up to those that are made before the
first and after the last iteration.

* `Calls`, `metered`: how often an objective has been evaluated, and an evaluation that is counted.
* `Costs`: how an evaluation ends and what it costs; `Costs.bind_le`: one evaluation after another.
* `Bracket.expand_costs`, `Bracket.find_costs`: the walk downhill, at most two evaluations for a step.
* `Parabolic.minimize_costs`, `Secant.minimize_costs`: the searches in a bracket, one for a round.
* `Objective.descend_costs`, `SmoothObjective.descend_costs`: the minimization on a line.
* `line_search_effort`: all of them together.
-/

namespace EnergyStep

/-- How often an objective has been evaluated: for its value alone, and for value and gradient. -/
@[ext] structure Calls where
  values : ℕ
  gradients : ℕ
deriving DecidableEq

namespace Calls

instance : Zero Calls := ⟨⟨0, 0⟩⟩

instance : Add Calls := ⟨fun j k => ⟨j.values + k.values, j.gradients + k.gradients⟩⟩

/-- No more of either kind. -/
instance : LE Calls := ⟨fun j k => j.values ≤ k.values ∧ j.gradients ≤ k.gradients⟩

/-- One evaluation for the value. -/
def value : Calls := ⟨1, 0⟩

/-- One evaluation for value and gradient. -/
def gradient : Calls := ⟨0, 1⟩

variable {j j' k k' : Calls}

@[simp] theorem values_zero : (0 : Calls).values = 0 := rfl

@[simp] theorem gradients_zero : (0 : Calls).gradients = 0 := rfl

@[simp] theorem values_add : (j + k).values = j.values + k.values := rfl

@[simp] theorem gradients_add : (j + k).gradients = j.gradients + k.gradients := rfl

theorem zero_le (k : Calls) : 0 ≤ k := ⟨Nat.zero_le _, Nat.zero_le _⟩

theorem le_trans (h : j ≤ k) (h' : k ≤ k') : j ≤ k' := ⟨h.1.trans h'.1, h.2.trans h'.2⟩

theorem le_add_right (h : j ≤ k) : j ≤ k + k' :=
  ⟨h.1.trans (Nat.le_add_right _ _), h.2.trans (Nat.le_add_right _ _)⟩

theorem add_le_add (h : j ≤ k) (h' : j' ≤ k') : j + j' ≤ k + k' :=
  ⟨Nat.add_le_add h.1 h'.1, Nat.add_le_add h.2 h'.2⟩

theorem add_assoc (j k k' : Calls) : j + k + k' = j + (k + k') := by
  ext <;> simp [Nat.add_assoc]

end Calls

variable {α β γ δ : Type}

/-- The function with each of its evaluations counted as `one`. -/
def metered (one : Calls) (f : γ → Except (Fault α) β) (x : γ) : Recording Calls α β := do
  modify (· + one)
  liftExcept (f x)

/-- **What an evaluation costs.** The evaluation `r` ends as `s` does, whatever has been counted before; it
costs no more than `most`, and with a result `b` a number `k` of calls such that `post b k`. -/
def Costs (most : Calls) (post : β → Calls → Prop) (r : Recording Calls α β) (s : Except (Fault α) β) :
    Prop :=
  ∃ k ≤ most, (∀ before, r.ran before = (s, before + k)) ∧ ∀ b, s = .ok b → post b k

namespace Costs

variable {most total : Calls} {post : β → Calls → Prop} {post' : γ → Calls → Prop}
  {r : Recording Calls α β} {s : Except (Fault α) β}

theorem pure {b : β} (h : post b 0) :
    Costs most post (Pure.pure b : Recording Calls α β) (Pure.pure b) :=
  ⟨0, Calls.zero_le _, fun _ => rfl, by rintro _ ⟨⟩; exact h⟩

theorem throw (e : Fault α) : Costs most post (MonadExcept.throw e) (MonadExcept.throw e) :=
  ⟨0, Calls.zero_le _, fun _ => rfl, by rintro _ ⟨⟩⟩

/-- A precondition costs nothing. -/
theorem lift (s : Except (Fault α) β) :
    Costs 0 (fun _ k => k = 0) (liftExcept s : Recording Calls α β) (liftExcept s) := by
  rw [liftExcept_eq]
  exact ⟨0, Calls.zero_le _, fun before => Recording.ran_liftExcept s, fun _ _ => rfl⟩

theorem mono (h : Costs most post r s) (hle : most ≤ total) {post' : β → Calls → Prop}
    (hp : ∀ b k, s = .ok b → k ≤ most → post b k → post' b k) : Costs total post' r s := by
  obtain ⟨k, hk, hran, hpost⟩ := h
  exact ⟨k, Calls.le_trans hk hle, hran, fun b hb => hp b k hb hk (hpost b hb)⟩

/-- With a result, too, no more than `most` has been counted. -/
theorem and_le (h : Costs most post r s) : Costs most (fun b k => post b k ∧ k ≤ most) r s :=
  h.mono ⟨le_rfl, le_rfl⟩ fun _ _ _ hk hpost => ⟨hpost, hk⟩

/-- **One evaluation after another**: the second is made if the first has a result, and what the first has
cost is added. -/
theorem bind_le {f : β → Recording Calls α γ} {g : β → Except (Fault α) γ} (h : Costs most post r s)
    (rest : Calls) (hf : ∀ b i, s = .ok b → post b i → Costs rest (fun c k => post' c (i + k)) (f b) (g b))
    (hle : most + rest ≤ total) : Costs total post' (r >>= f) (s >>= g) := by
  obtain ⟨i, hi, hran, hpost⟩ := h
  cases s with
  | error e =>
    refine ⟨i, Calls.le_trans (Calls.le_add_right hi) hle, fun before => ?_, by rintro _ ⟨⟩⟩
    rw [Recording.ran_bind, hran]
    rfl
  | ok b =>
    obtain ⟨k, hk, hran', hpost'⟩ := hf b i rfl (hpost b rfl)
    refine ⟨i + k, Calls.le_trans (Calls.add_le_add hi hk) hle, fun before => ?_, hpost'⟩
    rw [Recording.ran_bind, hran]
    dsimp only
    rw [hran', Calls.add_assoc]
    rfl

end Costs

/-- Each evaluation of `f'` is one of `f`, and is counted as `one`. -/
def Meters (one : Calls) (f' : δ → Recording Calls α β) (f : δ → Except (Fault α) β) : Prop :=
  ∀ x, Costs one (fun _ k => k = one) (f' x) (f x)

theorem meters_metered (one : Calls) (f : δ → Except (Fault α) β) : Meters one (metered one f) f := by
  refine fun x => ⟨one, ⟨le_rfl, le_rfl⟩, fun before => ?_, fun _ _ => rfl⟩
  unfold metered
  rw [Recording.ran_bind, Recording.ran_modify]
  exact Recording.ran_liftExcept _

variable [Scalar α]

section Values

variable {f' : α → Recording Calls α α} {f : α → Except (Fault α) α}

/-- A probe is one evaluation, or none if the place is out of range. -/
theorem probe_costs (hf : Meters .value f' f) (x : α) :
    Costs .value (fun _ k => k = .value) (probe f' x) (probe f x) := by
  unfold probe
  split_ifs
  · refine (hf x).bind_le 0 (fun v k _ hk => ?_) ⟨le_rfl, le_rfl⟩
    split_ifs
    · exact .pure hk
    · exact .throw _
  · exact .throw _

namespace Bracket

/-- **A step downhill** is two evaluations at most. -/
theorem expand_costs (hf : Meters .value f' f) (t : Bracket α) :
    Costs ⟨2, 0⟩ (fun _ _ => True) (expand f' t) (expand f t) := by
  -- the last evaluation of a step
  have last : ∀ x (next : Sample α → Expansion α), Costs .value (fun _ _ => True)
      (probe f' x >>= fun s => pure (next s)) (probe f x >>= fun s => pure (next s)) :=
    fun x next => (probe_costs hf x).bind_le 0 (fun _ _ _ _ => .pure trivial) ⟨le_rfl, le_rfl⟩
  have one_le : Calls.value ≤ ⟨2, 0⟩ := ⟨Nat.le_succ 1, le_rfl⟩
  unfold expand
  dsimp only
  -- a place between `b` and `c` or on to the limit may be followed by another, one beyond or a golden step not
  split_ifs
  · refine (probe_costs hf _).bind_le .value (fun s _ _ _ => ?_) ⟨le_rfl, le_rfl⟩
    split_ifs
    · exact .pure trivial
    · exact .pure trivial
    · exact last _ _
  · refine (probe_costs hf _).bind_le .value (fun s _ _ _ => ?_) ⟨le_rfl, le_rfl⟩
    split_ifs
    · exact last _ _
    · exact .pure trivial
  · exact (last _ _).mono one_le fun _ _ _ _ h => h
  · exact (last _ _).mono one_le fun _ _ _ _ h => h

/-- **The walk downhill** is two evaluations at most for each step that is left. -/
theorem close_costs (hf : Meters .value f' f) (budget : ℕ) : ∀ left (t : Bracket α),
    Costs ⟨2 * left, 0⟩ (fun _ _ => True) (close f' budget left t) (close f budget left t) := by
  intro left
  induction left with
  | zero =>
    intro t
    unfold close
    split_ifs
    · exact .throw _
    · exact .pure trivial
  | succ left ih =>
    intro t
    unfold close
    split_ifs
    · refine (expand_costs hf t).bind_le ⟨2 * left, 0⟩ (fun r _ _ _ => ?_) ⟨(Nat.add_comm _ _).le, le_rfl⟩
      cases r with
      | closed t' => exact .pure trivial
      | moved t' => exact ih t'
    · exact .pure trivial

/-- The first three samples. -/
theorem start_costs (hf : Meters .value f' f) (x₁ x₂ : α) :
    Costs ⟨3, 0⟩ (fun _ k => k = ⟨3, 0⟩) (start f' x₁ x₂) (start f x₁ x₂) := by
  refine (probe_costs hf x₁).bind_le ⟨2, 0⟩ (fun s₁ i₁ _ h₁ => ?_) ⟨le_rfl, le_rfl⟩
  refine (probe_costs hf x₂).bind_le .value (fun s₂ i₂ _ h₂ => ?_) ⟨le_rfl, le_rfl⟩
  -- the third place depends on which seed is lower
  split_ifs
  all_goals
    refine (probe_costs hf _).bind_le 0 (fun s i _ h => .pure ?_) ⟨le_rfl, le_rfl⟩
    rw [h₁, h₂, h]
    rfl

/-- **Bracketing** is three evaluations and two for each step of the budget, at most; a bracket that is
found is three at least. -/
theorem find_costs (hf : Meters .value f' f) (x₁ x₂ : α) (budget : ℕ) :
    Costs ⟨3 + 2 * budget, 0⟩ (fun _ k => 3 ≤ k.values) (find f' x₁ x₂ budget) (find f x₁ x₂ budget) := by
  unfold find
  by_cases hfinite : (Scalar.isFinite x₁ && Scalar.isFinite x₂) = true
  · by_cases hsame : Scalar.same x₁ x₂ = true
    · simp only [if_pos hfinite, if_pos hsame]
      exact .throw _
    · simp only [if_pos hfinite, if_neg hsame]
      refine (start_costs hf x₁ x₂).bind_le ⟨2 * budget, 0⟩ (fun t i _ hi => ?_) ⟨le_rfl, le_rfl⟩
      refine (close_costs hf budget budget t).mono ⟨le_rfl, le_rfl⟩ fun _ k _ _ _ => ?_
      rw [hi]
      exact Nat.le_add_right 3 _
  · simp only [if_neg hfinite]
    exact .throw _

/-- A function that falls less and less makes the most of the budget. -/
example : ((find (metered .value fun x : ℚ => (.ok (1 / (x + 1)) : Except (Fault ℚ) ℚ)) 0 1 2).ran 0).2 =
    ⟨7, 0⟩ := by
  decide +kernel

end Bracket

/-- From a round on: one evaluation for each that is left, at most. -/
theorem Parabolic.rounds_costs (hf : Meters .value f' f) (tolerance : α) :
    ∀ left done (s : Parabolic α), Costs ⟨left, 0⟩ (fun m k => m.iterations = done + k.values)
      (rounds f' tolerance left done s) (rounds f tolerance left done s) := by
  intro left
  induction left with
  | zero => intro done s; exact .throw _
  | succ left ih =>
    intro done s
    unfold rounds
    split_ifs
    · exact .pure rfl
    · refine (probe_costs hf _).bind_le ⟨left, 0⟩ (fun u i _ hi => ?_) ⟨(Nat.add_comm _ _).le, le_rfl⟩
      refine (ih (done + 1) _).mono ⟨le_rfl, le_rfl⟩ fun m k _ _ hm => ?_
      rw [hm, hi, Calls.values_add]
      exact Nat.add_assoc ..

/-- **The search by values** is one evaluation for each iteration. -/
theorem Parabolic.minimize_costs (hf : Meters .value f' f) (t : Bracket α) (tolerance : α) :
    Costs ⟨searchRounds, 0⟩ (fun m k => k.values = m.iterations)
      (minimize f' t tolerance) (minimize f t tolerance) := by
  unfold minimize
  refine (Costs.lift _).bind_le ⟨searchRounds, 0⟩ (fun _ i _ hi => ?_) ⟨(Nat.zero_add _).le, le_rfl⟩
  refine (rounds_costs hf tolerance searchRounds 0 _).mono ⟨le_rfl, le_rfl⟩ fun m k _ _ hm => ?_
  rw [hm, hi, Calls.values_add, Calls.values_zero]

end Values

namespace Secant

variable {f' : α → Recording Calls α (α × α)} {f : α → Except (Fault α) (α × α)}

theorem probeSlope_costs (hf : Meters .gradient f' f) (x : α) :
    Costs .gradient (fun _ k => k = .gradient) (probeSlope f' x) (probeSlope f x) := by
  unfold probeSlope
  split_ifs
  · refine (hf x).bind_le 0 (fun v k _ hk => ?_) ⟨le_rfl, le_rfl⟩
    dsimp only
    split_ifs
    · exact .pure hk
    · exact .throw _
  · exact .throw _

/-- From a round on: one evaluation for each that is left, at most, through both ways to end. -/
theorem rounds_costs (hf : Meters .gradient f' f) (tolerance : α) :
    ∀ left done (s : Secant α), Costs ⟨0, left⟩ (fun m k => m.iterations = done + k.gradients)
      (rounds f' tolerance left done s) (rounds f tolerance left done s) := by
  intro left
  induction left with
  | zero => intro done s; exact .throw _
  | succ left ih =>
    intro done s
    unfold rounds
    split_ifs
    · exact .pure rfl
    · refine (probeSlope_costs hf _).bind_le ⟨0, left⟩ (fun u i _ hi => ?_) ⟨le_rfl, (Nat.add_comm _ _).le⟩
      subst hi
      split_ifs
      · -- a minimal step uphill ends the search in an iteration that counts
        exact .pure rfl
      · refine (ih (done + 1) _).mono ⟨le_rfl, le_rfl⟩ fun m k _ _ hm => ?_
        rw [hm, Calls.gradients_add]
        exact Nat.add_assoc ..

/-- **The search by values and slopes** is one evaluation for each iteration, and one before the first. -/
theorem minimize_costs (hf : Meters .gradient f' f) (t : Bracket α) (tolerance : α) :
    Costs ⟨0, searchRounds + 1⟩ (fun m k => k.gradients = m.iterations + 1)
      (minimize f' t tolerance) (minimize f t tolerance) := by
  unfold minimize
  refine (Costs.lift _).bind_le ⟨0, searchRounds + 1⟩ (fun _ i _ hi => ?_) ⟨le_rfl, (Nat.zero_add _).le⟩
  refine (probeSlope_costs hf _).bind_le ⟨0, searchRounds⟩ (fun b j _ hj => ?_)
    ⟨le_rfl, (Nat.add_comm _ _).le⟩
  refine (rounds_costs hf tolerance searchRounds 0 _).mono ⟨le_rfl, le_rfl⟩ fun m k _ _ hm => ?_
  subst hi hj
  simp only [Calls.gradients_add, Calls.gradients_zero, hm]
  show 0 + (1 + k.gradients) = 0 + k.gradients + 1
  omega

end Secant

/-- The objective with its evaluations counted. -/
def Objective.metered (f : Objective (Except (Fault α)) α) : Objective (Recording Calls α) α where
  dimension := f.dimension
  value := EnergyStep.metered .value f.value

/-- The objective with its evaluations counted, those with a gradient apart. -/
def SmoothObjective.metered (f : SmoothObjective (Except (Fault α)) α) :
    SmoothObjective (Recording Calls α) α where
  toObjective := f.toObjective.metered
  valueAndGradient := EnergyStep.metered .gradient f.valueAndGradient

section Descend

variable (search : LineSearch α) (r : Ray α)

namespace Objective

variable (f : Objective (Except (Fault α)) α)

theorem meters_along : Meters .value (f.metered.along r) (f.along r) :=
  fun w => meters_metered .value f.value (r.point w)

theorem bracketAlong_costs : Costs ⟨3 + 2 * search.maxExpansions, 0⟩ (fun _ k => 3 ≤ k.values)
    (f.metered.bracketAlong search r) (f.bracketAlong search r) := by
  refine (Costs.lift _).bind_le ⟨3 + 2 * search.maxExpansions, 0⟩ (fun _ i _ hi => ?_)
    ⟨(Nat.zero_add _).le, le_rfl⟩
  refine (Bracket.find_costs (f.meters_along r) 0 1 _).mono ⟨le_rfl, le_rfl⟩ fun _ k _ _ hk => ?_
  rw [hi, Calls.values_add]
  exact hk.trans (Nat.le_add_left _ _)

/-- **The minimization on a line** is a bracket and a search in it. -/
theorem descend_costs : Costs ⟨3 + 2 * search.maxExpansions + searchRounds, 0⟩
    (fun _ k => ∃ m, f.minimumAlong search r = .ok m ∧ m.iterations + 3 ≤ k.values)
    (f.metered.descend search r) (f.descend search r) := by
  refine (f.bracketAlong_costs search r).bind_le ⟨searchRounds, 0⟩ (fun t i ht hi => ?_) ⟨le_rfl, le_rfl⟩
  refine (Parabolic.minimize_costs (f.meters_along r) t search.tolerance).bind_le 0
    (fun m k hm hk => .pure ?_) ⟨le_rfl, le_rfl⟩
  refine ⟨m, bind_eq_ok.2 ⟨t, ht, hm⟩, ?_⟩
  rw [Calls.values_add, Calls.values_add, hk, Calls.values_zero]
  omega

end Objective

namespace SmoothObjective

variable (f : SmoothObjective (Except (Fault α)) α)

theorem meters_alongWithSlope : Meters .gradient (f.metered.alongWithSlope r) (f.alongWithSlope r) :=
  fun w => (meters_metered .gradient f.valueAndGradient (r.point w)).bind_le 0
    (fun _ _ _ hk => .pure hk) ⟨le_rfl, le_rfl⟩

/-- **The minimization on a line with slopes** is a bracket, found by values alone, a search in it, and one
evaluation where it ends. -/
theorem descend_costs : Costs ⟨3 + 2 * search.maxExpansions, searchRounds + 2⟩
    (fun _ k => ∃ m, f.minimumAlong search r = .ok m ∧ k.gradients = m.iterations + 2)
    (f.metered.descend search r) (f.descend search r) := by
  refine (f.bracketAlong_costs search r).and_le.bind_le ⟨0, searchRounds + 2⟩ (fun t i ht hi => ?_)
    ⟨le_rfl, (Nat.zero_add _).le⟩
  obtain ⟨-, -, hi⟩ := hi
  refine (Secant.minimize_costs (f.meters_alongWithSlope r) t search.tolerance).bind_le .gradient
    (fun m j hm hj => ?_) ⟨le_rfl, le_rfl⟩
  refine (meters_metered .gradient f.valueAndGradient _).bind_le 0 (fun _ k _ hk => .pure ?_)
    ⟨le_rfl, le_rfl⟩
  refine ⟨m, bind_eq_ok.2 ⟨t, ht, hm⟩, ?_⟩
  simp only [Calls.gradients_add, Calls.gradients_zero, Nat.le_zero.1 hi, hj, hk]
  show 0 + (m.iterations + 1 + (1 + 0)) = m.iterations + 2
  omega

end SmoothObjective

end Descend

/-- **The effort of a line search**, for any functions and objectives and from any input, with a result or
without. Bracketing is at most three evaluations and two for each step of its budget, and at least three if
it finds a bracket. The search by values is one for each iteration, of which there are at most 200; the
search with slopes is one more, and never one for a value alone. So the minimization on a line with slopes
is at most 202 evaluations with a gradient, and with a result two more than the search reports iterations. -/
theorem line_search_effort (value : α → Except (Fault α) α) (slope : α → Except (Fault α) (α × α))
    (f : SmoothObjective (Except (Fault α)) α) (x₁ x₂ tolerance : α) (budget : ℕ) (t : Bracket α)
    (search : LineSearch α) (r : Ray α) :
    Costs ⟨3 + 2 * budget, 0⟩ (fun _ k => 3 ≤ k.values)
      (Bracket.find (metered .value value) x₁ x₂ budget) (Bracket.find value x₁ x₂ budget) ∧
    Costs ⟨200, 0⟩ (fun m k => k.values = m.iterations)
      (Parabolic.minimize (metered .value value) t tolerance) (Parabolic.minimize value t tolerance) ∧
    Costs ⟨0, 201⟩ (fun m k => k.gradients = m.iterations + 1)
      (Secant.minimize (metered .gradient slope) t tolerance) (Secant.minimize slope t tolerance) ∧
    Costs ⟨3 + 2 * search.maxExpansions, 202⟩
      (fun _ k => ∃ m, f.minimumAlong search r = .ok m ∧ k.gradients = m.iterations + 2)
      (f.metered.descend search r) (f.descend search r) :=
  ⟨Bracket.find_costs (meters_metered .value value) x₁ x₂ budget,
    Parabolic.minimize_costs (meters_metered .value value) t tolerance,
    Secant.minimize_costs (meters_metered .gradient slope) t tolerance, f.descend_costs search r⟩

/-- Down into the chipped bowl: five evaluations with a gradient, so three iterations. -/
theorem line_search_effort_chipped :
    ((chippedBowl.metered.descend chippedSearch ⟨#[0], #[3 / 2]⟩).ran 0).2 = ⟨3, 5⟩ ∧
    ∃ m, chippedBowl.minimumAlong chippedSearch ⟨#[0], #[3 / 2]⟩ = .ok m ∧ m.iterations = 3 := by
  have hcalls : ((chippedBowl.metered.descend chippedSearch ⟨#[0], #[3 / 2]⟩).ran 0).2 = ⟨3, 5⟩ := by
    decide +kernel
  have hok : (chippedBowl.descend chippedSearch ⟨#[0], #[3 / 2]⟩).isOk = true := by decide +kernel
  refine ⟨hcalls, ?_⟩
  obtain ⟨-, -, -, k, -, hran, hpost⟩ := line_search_effort (chippedBowl.along ⟨#[0], #[3 / 2]⟩)
    (chippedBowl.alongWithSlope ⟨#[0], #[3 / 2]⟩) chippedBowl 0 1 (1 / 4) 5
    ⟨⟨0, 4⟩, ⟨1, 1 / 4⟩, ⟨2, 1⟩⟩ chippedSearch ⟨#[0], #[3 / 2]⟩
  rw [hran] at hcalls
  have hfive : 0 + k.gradients = 5 := congrArg Calls.gradients hcalls
  cases hd : chippedBowl.descend chippedSearch ⟨#[0], #[3 / 2]⟩ with
  | error e => rw [hd] at hok; cases hok
  | ok p =>
    obtain ⟨m, hm, hk⟩ := hpost p hd
    exact ⟨m, hm, by omega⟩

end EnergyStep
