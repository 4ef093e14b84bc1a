import EnergyStep.Proofs.Law.Difference
import EnergyStep.Proofs.Minimize.Iterations
import EnergyStep.Proofs.Search.Parabola
import EnergyStep.Proofs.Solver.Rest

/-!
# Direction sets from a state that leaves nothing

Where nothing is left of the energy every violation is zero. Along one component it is then a multiple of
the way, and the energy a parabola with its bottom there. Lines along the components are left where they
are, so a sweep over them changes nothing, going on promises nothing, and the iterations end with the first
that may be the last.

* `Objective.SettledAt`: a point at which lines along the components are parabolas.
* `Objective.SettledAt.sweep_eq`: a sweep, by induction on the directions.
* `Objective.SettledAt.iterate_eq`: the iterations, by induction on the budget.
* `Objective.SettledAt.minimizeByDirections_eq`: a minimization whose first sweep comes to the point.
* `StepEnergy.energyAt_moved`: the energy along one component.
* `StepEnergy.settledAt`: the states that an energy is settled at.
-/

namespace EnergyStep

variable {α : Type} [Exact α] {settings : Settings α} {search : LineSearch α} {p : Components α}

/-- **Settled at a point**: nothing is left there, and along each component the objective is a parabola
with its bottom at the point. -/
structure Objective.SettledAt (f : Objective (Except (Fault α)) α) (p : Components α) : Prop where
  size : p.size = f.dimension
  value : f.value p = .ok 0
  along : ∀ d ∈ Components.basis f.dimension, ∃ k, 0 < k ∧ f.along ⟨p, d⟩ = multiple k square

namespace DirectionSet

variable {f : Objective (Except (Fault α)) α} {s : DirectionSet α} {w : Sweep α} {done : ℕ}

theorem sweep_append (f : Objective (Except (Fault α)) α) (ds es : List (Components α)) :
    ∀ i (s : Sweep α), sweep f search i (ds ++ es) s =
      sweep f search i ds s >>= sweep f search (i + ds.length) es := by
  induction ds with
  | nil => intro i s; rfl
  | cons d ds ih =>
    intro i s
    have hlength : i + (d :: ds).length = i + 1 + ds.length := by rw [List.length_cons]; omega
    rw [List.cons_append, hlength]
    unfold sweep
    cases f.descend search ⟨s.point, d⟩ with
    | error e => rfl
    | ok p =>
      dsimp only [bind, Except.bind]
      split_ifs
      · exact ih _ _
      · exact ih _ _

/-- The point as far beyond a point as that is from itself. -/
theorem extrapolated_self (p : Components α) : extrapolated p p = p := by
  have htwice : ∀ a : α, a * 2.0 - a = a := fun a => by
    rw [Scalar.two_eq, mul_two, add_sub_cancel_right]
  unfold extrapolated
  apply Array.ext
  · simp
  · intro i h₁ h₂
    simp only [Components.sub, Components.scale, Array.getElem_zipWith, Array.getElem_map]
    exact htwice _

/-- An iteration that is not the last one, and after which going on promises nothing, keeps the set. -/
theorem turn_of_unpromising (hw : swept f settings s = .ok w) (hlast : done + 1 < f.dimension) {beyond : α}
    (hbeyond : f.value (extrapolated s.anchor w.point) = .ok beyond) (hle : s.value ≤ beyond) :
    turn f settings done s = .ok (.proceed ⟨w.point, w.value, s.directions, w.point⟩) := by
  -- before the last iteration the set is never reset
  have hround : (done + 1) % f.dimension ≠ 0 := by
    rw [Nat.mod_eq_of_lt hlast]
    omega
  refine turn_eq_proceed.2 ⟨w, hw, fun hdone => absurd hdone.2 (by omega), .inr ⟨hround, ?_⟩⟩
  refine replaceDirection_eq_ok.2 (.inr ⟨?_, ⟨beyond, hbeyond⟩, rfl⟩)
  rintro ⟨beyond', hvalue, hlower, -⟩
  rw [hvalue] at hbeyond
  cases hbeyond
  exact hle.not_gt hlower

/-- The state in which an iteration begins at a point where nothing is left. -/
def atRest (f : Objective (Except (Fault α)) α) (p : Components α) : DirectionSet α :=
  ⟨p, 0, Components.basis f.dimension, p⟩

end DirectionSet

namespace Objective.SettledAt

open DirectionSet

variable {f : Objective (Except (Fault α)) α}

/-- A line along a component is left where it is. -/
theorem descend_eq (h : f.SettledAt p) (htol : 0 < search.tolerance) {d : Components α}
    (hd : d ∈ Components.basis f.dimension) :
    ∃ there, f.descend search ⟨p, d⟩ = .ok (there, 0) ∧ there.origin = p := by
  obtain ⟨k, hk, hline⟩ := h.along d hd
  have hr : Ray.Sized f.dimension ⟨p, d⟩ := ⟨h.size, Components.size_of_mem_basis hd⟩
  refine ⟨_, descend_parabola hr htol hk hline, ?_⟩
  rw [Ray.advance_origin, hr.point_zero]

/-- **A sweep over components changes nothing**, whatever was found before. -/
theorem sweep_eq (h : f.SettledAt p) (htol : 0 < search.tolerance) {steepest : ℕ} {drop : α}
    (hdrop : 0 ≤ drop) : ∀ (ds : List (Components α)) i, (∀ d ∈ ds, d ∈ Components.basis f.dimension) →
      sweep f search i ds ⟨p, 0, steepest, drop⟩ = .ok ⟨p, 0, steepest, drop⟩ := by
  intro ds
  induction ds with
  | nil => intro i _; rfl
  | cons d ds ih =>
    intro i hds
    obtain ⟨hd, hds⟩ := List.forall_mem_cons.1 hds
    obtain ⟨there, hline, rfl⟩ := h.descend_eq htol hd
    have hfall : ¬ (0 : α) - 0 > drop := by rw [sub_zero]; exact hdrop.not_gt
    unfold sweep
    rw [hline]
    exact (if_neg hfall).trans (ih _ hds)

/-- **An iteration that begins at the point ends there**, and it is the last one if it may be. -/
theorem turn_eq (h : f.SettledAt p) (hline : 0 < settings.lineTolerance) (htol : 0 < settings.tolerance)
    (done : ℕ) : turn f settings done (atRest f p) = .ok (if f.dimension ≤ done + 1 then
      .stop ⟨p, 0, done + 1, .valueConverged⟩ else .proceed (atRest f p)) := by
  have hsearch : 0 < (LineSearch.ofSettings settings).tolerance := hline
  have hswept : swept f settings (atRest f p) = .ok ⟨p, 0, 0, 0⟩ :=
    h.sweep_eq hsearch le_rfl _ 0 fun _ hd => hd
  by_cases hlast : f.dimension ≤ done + 1
  · rw [if_pos hlast]
    exact turn_of_done hswept ⟨isConverged_same htol 0, hlast⟩
  · rw [if_neg hlast]
    have hbeyond : f.value (extrapolated p p) = .ok 0 := by rw [extrapolated_self, h.value]
    exact turn_of_unpromising hswept (not_le.1 hlast) hbeyond le_rfl

/-- **Iterations from the point end there**, with the one that may be the last, if the budget reaches
so far. -/
theorem iterate_eq (h : f.SettledAt p) (hline : 0 < settings.lineTolerance)
    (htol : 0 < settings.tolerance) : ∀ left done, done < f.dimension → f.dimension ≤ done + left →
      iterate f settings left done (atRest f p) = .ok ⟨p, 0, f.dimension, .valueConverged⟩ := by
  intro left
  induction left with
  | zero => intro done hdone hleft; omega
  | succ left ih =>
    intro done hdone hleft
    have hturn := h.turn_eq hline htol done
    by_cases hlast : f.dimension ≤ done + 1
    · have hn : done + 1 = f.dimension := by omega
      rw [if_pos hlast, hn] at hturn
      rw [iterate_eq_run, Loop.run_of_stop hturn]
    · rw [if_neg hlast] at hturn
      rw [iterate_eq_run, Loop.run_of_proceed hturn, ← iterate_eq_run]
      exact ih _ (by omega) (by omega)

/-- **Direction sets that come to the point in their first sweep end there**, after as many iterations as
there are components. The sweep gets there along some of the components, and as far again beyond the point
there is no less left than at the start. -/
theorem minimizeByDirections_eq (h : f.SettledAt p) (hn : 1 < f.dimension) {start : Components α} {v : α}
    (hstart : checkStart f.dimension start settings = .ok ()) (hv : f.value start = .ok v)
    (hbudget : f.dimension ≤ settings.maxIterations) {ds es : List (Components α)}
    (hbasis : Components.basis f.dimension = ds ++ es) {steepest : ℕ} {drop : α} (hdrop : 0 ≤ drop)
    (hreach : sweep f (LineSearch.ofSettings settings) 0 ds ⟨start, v, 0, 0⟩ = .ok ⟨p, 0, steepest, drop⟩)
    {beyond : α} (hbeyond : f.value (extrapolated start p) = .ok beyond) (hle : v ≤ beyond) :
    f.minimizeByDirections start settings = .ok ⟨p, 0, f.dimension, .valueConverged⟩ := by
  obtain ⟨-, -, hset⟩ := checkStart_eq_ok.1 hstart
  obtain ⟨htol, hline, -, -⟩ := Settings.check_eq_ok.1 hset
  have hsearch : 0 < (LineSearch.ofSettings settings).tolerance := hline
  have hswept : swept f settings ⟨start, v, Components.basis f.dimension, start⟩ =
      .ok ⟨p, 0, steepest, drop⟩ := by
    have hes : ∀ d ∈ es, d ∈ Components.basis f.dimension := by
      rw [hbasis]
      exact fun d hd => List.mem_append_right ds hd
    unfold swept
    dsimp only
    rw [hbasis, sweep_append, hreach]
    exact h.sweep_eq hsearch hdrop es _ hes
  -- the second iteration begins at the point
  have hturn : turn f settings 0 ⟨start, v, Components.basis f.dimension, start⟩ =
      .ok (.proceed (atRest f p)) := turn_of_unpromising hswept hn hbeyond hle
  obtain ⟨left, hleft⟩ : ∃ left, settings.maxIterations = left + 1 :=
    ⟨settings.maxIterations - 1, by omega⟩
  unfold minimizeByDirections
  rw [ensure_eq, hstart, hv]
  show iterate f settings settings.maxIterations 0 _ = _
  rw [hleft, iterate_eq_run, Loop.run_of_proceed hturn, ← iterate_eq_run]
  exact h.iterate_eq hline htol _ _ hn (by omega)

end Objective.SettledAt

theorem Components.component_unit {n i : ℕ} (hi : i < n) : (unit n i : Components α).component = axis i := by
  funext j
  unfold unit component axis
  by_cases hj : j < n
  · simp [hj]
  · have hne : j ≠ i := by omega
    simp [hj, hne]

/-- **How stiff the term is along component `i`**: its weight times the square of the derivative. -/
def Term.stiffness (t : Term α) (σ : ℕ → α) (dt : α) (i : ℕ) : α :=
  t.law.weight t.scales * total (t.law.partials σ dt) i ^ 2

namespace StepEnergy

variable {f : StepEnergy α} {s g : Components α} {σ : ℕ → α} {i : ℕ}

/-- How stiff all terms are. -/
def stiffness (f : StepEnergy α) (σ : ℕ → α) (i : ℕ) : α :=
  (f.terms.map fun t => t.stiffness σ f.dt i).sum

/-- **The energy along a component** of a state that violates no law is a parabola, if positions are
distinct and no norm is kept. -/
theorem energyAt_moved (hlawful : f.Lawful σ) (hdistinct : ∀ t ∈ f.terms, t.law.indices.Nodup)
    (hplain : ∀ t ∈ f.terms, t.law.norms i = false) (h : α) :
    f.energyAt (fun j => σ j + h * axis i j) = f.stiffness σ i * h ^ 2 := by
  unfold energyAt stiffness
  rw [← List.sum_map_mul_right]
  refine congrArg List.sum (List.map_congr_left fun t ht => ?_)
  have hmoved : t.law.violationAt f.initial.component (fun j => σ j + h * axis i j) f.dt =
      t.law.violationAt f.initial.component σ f.dt + total (t.law.partials σ f.dt) i * h +
        (if t.law.norms i then 1 else 0) * h ^ 2 := Law.expands (hdistinct t ht) h
  have hnorm : ¬ t.law.norms i = true := by rw [hplain t ht]; exact Bool.false_ne_true
  rw [hlawful t ht, if_neg hnorm] at hmoved
  unfold Term.energyAt Term.stiffness
  rw [hmoved]
  ring

/-- **An energy is settled at a state that leaves nothing of it**, if positions are distinct, no norm is
kept, and every component is held by some term. -/
theorem settledAt (hbuilt : f.Built) (hs : f.evaluate s = .ok (0, g))
    (hdistinct : ∀ t ∈ f.terms, t.law.indices.Nodup)
    (hplain : ∀ i < f.dimension, ∀ t ∈ f.terms, t.law.norms i = false)
    (hstiff : ∀ i < f.dimension, 0 < f.stiffness s.component i) :
    f.objective.toObjective.SettledAt s := by
  obtain ⟨hdim, hfit, henergy, -⟩ := evaluate_eq_ok.1 hs
  have hlawful : f.Lawful s.component := hbuilt.energyAt_eq_zero_iff.1 henergy
  refine ⟨hdim.symm, map_eq_ok.2 ⟨_, hs, rfl⟩, ?_⟩
  intro d hd
  obtain ⟨i, hi, rfl⟩ := List.mem_map.1 hd
  have hlt : i < f.dimension := List.mem_range.1 hi
  refine ⟨_, hstiff i hlt, ?_⟩
  funext w
  have hr : Ray.Sized f.dimension ⟨s, Components.unit f.dimension i⟩ :=
    ⟨hdim.symm, Components.size_of_mem_basis hd⟩
  have hpoint : (Ray.point ⟨s, Components.unit f.dimension i⟩ w).component =
      fun j => s.component j + w * axis i j := by
    funext j
    rw [hr.component_point, Components.component_unit hlt, add_comm]
  have hvalue := evaluate_of_fits (hr.size_point w) (hdim ▸ hfit)
  show (f.evaluate (Ray.point ⟨s, Components.unit f.dimension i⟩ w)).map Prod.fst = _
  rw [hvalue, hpoint, energyAt_moved hlawful hdistinct (hplain i hlt)]
  rfl

end StepEnergy
end EnergyStep
