import EnergyStep.Proofs.Loop
import EnergyStep.Proofs.Minimize.Descent

/-!
# Iterations over direction sets

The iterations of a minimization over direction sets as a loop, with names for the states at which they
begin and for those that get as far as the extrapolation test.

* `DirectionSet.turn`: one iteration; `DirectionSet.iterate_eq_run`: all of them as a loop.
* `DirectionSet.Begins`: an iteration of a run begins at a state. Its point and value are a place
  (`Begins.coherent`), and the run goes on from there (`Begins.minimize_eq`).
* `DirectionSet.Tests`, `DirectionSet.Promising`: the extrapolation test is reached, and passed.
-/

namespace EnergyStep

variable {α : Type} [Exact α] {settings : Settings α} {start : Components α} {top : α} {done : ℕ}

namespace DirectionSet

variable {f : Objective (Except (Fault α)) α} {s s' : DirectionSet α} {w : Sweep α}

/-- The sweep of an iteration. -/
def swept (f : Objective (Except (Fault α)) α) (settings : Settings α) (s : DirectionSet α) :
    Except (Fault α) (Sweep α) :=
  sweep f (LineSearch.ofSettings settings) 0 s.directions ⟨s.point, s.value, 0, 0⟩

/-- The value has converged, after enough iterations. -/
def Done (f : Objective (Except (Fault α)) α) (settings : Settings α) (done : ℕ) (s : DirectionSet α)
    (w : Sweep α) : Prop :=
  isConverged settings.tolerance s.value w.value = true ∧ f.dimension ≤ done + 1

instance : Decidable (Done f settings done s w) := inferInstanceAs (Decidable (_ ∧ _))

/-- The state at the end of a sweep with the coordinate directions again. -/
def restored (f : Objective (Except (Fault α)) α) (w : Sweep α) : DirectionSet α :=
  ⟨w.point, w.value, Components.basis f.dimension, w.point⟩

/-- One iteration, after `done` others. -/
def turn (f : Objective (Except (Fault α)) α) (settings : Settings α) (done : ℕ) (s : DirectionSet α) :
    Except (Fault α) (Turn (Minimum α) (DirectionSet α)) := do
  let w ← swept f settings s
  if Done f settings done s w then pure (.stop ⟨w.point, w.value, done + 1, .valueConverged⟩)
  else if (done + 1) % f.dimension = 0 then pure (.proceed (restored f w))
  else pure (.proceed (← replaceDirection f (LineSearch.ofSettings settings) s s.value w))

theorem turn_of_fault {fault : Fault α} (hw : swept f settings s = .error fault) :
    turn f settings done s = .error fault := by
  unfold turn; rw [hw]; rfl

theorem turn_of_done (hw : swept f settings s = .ok w) (hdone : Done f settings done s w) :
    turn f settings done s = .ok (.stop ⟨w.point, w.value, done + 1, .valueConverged⟩) := by
  unfold turn; rw [hw]; exact if_pos hdone

theorem turn_of_round (hw : swept f settings s = .ok w) (hdone : ¬Done f settings done s w)
    (hround : (done + 1) % f.dimension = 0) :
    turn f settings done s = .ok (.proceed (restored f w)) := by
  unfold turn; rw [hw]; exact (if_neg hdone).trans (if_pos hround)

theorem turn_of_test (hw : swept f settings s = .ok w) (hdone : ¬Done f settings done s w)
    (hround : (done + 1) % f.dimension ≠ 0) :
    turn f settings done s =
      (replaceDirection f (LineSearch.ofSettings settings) s s.value w).map .proceed := by
  unfold turn; rw [hw]; exact (if_neg hdone).trans (if_neg hround)

/-- **The iterations are a loop** with the budget of the settings. -/
theorem iterate_eq_run (f : Objective (Except (Fault α)) α) (settings : Settings α) :
    ∀ (left done : ℕ) (s : DirectionSet α), iterate f settings left done s =
      Loop.run (turn f settings) (.condition (.directionSets settings.maxIterations)) left done s := by
  intro left
  induction left with
  | zero => intro done s; rfl
  | succ left ih =>
    intro done s
    unfold iterate
    show (swept f settings s >>= fun w => _) = _
    cases hw : swept f settings s with
    | error e => rw [Loop.run_of_error (turn_of_fault hw)]; rfl
    | ok w =>
      show (if (isConverged settings.tolerance s.value w.value && decide (f.dimension ≤ done + 1)) = true
        then _ else _) = _
      by_cases hdone : Done f settings done s w
      · rw [if_pos (by simpa [Done] using hdone), Loop.run_of_stop (turn_of_done hw hdone)]
        rfl
      rw [if_neg (by simpa [Done] using hdone)]
      by_cases hround : (done + 1) % f.dimension = 0
      · rw [if_pos hround, Loop.run_of_proceed (turn_of_round hw hdone hround)]
        exact ih _ _
      · have hturn := turn_of_test hw hdone hround
        rw [if_neg hround]
        cases hnext : replaceDirection f (LineSearch.ofSettings settings) s s.value w with
        | error e =>
          rw [hnext] at hturn
          rw [Loop.run_of_error hturn]
          rfl
        | ok next =>
          rw [hnext] at hturn
          rw [Loop.run_of_proceed hturn]
          exact ih _ _

/-- An iteration stops where the value has converged. -/
theorem turn_eq_stop {m : Minimum α} : turn f settings done s = .ok (.stop m) ↔
    ∃ w, swept f settings s = .ok w ∧ Done f settings done s w ∧
      ⟨w.point, w.value, done + 1, .valueConverged⟩ = m := by
  constructor
  · intro h
    obtain ⟨w, hw, h⟩ := bind_eq_ok.1 h
    split_ifs at h with hdone hround
    · cases h; exact ⟨w, hw, hdone, rfl⟩
    · cases h
    · obtain ⟨_, -, h⟩ := bind_eq_ok.1 h
      cases h
  · rintro ⟨w, hw, hdone, rfl⟩
    exact turn_of_done hw hdone

/-- An iteration goes on from the end of its sweep, or of the extra line after it. -/
theorem turn_eq_proceed : turn f settings done s = .ok (.proceed s') ↔
    ∃ w, swept f settings s = .ok w ∧ ¬Done f settings done s w ∧
      ((done + 1) % f.dimension = 0 ∧ s' = restored f w ∨
        (done + 1) % f.dimension ≠ 0 ∧
          replaceDirection f (LineSearch.ofSettings settings) s s.value w = .ok s') := by
  constructor
  · intro h
    obtain ⟨w, hw, h⟩ := bind_eq_ok.1 h
    split_ifs at h with hdone hround
    · cases h
    · cases h; exact ⟨w, hw, hdone, .inl ⟨hround, rfl⟩⟩
    · obtain ⟨next, hnext, h⟩ := bind_eq_ok.1 h
      cases h
      exact ⟨w, hw, hdone, .inr ⟨hround, hnext⟩⟩
  · rintro ⟨w, hw, hdone, ⟨hround, rfl⟩ | ⟨hround, hnext⟩⟩
    · exact turn_of_round hw hdone hround
    · rw [turn_of_test hw hdone hround, hnext]
      rfl

/-- Going the same way once more promises a lower value. -/
def Promising (f : Objective (Except (Fault α)) α) (s : DirectionSet α) (w : Sweep α) : Prop :=
  ∃ beyond, f.value (extrapolated s.anchor w.point) = .ok beyond ∧
    beyond < s.value ∧ promise s.value w.value beyond w.largestDrop < 0

/-- After the test comes an extra line, whose way is taken into the set, or nothing. -/
theorem replaceDirection_eq_ok {search : LineSearch α} :
    replaceDirection f search s s.value w = .ok s' ↔
      (Promising f s w ∧ ∃ there value,
        f.descend search ⟨w.point, w.point.sub s.anchor⟩ = .ok (there, value) ∧
        ⟨there.origin, value, exchange s.directions w.steepest there.direction, w.point⟩ = s') ∨
      (¬Promising f s w ∧ (∃ beyond, f.value (extrapolated s.anchor w.point) = .ok beyond) ∧
        ⟨w.point, w.value, s.directions, w.point⟩ = s') := by
  unfold replaceDirection
  rw [bind_eq_ok]
  constructor
  · rintro ⟨beyond, hbeyond, h⟩
    split_ifs at h with hpromise
    · obtain ⟨⟨there, value⟩, hline, h⟩ := bind_eq_ok.1 h
      exact .inl ⟨⟨beyond, hbeyond, hpromise⟩, there, value, hline, Except.ok.inj h⟩
    · refine .inr ⟨?_, ⟨beyond, hbeyond⟩, Except.ok.inj h⟩
      rintro ⟨_, hbeyond', hpromise'⟩
      rw [hbeyond] at hbeyond'
      cases hbeyond'
      exact hpromise hpromise'
  · rintro (⟨⟨beyond, hbeyond, hpromise⟩, there, value, hline, rfl⟩ | ⟨hnot, ⟨beyond, hbeyond⟩, rfl⟩)
    · refine ⟨beyond, hbeyond, ?_⟩
      rw [if_pos hpromise, hline]
      rfl
    · exact ⟨beyond, hbeyond, if_neg fun h => hnot ⟨beyond, hbeyond, h⟩⟩

omit [Exact α] in
@[simp] theorem length_exchange (ds : List (Components α)) (k : ℕ) (added : Components α) :
    (exchange ds k added).length = ds.length := by
  unfold exchange
  rw [List.length_set]
  cases ds[ds.length - 1]? with
  | none => rfl
  | some last => exact List.length_set

/-- The sweep from a place ends at one that is no higher. -/
theorem Coherent.swept_at (hs : s.Coherent f top) (htol : 0 < settings.lineTolerance)
    (hw : swept f settings s = .ok w) : f.At top w.point w.value :=
  (sweep_ends f.within_all htol _ 0 ⟨s.point, s.value, 0, 0⟩ hs.directions hs.here).of_ok hw

/-- A place is one up to its own value. -/
theorem Coherent.level (hs : s.Coherent f top) : s.Coherent f s.value :=
  ⟨⟨hs.here.size, hs.here.value, le_rfl⟩, hs.directions, hs.anchor⟩

/-- The coordinate directions are a set for any place. -/
theorem coherent_restored (hw : f.At top w.point w.value) : (restored f w).Coherent f top :=
  ⟨hw, fun _ hd => Components.size_of_mem_basis hd, hw.size⟩

/-- The first iteration begins here, with the value of the start. -/
def first (f : Objective (Except (Fault α)) α) (start : Components α) (value : α) : DirectionSet α :=
  ⟨start, value, Components.basis f.dimension, start⟩

/-- **The loop of a minimization.** From a start that passes the check and has a value it is the loop
that begins there. -/
theorem minimizeByDirections_eq_run {value : α} (hstart : checkStart f.dimension start settings = .ok ())
    (hv : f.value start = .ok value) :
    f.minimizeByDirections start settings =
      Loop.run (turn f settings) (.condition (.directionSets settings.maxIterations))
        settings.maxIterations 0 (first f start value) := by
  unfold Objective.minimizeByDirections
  rw [ensure_eq, hstart, hv]
  exact iterate_eq_run f settings _ _ _

/-- **An iteration of the run begins at the state**, after `done` others. -/
structure Begins (f : Objective (Except (Fault α)) α) (settings : Settings α) (start : Components α)
    (done : ℕ) (s : DirectionSet α) : Prop where
  checked : checkStart f.dimension start settings = .ok ()
  within : done < settings.maxIterations
  reached : ∃ value, f.value start = .ok value ∧
    Loop.Begins (turn f settings) (first f start value) done s

namespace Begins

/-- The run goes on from there. -/
theorem minimize_eq (h : Begins f settings start done s) :
    f.minimizeByDirections start settings =
      iterate f settings (settings.maxIterations - done) done s := by
  obtain ⟨value, hv, hs⟩ := h.reached
  rw [minimizeByDirections_eq_run h.checked hv, iterate_eq_run, Loop.run_eq_of_begins_of_le hs h.within.le]

theorem dimension_pos (h : Begins f settings start done s) : 0 < f.dimension :=
  (checkStart_eq_ok.1 h.checked).1

theorem lineTolerance_pos (h : Begins f settings start done s) : 0 < settings.lineTolerance :=
  (Settings.check_eq_ok.1 (checkStart_eq_ok.1 h.checked).2.2).2.1

/-- **Where an iteration begins is a place**, and there are as many directions as components. -/
theorem coherent (h : Begins f settings start done s) :
    s.Coherent f s.value ∧ s.directions.length = f.dimension := by
  have htol := h.lineTolerance_pos
  obtain ⟨-, hsize, -⟩ := checkStart_eq_ok.1 h.checked
  obtain ⟨value, hv, hs⟩ := h.reached
  clear h
  induction hs with
  | first =>
    exact ⟨⟨⟨hsize, hv, le_rfl⟩, fun d hd => Components.size_of_mem_basis hd, hsize⟩,
      Components.length_basis _⟩
  | @next k s s' hs hturn ih =>
    obtain ⟨hc, hlength⟩ := ih
    obtain ⟨w, hw, -, ⟨-, rfl⟩ | ⟨-, hnext⟩⟩ := turn_eq_proceed.1 hturn
    · exact ⟨(coherent_restored (hc.swept_at htol hw)).level, Components.length_basis _⟩
    · have hc' := (replaceDirection_ends f.within_all htol hc s.value (hc.swept_at htol hw)).of_ok hnext
      refine ⟨hc'.level, ?_⟩
      rcases replaceDirection_eq_ok.1 hnext with ⟨-, there, value, -, rfl⟩ | ⟨-, -, rfl⟩
      · exact (length_exchange _ _ _).trans hlength
      · exact hlength

/-- **The first iteration of every `n`** begins at the anchor with the coordinate directions. -/
theorem of_round (h : Begins f settings start done s) (hround : done % f.dimension = 0) :
    s.anchor = s.point ∧ s.directions = Components.basis f.dimension := by
  obtain ⟨value, hv, hs⟩ := h.reached
  cases hs with
  | first => exact ⟨rfl, rfl⟩
  | next hs hturn =>
    obtain ⟨w, hw, -, ⟨-, rfl⟩ | ⟨hbetween, -⟩⟩ := turn_eq_proceed.1 hturn
    · exact ⟨rfl, rfl⟩
    · exact absurd hround hbetween

/-- The sweep of an iteration ends at a place that is no higher. -/
theorem swept_at (h : Begins f settings start done s) (hw : swept f settings s = .ok w) :
    f.At s.value w.point w.value :=
  h.coherent.1.swept_at h.lineTolerance_pos hw

end Begins

/-- **A minimization has a result** when the value has converged in one of its iterations. -/
theorem minimizeByDirections_eq_ok {m : Minimum α} : f.minimizeByDirections start settings = .ok m ↔
    ∃ done s w, Begins f settings start done s ∧ swept f settings s = .ok w ∧
      Done f settings done s w ∧ ⟨w.point, w.value, done + 1, .valueConverged⟩ = m := by
  constructor
  · intro hm
    have hrun := hm
    unfold Objective.minimizeByDirections at hm
    rw [ensure_eq] at hm
    obtain ⟨_, hchecked, hm⟩ := bind_eq_ok.1 hm
    obtain ⟨value, hv, -⟩ := bind_eq_ok.1 hm
    rw [minimizeByDirections_eq_run hchecked hv, Loop.run_eq_ok] at hrun
    obtain ⟨done, hdone, s, hs, hturn⟩ := hrun
    obtain ⟨w, hw, hconverged, hm⟩ := turn_eq_stop.1 hturn
    exact ⟨done, s, w, ⟨hchecked, hdone, value, hv, hs⟩, hw, hconverged, hm⟩
  · rintro ⟨done, s, w, hbegins, hw, hconverged, rfl⟩
    obtain ⟨value, hv, hs⟩ := hbegins.reached
    rw [minimizeByDirections_eq_run hbegins.checked hv, Loop.run_eq_ok]
    exact ⟨done, hbegins.within, s, hs, turn_of_done hw hconverged⟩

/-- **The iteration that begins at the state reaches the extrapolation test** with the end of its sweep. -/
structure Tests (f : Objective (Except (Fault α)) α) (settings : Settings α) (start : Components α)
    (done : ℕ) (s : DirectionSet α) (w : Sweep α) : Prop where
  begins : Begins f settings start done s
  swept : swept f settings s = .ok w
  goes_on : ¬Done f settings done s w
  between : (done + 1) % f.dimension ≠ 0

deriving instance DecidableEq for DirectionSet

/-- A bowl that is narrow across the diagonal and has its bottom on it. -/
def bowl : Objective (Except (Fault ℚ)) ℚ where
  dimension := 3
  value x := .ok (2 * ((x.component 0 - x.component 1) ^ 2 + (x.component 1 - x.component 2) ^ 2 +
    (x.component 2 - x.component 0) ^ 2) + (x.component 0 + x.component 1 + x.component 2 - 6) ^ 2)

/-- Settings for a short search. -/
def brief (budget : ℕ) : Settings ℚ := ⟨.powell, 1 / 1000, 1, budget, 5⟩

/-- The first sweep over the bowl ends at `(1, 1, 1)`, and from there an extra line leads down to the
bottom. -/
theorem bowl_tests :
    Tests bowl (brief 3) #[0, 0, 0] 0 (first bowl #[0, 0, 0] 36) ⟨#[1, 1, 1], 9, 2, 11⟩ ∧
    Promising bowl (first bowl #[0, 0, 0] 36) ⟨#[1, 1, 1], 9, 2, 11⟩ ∧
    turn bowl (brief 3) 0 (first bowl #[0, 0, 0] 36) =
      .ok (.proceed ⟨#[2, 2, 2], 0, [#[1, 0, 0], #[0, 1, 0], #[1, 1, 1]], #[1, 1, 1]⟩) := by
  have hstart : bowl.value #[0, 0, 0] = .ok 36 := by decide +kernel
  refine ⟨⟨⟨by decide +kernel, by decide, 36, hstart, .first⟩, ?_, ?_, ?_⟩, ⟨0, ?_, ?_, ?_⟩, ?_⟩
  all_goals decide +kernel

end DirectionSet
end EnergyStep
