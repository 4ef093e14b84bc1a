import EnergyStep.Proofs.Minimize.Iterations

/-!
# The book-keeping of direction sets

What a minimization over direction sets keeps track of: how much the value fell along each direction of
a sweep, which direction makes room for a new one, when the set is the coordinate directions again, and
when the value has converged.

* `DirectionSet.falls`: how much the value falls along each direction in turn.
* `DirectionSet.Tracked`: what a sweep knows of the falls at its end.
* `DirectionSet.exchange_perm`: an exchange loses one direction.
* `DirectionSet.promise_of_no_fall`: without a fall nothing is promised.
* `DirectionSet.directions_kept`: minimizations.
-/

namespace EnergyStep

variable {α : Type} [Exact α]

namespace DirectionSet

variable {f : Objective (Except (Fault α)) α} {search : LineSearch α} {settings : Settings α}
  {start : Components α} {done i : ℕ} {s s' : DirectionSet α} {t w : Sweep α} {top : α}

/-- How much the value falls on the lines from the point along each direction in turn. -/
def falls (f : Objective (Except (Fault α)) α) (search : LineSearch α) :
    List (Components α) → (point : Components α) → (value : α) → Except (Fault α) (List α)
  | [], _, _ => pure []
  | d :: rest, point, value => do
    let (there, lower) ← f.descend search ⟨point, d⟩
    let more ← falls f search rest there.origin lower
    pure ((value - lower) :: more)

/-- **What a sweep knows of the falls** from `t` on, where `i` is the position of the first direction. The
largest fall is that along the direction at `steepest`, unless none was larger than before. -/
structure Tracked (i : ℕ) (t : Sweep α) (drops : List α) (w : Sweep α) : Prop where
  value : w.value = t.value - drops.sum
  largest_le : t.largestDrop ≤ w.largestDrop
  le_largest : ∀ drop ∈ drops, drop ≤ w.largestDrop
  steepest : (w.largestDrop = t.largestDrop ∧ w.steepest = t.steepest) ∨
    ∃ k, drops[k]? = some w.largestDrop ∧ w.steepest = i + k

theorem sweep_tracked : ∀ (ds : List (Components α)) i (t w : Sweep α), sweep f search i ds t = .ok w →
    ∃ drops, falls f search ds t.point t.value = .ok drops ∧ drops.length = ds.length ∧
      Tracked i t drops w := by
  intro ds
  induction ds with
  | nil =>
    intro i t w h
    cases h
    refine ⟨[], rfl, rfl, ?_, le_rfl, by simp, .inl ⟨rfl, rfl⟩⟩
    rw [List.sum_nil, sub_zero]
  | cons d ds ih =>
    intro i t w h
    unfold sweep at h
    obtain ⟨⟨there, lower⟩, hline, h⟩ := bind_eq_ok.1 h
    dsimp only at h
    have hfalls : ∀ {drops}, falls f search ds there.origin lower = .ok drops →
        falls f search (d :: ds) t.point t.value = .ok ((t.value - lower) :: drops) := by
      intro drops hdrops
      unfold falls
      rw [hline]
      show (falls f search ds there.origin lower >>= _) = _
      rw [hdrops]
      rfl
    split_ifs at h with hlarger
    · -- the fall along `d` is the largest so far
      obtain ⟨drops, hdrops, hlength, hw⟩ := ih _ _ _ h
      refine ⟨_, hfalls hdrops, by simp [hlength], ?_, ?_, ?_, ?_⟩
      · rw [hw.value, List.sum_cons]; ring
      · exact hlarger.le.trans hw.largest_le
      · exact List.forall_mem_cons.2 ⟨hw.largest_le, hw.le_largest⟩
      · right
        rcases hw.steepest with ⟨hlargest, hsteepest⟩ | ⟨k, hk, hsteepest⟩
        · exact ⟨0, by rw [hlargest]; rfl, hsteepest⟩
        · exact ⟨k + 1, hk, by omega⟩
    · obtain ⟨drops, hdrops, hlength, hw⟩ := ih _ _ _ h
      refine ⟨_, hfalls hdrops, by simp [hlength], ?_, hw.largest_le, ?_, ?_⟩
      · rw [hw.value, List.sum_cons]; ring
      · exact List.forall_mem_cons.2 ⟨(not_lt.1 hlarger).trans hw.largest_le, hw.le_largest⟩
      · rcases hw.steepest with hsame | ⟨k, hk, hsteepest⟩
        · exact .inl hsame
        · exact .inr ⟨k + 1, hk, by omega⟩

/-- No line from a place raises the value. -/
theorem falls_nonneg (htol : 0 < search.tolerance) : ∀ (ds : List (Components α)) point value drops,
    (∀ d ∈ ds, d.size = f.dimension) → f.At top point value →
    falls f search ds point value = .ok drops → ∀ drop ∈ drops, 0 ≤ drop := by
  intro ds
  induction ds with
  | nil =>
    intro point value drops _ _ h
    cases h
    exact fun drop hdrop => absurd hdrop List.not_mem_nil
  | cons d ds ih =>
    intro point value drops hds hat h
    obtain ⟨hd, hrest⟩ := List.forall_mem_cons.1 hds
    obtain ⟨⟨there, lower⟩, hline, h⟩ := bind_eq_ok.1 h
    obtain ⟨more, hmore, h⟩ := bind_eq_ok.1 h
    cases h
    have hdescent := (Objective.descend_ends f.within_all htol ⟨hat.size, hd⟩ hat.value).of_ok hline
    exact List.forall_mem_cons.2
      ⟨sub_nonneg.2 hdescent.below, ih _ _ _ hrest (hdescent.at hat.below) hmore⟩

omit [Exact α] in
/-- An exchange in terms of the last direction: it takes the place that is free now. -/
theorem exchange_concat (init : List (Components α)) (last added : Components α) {k : ℕ}
    (hk : k ≤ init.length) : exchange (init ++ [last]) k added = init.set k last ++ [added] := by
  have hlast : (init ++ [last])[(init ++ [last]).length - 1]? = some last := by simp
  have hset : (init ++ [last]).set k last = init.set k last ++ [last] := by
    rcases hk.lt_or_eq with hlt | rfl
    · exact List.set_append_left _ _ hlt
    · rw [List.set_append_right _ _ le_rfl, List.set_eq_of_length_le le_rfl]
      simp
  unfold exchange
  dsimp only
  rw [hlast, Option.elim_some, hset]
  simp

omit [Exact α] in
/-- **An exchange loses one direction** and has the new one at the end. -/
theorem exchange_perm {ds : List (Components α)} {k : ℕ} (hk : k < ds.length) (added : Components α) :
    (exchange ds k added).Perm (added :: ds.eraseIdx k) ∧ (exchange ds k added).getLast? = some added := by
  obtain ⟨init, last, rfl⟩ : ∃ init last, ds = init ++ [last] :=
    ⟨ds.dropLast, ds.getLast (List.ne_nil_of_length_pos (by omega)), (List.dropLast_append_getLast _).symm⟩
  have hle : k ≤ init.length := by simpa [Nat.lt_succ_iff] using hk
  rw [exchange_concat init last added hle]
  refine ⟨(List.perm_append_singleton _ _).trans (List.Perm.cons _ ?_), List.getLast?_concat ..⟩
  rcases hle.lt_or_eq with hlt | rfl
  · -- the last direction is where the lost one was
    rw [List.eraseIdx_append_of_lt_length hlt]
    exact (List.set_perm_cons_eraseIdx hlt last).trans (List.perm_append_singleton _ _).symm
  · rw [List.set_eq_of_length_le le_rfl, List.eraseIdx_append_of_length_le le_rfl]
    simp

/-- **Without a fall nothing is promised.** -/
theorem promise_of_no_fall (v beyond : α) : promise v v beyond 0 = 0 := by
  unfold promise Scalar.sq
  rw [sub_self, sub_self, mul_zero, mul_zero, zero_mul, sub_self]

theorem isConverged_iff {tolerance before after : α} : isConverged tolerance before after = true ↔
    2 * (before - after) ≤ tolerance * (|before| + |after|) + 1e-25 := by
  unfold isConverged
  rw [decide_eq_true_iff, Scalar.two_eq]
  rfl

/-- **A direction that makes room had the largest fall**, and the value did fall along it. -/
theorem Tests.steepest (h : Tests f settings start done s w) (hpromise : Promising f s w) :
    ∃ drops, falls f (LineSearch.ofSettings settings) s.directions s.point s.value = .ok drops ∧
      drops.length = f.dimension ∧ drops[w.steepest]? = some w.largestDrop ∧ 0 < w.largestDrop ∧
      ∀ drop ∈ drops, drop ≤ w.largestDrop := by
  obtain ⟨hc, hlength⟩ := h.begins.coherent
  obtain ⟨drops, hdrops, hcount, hw⟩ := sweep_tracked _ _ _ _ h.swept
  have hnonneg := falls_nonneg h.begins.lineTolerance_pos _ _ _ _ hc.directions hc.here hdrops
  have hpos : 0 < w.largestDrop := by
    refine hw.largest_le.lt_of_ne fun hzero => ?_
    -- otherwise no line has lowered the value, and then nothing is promised
    have hnone : ∀ drop ∈ drops, drop = 0 := fun drop hdrop =>
      le_antisymm ((hw.le_largest drop hdrop).trans hzero.ge) (hnonneg drop hdrop)
    have hvalue : w.value = s.value := by
      rw [hw.value, List.sum_eq_zero hnone, sub_zero]
    obtain ⟨beyond, -, -, hpromised⟩ := hpromise
    rw [hvalue, ← hzero] at hpromised
    exact hpromised.ne (promise_of_no_fall _ _)
  refine ⟨drops, hdrops, hcount.trans hlength, ?_, hpos, hw.le_largest⟩
  rcases hw.steepest with ⟨hnone, -⟩ | ⟨k, hk, hsteepest⟩
  · exact absurd hnone hpos.ne'
  · rw [hsteepest, Nat.zero_add]
    exact hk

/-- **A converged minimum.** It comes from an iteration that is not before the `n`-th and within the
budget, and the sweep of that iteration has lowered the value by no more than the tolerance allows. -/
structure Converged (f : Objective (Except (Fault α)) α) (settings : Settings α) (start : Components α)
    (m : Minimum α) : Prop where
  dimension_le : f.dimension ≤ m.iterations
  le_budget : m.iterations ≤ settings.maxIterations
  termination : m.termination = .valueConverged
  last : ∃ done s w, m.iterations = done + 1 ∧ Begins f settings start done s ∧
    swept f settings s = .ok w ∧ m.point = w.point ∧ m.value = w.value ∧ 0 ≤ s.value - w.value ∧
    2 * (s.value - w.value) ≤ settings.tolerance * (|s.value| + |w.value|) + 1e-25

theorem converged_of_ok {m : Minimum α} (hm : f.minimizeByDirections start settings = .ok m) :
    Converged f settings start m := by
  obtain ⟨done, s, w, hbegins, hw, ⟨hconverged, hn⟩, rfl⟩ := minimizeByDirections_eq_ok.1 hm
  exact ⟨hn, hbegins.within, rfl, done, s, w, rfl, hbegins, hw, rfl, rfl,
    sub_nonneg.2 (hbegins.swept_at hw).below, isConverged_iff.1 hconverged⟩

/-- **Convergence and directions of a minimization.** A result is a converged minimum, so with a budget
below `n` there is none. The first iteration of every `n` begins with the coordinate directions. An
iteration that reaches the extrapolation test leaves the directions as they are unless a lower value is
promised. Then the way of the extra line comes in at the end, and of the `n` directions that there were
only one goes. The value fell along it, and along none did it fall more. -/
theorem directions_kept (f : Objective (Except (Fault α)) α) (start : Components α)
    (settings : Settings α) :
    (∀ m, f.minimizeByDirections start settings = .ok m → Converged f settings start m) ∧
    (settings.maxIterations < f.dimension → ∀ m, f.minimizeByDirections start settings ≠ .ok m) ∧
    (∀ done s, Begins f settings start done s → done + 1 ≡ 1 [MOD f.dimension] →
      s.directions = Components.basis f.dimension) ∧
    (∀ done s w s', Tests f settings start done s w → turn f settings done s = .ok (.proceed s') →
      (¬Promising f s w → s'.directions = s.directions) ∧
      (Promising f s w → ∃ there drops,
        f.descend (LineSearch.ofSettings settings) ⟨w.point, w.point.sub s.anchor⟩ =
          .ok (there, s'.value) ∧
        falls f (LineSearch.ofSettings settings) s.directions s.point s.value = .ok drops ∧
        s.directions.length = f.dimension ∧ drops.length = f.dimension ∧
        drops[w.steepest]? = some w.largestDrop ∧ 0 < w.largestDrop ∧
        (∀ drop ∈ drops, drop ≤ w.largestDrop) ∧
        s'.directions.Perm (there.direction :: s.directions.eraseIdx w.steepest) ∧
        s'.directions.getLast? = some there.direction)) := by
  refine ⟨fun m => converged_of_ok, ?_, ?_, ?_⟩
  · intro hbudget m hm
    have hn := (converged_of_ok hm).dimension_le
    have hmax := (converged_of_ok hm).le_budget
    omega
  · intro done s hbegins hmod
    have hround : done % f.dimension = 0 % f.dimension := Nat.ModEq.add_right_cancel' 1 hmod
    exact (hbegins.of_round (hround.trans (Nat.zero_mod _))).2
  · intro done s w s' htests hturn
    obtain ⟨w', hw', -, ⟨hround, -⟩ | ⟨-, hnext⟩⟩ := turn_eq_proceed.1 hturn
    · exact absurd hround htests.between
    obtain rfl : w' = w := Except.ok.inj (hw'.symm.trans htests.swept)
    rcases replaceDirection_eq_ok.1 hnext with ⟨hpromise, there, value, hline, rfl⟩ | ⟨hnot, -, rfl⟩
    · refine ⟨fun hnot => absurd hpromise hnot, fun _ => ?_⟩
      obtain ⟨drops, hdrops, hcount, hsteepest, hpos, hle⟩ := htests.steepest hpromise
      have hlength := htests.begins.coherent.2
      have hin : w'.steepest < s.directions.length := by
        rw [hlength, ← hcount]
        exact (List.getElem?_eq_some_iff.1 hsteepest).1
      exact ⟨there, drops, hline, hdrops, hlength, hcount, hsteepest, hpos, hle,
        exchange_perm hin there.direction⟩
    · exact ⟨fun _ => rfl, fun hpromise => absurd hpromise hnot⟩

/-- A run over the bowl. Its first iteration gives up the last of the coordinate directions, along which
the value fell by eleven; two iterations are too few for any result. -/
theorem directions_kept_bowl :
    Converged bowl (brief 3) #[0, 0, 0] ⟨#[2, 2, 2], 0, 3, .valueConverged⟩ ∧
    (∀ m, bowl.minimizeByDirections #[0, 0, 0] (brief 2) ≠ .ok m) ∧
    ∃ drops, falls bowl (LineSearch.ofSettings (brief 3)) (Components.basis 3) #[0, 0, 0] 36 = .ok drops ∧
      drops[2]? = some 11 ∧ (∀ drop ∈ drops, drop ≤ 11) ∧
      [#[1, 0, 0], #[0, 1, 0], #[1, 1, 1]].Perm
        ((#[1, 1, 1] : Components ℚ) :: (Components.basis 3).eraseIdx 2) := by
  obtain ⟨htests, hpromise, hturn⟩ := bowl_tests
  obtain ⟨hresult, -, -, hreplaced⟩ := directions_kept bowl #[0, 0, 0] (brief 3)
  obtain ⟨-, hnone, -, -⟩ := directions_kept bowl #[0, 0, 0] (brief 2)
  obtain ⟨there, drops, -, hdrops, -, -, hsteepest, -, hle, hperm, hlast⟩ :=
    (hreplaced _ _ _ _ htests hturn).2 hpromise
  have hthere : there.direction = #[1, 1, 1] := (Option.some.inj hlast).symm
  rw [hthere] at hperm
  exact ⟨hresult _ (by decide +kernel), hnone (by decide), drops, hdrops, hsteepest, hle, hperm⟩

end DirectionSet
end EnergyStep
