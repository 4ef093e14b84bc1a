import EnergyStep.Proofs.Search.LineMinimum
import EnergyStep.Minimize.ConjugateGradient
import EnergyStep.Minimize.DirectionSet

/-!
# Minimizers descend

A minimizer never evaluates its result: the value was carried from one line to the next. The carried
value is that of the objective at the carried point, and no line raises it, so a minimum of any
termination is the value at its point and no higher than the start.

* `Minimum.DescendsFrom`: what is promised of a minimum.
* `DirectionSet.iterate_ends`, `ConjugateGradient.iterate_ends`: the iterations.
* `minimizeByDirections_ends`, `minimizeByGradients_ends`: the minimizations.
-/

namespace EnergyStep

variable {α : Type} [Exact α] {fails : Fault α → Prop}

/-- **A coherent descent.** The value is that of the objective at the point and not above the start,
and the budget of iterations was kept. -/
structure Minimum.DescendsFrom (f : Objective (Except (Fault α)) α) (start : Components α)
    (budget : ℕ) (m : Minimum α) : Prop where
  size : m.point.size = f.dimension
  value : f.value m.point = .ok m.value
  descends : ∃ v, f.value start = .ok v ∧ m.value ≤ v
  iterations : 1 ≤ m.iterations ∧ m.iterations ≤ budget

/-- The tolerance on lines of settings that pass the check is positive. -/
theorem Settings.check_eq_ok {s : Settings α} :
    s.check = .ok () ↔
      0 < s.tolerance ∧ 0 < s.lineTolerance ∧ 0 < s.maxIterations ∧ 0 < s.maxExpansions := by
  unfold Settings.check Settings.defect?
  rw [← Scalar.isPositive_iff, ← Scalar.isPositive_iff, Nat.pos_iff_ne_zero, Nat.pos_iff_ne_zero]
  split_ifs with h1 h2 h3 h4 <;> simp_all

theorem checkStart_eq_ok {n : ℕ} {start : Components α} {s : Settings α} :
    checkStart n start s = .ok () ↔ 0 < n ∧ start.size = n ∧ s.check = .ok () := by
  unfold checkStart
  rcases Nat.eq_zero_or_pos n with h | h
  · subst h; simp [bind, Except.bind]
  · rw [if_neg (by omega)]
    simp only [bind_eq_ok]
    constructor
    · rintro ⟨_, h1, h2⟩
      exact ⟨h, (checkDimension_eq_ok.1 h1).symm, h2⟩
    · rintro ⟨-, h1, h2⟩
      exact ⟨_, checkDimension_eq_ok.2 h1.symm, h2⟩

/-- The place of a minimization: a point, the value there, which is not above `top`. -/
structure Objective.At (f : Objective (Except (Fault α)) α) (top : α) (p : Components α) (w : α) :
    Prop where
  size : p.size = f.dimension
  value : f.value p = .ok w
  below : w ≤ top

variable {top : α} {settings : Settings α}

/-- The end of a line is a place. -/
theorem Objective.Descent.at {f : Objective (Except (Fault α)) α} {v w : α} {r : Ray α}
    (h : f.Descent v r w) (hv : v ≤ top) : f.At top r.origin w :=
  ⟨h.sized.1, h.value, h.below.trans hv⟩

theorem Objective.At.descendsFrom {f : Objective (Except (Fault α)) α} {start p : Components α}
    {v w : α} (h : f.At v p w) (hv : f.value start = .ok v) {k budget : ℕ} (h1 : 1 ≤ k)
    (hk : k ≤ budget) (reason : Termination) : Minimum.DescendsFrom f start budget ⟨p, w, k, reason⟩ :=
  ⟨h.size, h.value, ⟨v, hv, h.below⟩, h1, hk⟩

namespace DirectionSet

variable {f : Objective (Except (Fault α)) α} {search : LineSearch α}

/-- A sweep goes from place to place. -/
theorem sweep_ends (hf : f.Within fails) (htol : 0 < search.tolerance) :
    ∀ (ds : List (Components α)) i (s : Sweep α), (∀ d ∈ ds, d.size = f.dimension) →
      f.At top s.point s.value →
      Ends fails (fun w => f.At top w.point w.value) (sweep f search i ds s) := by
  intro ds
  induction ds with
  | nil => intro i s _ hs; exact hs
  | cons d ds ih =>
    intro i s hds hs
    have hd : Ray.Sized f.dimension ⟨s.point, d⟩ := ⟨hs.size, hds d List.mem_cons_self⟩
    have hds' : ∀ d ∈ ds, d.size = f.dimension := fun d h => hds d (List.mem_cons_of_mem _ h)
    unfold sweep
    refine (Objective.descend_ends hf htol hd hs.value).bind fun p hp => ?_
    have hat := hp.at hs.below
    dsimp only
    split_ifs with h
    · exact ih _ _ hds' hat
    · exact ih _ _ hds' hat

omit [Exact α] in
/-- The exchange brings no direction of another length. -/
theorem size_of_mem_exchange {n : ℕ} {ds : List (Components α)} {added : Components α} {k : ℕ}
    (hds : ∀ d ∈ ds, d.size = n) (ha : added.size = n) :
    ∀ d ∈ exchange ds k added, d.size = n := by
  intro d hd
  unfold exchange at hd
  rcases List.mem_or_eq_of_mem_set hd with h | h
  · cases hl : ds[ds.length - 1]? with
    | none => rw [hl] at h; exact hds d h
    | some last =>
      rw [hl] at h
      rcases List.mem_or_eq_of_mem_set h with h | h
      · exact hds d h
      · rw [h]; exact hds last (List.mem_of_getElem? hl)
  · rw [h]; exact ha

/-- Every vector of the state has the right length, and point and value are a place. -/
structure Coherent (f : Objective (Except (Fault α)) α) (top : α) (s : DirectionSet α) : Prop where
  here : f.At top s.point s.value
  directions : ∀ d ∈ s.directions, d.size = f.dimension
  anchor : s.anchor.size = f.dimension

theorem replaceDirection_ends (hf : f.Within fails) (htol : 0 < search.tolerance) {s : DirectionSet α}
    (hs : s.Coherent f top) (before : α) {w : Sweep α} (hw : f.At top w.point w.value) :
    Ends fails (Coherent f top) (replaceDirection f search s before w) := by
  have hsize : (extrapolated s.anchor w.point).size = f.dimension := by
    simp [extrapolated, hs.anchor, hw.size]
  have hway : Ray.Sized f.dimension ⟨w.point, w.point.sub s.anchor⟩ :=
    ⟨hw.size, by simp [hs.anchor, hw.size]⟩
  unfold replaceDirection
  -- the value beyond only decides; whichever way it falls, the place is that of the sweep or lower
  refine (hf.value _ hsize).bind fun beyond _ => ?_
  split_ifs with h
  · refine (Objective.descend_ends hf htol hway hw.value).bind fun p hp => Ends.pure.2 ?_
    exact ⟨hp.at hw.below, size_of_mem_exchange hs.directions hp.sized.2, hw.size⟩
  · exact Ends.pure.2 ⟨hw, hs.directions, hw.size⟩

/-- **The iteration over direction sets** ends at a place, within its budget. -/
theorem iterate_ends (hf : f.Within fails) (htol : 0 < settings.lineTolerance) {start : Components α}
    (htop : f.value start = .ok top) : ∀ left done (s : DirectionSet α),
      done + left = settings.maxIterations → s.Coherent f top →
      Ends fails (Minimum.DescendsFrom f start settings.maxIterations)
        (iterate f settings left done s) := by
  intro left
  induction left with
  | zero => intro done s _ _; exact hf.condition _
  | succ left ih =>
    intro done s hd hs
    have hb : done + 1 + left = settings.maxIterations := by omega
    unfold iterate
    refine (sweep_ends hf htol s.directions 0 ⟨s.point, s.value, 0, 0⟩ hs.directions hs.here).bind
      fun w hw => ?_
    split_ifs with h1 h2
    · exact Ends.pure.2 (hw.descendsFrom htop (by omega) (by omega) _)
    · exact ih _ _ hb ⟨hw, fun d hd => Components.size_of_mem_basis hd, hw.size⟩
    · exact (replaceDirection_ends hf htol hs s.value hw).bind fun s' hs' => ih _ _ hb hs'

end DirectionSet

/-- **Powell's method descends.** -/
theorem Objective.minimizeByDirections_ends {f : Objective (Except (Fault α)) α} (hf : f.Within fails)
    {start : Components α} (hstart : Ends fails (fun _ => True) (checkStart f.dimension start settings)) :
    Ends fails (Minimum.DescendsFrom f start settings.maxIterations)
      (f.minimizeByDirections start settings) := by
  unfold minimizeByDirections
  rw [ensure_eq]
  refine hstart.is_result.bind fun _ h => ?_
  obtain ⟨-, hsize, hset⟩ := checkStart_eq_ok.1 h.2
  have htol := (Settings.check_eq_ok.1 hset).2.1
  refine (hf.value start hsize).is_result.bind fun v hv => ?_
  simp only [Scalar.isFinite_exact, if_true]
  refine DirectionSet.iterate_ends hf htol hv.2 _ _ _ (by omega) ?_
  exact ⟨⟨hsize, hv.2, le_rfl⟩, fun d hd => Components.size_of_mem_basis hd, hsize⟩

namespace ConjugateGradient

variable {f : SmoothObjective (Except (Fault α)) α}

@[simp] theorem size_usable (d : Components α) : (usable d).size = d.size := by
  unfold usable; split_ifs <;> simp

theorem checkFinite_eq (value : α) (gradient : Components α) : checkFinite value gradient = .ok () := by
  unfold checkFinite
  rw [if_pos]
  simp

/-- Point and value are a place; unless every fault is allowed, the directions have the right
length. -/
structure Coherent (fails : Fault α → Prop) (f : Objective (Except (Fault α)) α) (top : α)
    (s : ConjugateGradient α) : Prop where
  here : f.At top s.point s.value
  sized : (∀ e, fails e) ∨ s.conjugate.size = f.dimension

/-- The next state, if there is one, is at the new point. -/
theorem judge_proceed {tolerance : α} {s next : ConjugateGradient α} {point gradient : Components α}
    {value : α} (h : s.judge tolerance point value gradient = .proceed next) :
    next.point = point ∧ next.value = value ∧
      next.conjugate.size = min gradient.size s.conjugate.size := by
  unfold judge at h
  dsimp only at h
  split_ifs at h
  cases h
  simp

/-- **The iteration over conjugate gradients** ends at a place, within its budget. -/
theorem iterate_ends (hf : f.Within fails) (hc : f.Coherent) (htol : 0 < settings.lineTolerance)
    {start : Components α} (htop : f.value start = .ok top) : ∀ left done (s : ConjugateGradient α),
      done + left = settings.maxIterations → s.Coherent fails f.toObjective top →
      Ends fails (Minimum.DescendsFrom f.toObjective start settings.maxIterations)
        (iterate f settings left done s) := by
  intro left
  induction left with
  | zero => intro done s _ _; exact hf.condition _
  | succ left ih =>
    intro done s hd hs
    have hfit : Ends fails (fun _ => True) (Ray.check f.dimension ⟨s.point, usable s.conjugate⟩) := by
      rcases hs.sized with hall | hsz
      · exact Ends.of_all hall _
      · rw [Ray.check_eq_ok.2 ⟨hs.here.size, by simpa using hsz⟩]; trivial
    have hline : Ends fails _ (f.descend (LineSearch.ofSettings settings) _) :=
      f.descend_ends hf hc htol hfit hs.here.value
    unfold iterate
    dsimp only
    rw [observing_eq]
    -- a line on which the numbers give out ends the iteration at the place before it
    cases hl : f.descend (LineSearch.ofSettings settings) ⟨s.point, usable s.conjugate⟩ with
    | error e =>
      show Ends _ _ (if e.isPoorlyConditioned then _ else _)
      split_ifs with h
      · exact Ends.pure.2 (hs.here.descendsFrom htop (by omega) (by omega) _)
      · exact hline.of_error hl
    | ok p =>
      obtain ⟨there, value, gradient⟩ := p
      obtain ⟨hp, hg⟩ := hline.of_ok hl
      have hat : f.At top there.origin value := hp.at hs.here.below
      have hfinite : Ends fails (fun _ => True) (ensure (checkFinite value gradient)) := by
        rw [ensure_eq, checkFinite_eq]
        trivial
      refine hfinite.bind fun _ _ => ?_
      cases hj : s.judge settings.tolerance there.origin value gradient with
      | stop reason => exact Ends.pure.2 (hat.descendsFrom htop (by omega) (by omega) _)
      | proceed next =>
        obtain ⟨h1, h2, h3⟩ := judge_proceed hj
        refine ih _ _ (by omega) ⟨by rw [h1, h2]; exact hat, ?_⟩
        -- the new direction is no longer than the gradient and the one before it
        rcases hf.sized with hall | hsz
        · exact Or.inl hall
        rcases hs.sized with hall | hcs
        · exact Or.inl hall
        · right; rw [h3, hsz _ _ _ hat.size hg, hcs, min_self]

end ConjugateGradient

/-- **The conjugate gradient method descends.** -/
theorem SmoothObjective.minimizeByGradients_ends {f : SmoothObjective (Except (Fault α)) α}
    (hf : f.Within fails) (hc : f.Coherent) {start : Components α}
    (hstart : Ends fails (fun _ => True) (checkStart f.dimension start settings)) :
    Ends fails (Minimum.DescendsFrom f.toObjective start settings.maxIterations)
      (f.minimizeByGradients start settings) := by
  unfold minimizeByGradients
  rw [ensure_eq]
  refine hstart.is_result.bind fun _ h => ?_
  obtain ⟨-, hsize, hset⟩ := checkStart_eq_ok.1 h.2
  have htol := (Settings.check_eq_ok.1 hset).2.1
  refine (hf.gradient start hsize).is_result.bind fun p hp => ?_
  obtain ⟨v, g⟩ := p
  have hv := hc _ _ _ hp.2
  dsimp only
  rw [ensure_eq, ConjugateGradient.checkFinite_eq]
  refine ConjugateGradient.iterate_ends hf hc htol hv _ _ _ (by omega) ⟨⟨hsize, hv, le_rfl⟩, ?_⟩
  rcases hf.sized with hall | hsz
  · exact Or.inl hall
  · right; rw [Components.size_neg]; exact hsz _ _ _ hsize hp.2

end EnergyStep
