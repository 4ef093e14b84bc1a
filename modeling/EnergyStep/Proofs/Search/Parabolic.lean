import EnergyStep.Proofs.Recording
import EnergyStep.Proofs.Search.Enclosure
import EnergyStep.Proofs.Search.LineMinimum

/-!
# The search by values stays in its interval

While the interval is not settled one part of it is more than two minimal steps long. So there is
room for the next place: golden steps and steps to the middle lead into the longer part, and a
parabola is followed only into a place two minimal steps from both ends. Every place is then inside
the interval, and the interval stays an enclosure of the best sample until it is settled.

* `Parabolic.propose_fits`, `Parabolic.next_inside`: the next step, and where it leads.
* `Parabolic.Reaches`: the states at the beginning of the rounds, with the samples before them.
* `Parabolic.Ended`, `Parabolic.ran_minimize`: how a search ends, and where it evaluated.
* `Parabolic.minimize_encloses`: the search as a whole.
-/

namespace EnergyStep

variable {α : Type} [Exact α]

namespace Parabolic

/-- The interval and the best sample of a state. -/
def enclosure (s : Parabolic α) : Enclosure α := ⟨s.lower, s.best, s.upper⟩

/-- The next place. -/
def next (tolerance : α) (s : Parabolic α) : α := s.target tolerance (s.propose tolerance)

/-- The state after the value at the next place is known. -/
def advance (tolerance : α) (s : Parabolic α) (v : α) : Parabolic α :=
  s.absorb (s.propose tolerance) ⟨s.next tolerance, v⟩

theorem absorb_enclosure (s : Parabolic α) (step : Step α) (u : Sample α) :
    (s.absorb step u).enclosure = s.enclosure.cut u := by
  unfold absorb Enclosure.cut enclosure
  dsimp only
  split_ifs <;> rfl

section Step

variable {tolerance d : α} {s : Parabolic α}

/-- **There is room for a step**, and for a minimal one, on its side of the best place. -/
def Room (tolerance : α) (s : Parabolic α) (d : α) : Prop :=
  (0 ≤ d ∧ d < s.upper - s.best.x ∧ minimalStep tolerance s.best.x < s.upper - s.best.x) ∨
    (d < 0 ∧ -d < s.best.x - s.lower ∧ minimalStep tolerance s.best.x < s.best.x - s.lower)

/-- A golden step cuts the longer part. -/
theorem sectionStep_room (htol : 0 < tolerance) (h : ¬ s.enclosure.Settled tolerance) :
    s.Room tolerance s.sectionStep.size := by
  have hpos := minimalStep_pos htol s.best.x
  have hlong := Enclosure.long_of_not_settled h
  have hg : (goldenSection : α) = 0.381966011250105 := rfl
  have hlow : (0 : α) < goldenSection := by rw [hg]; norm_num
  have hhigh : (goldenSection : α) < 1 := by rw [hg]; norm_num
  simp only [enclosure] at hlong
  unfold Room sectionStep reach
  rw [midpoint_eq]
  split_ifs with hx
  · -- the lower part is the longer one
    have hlong : 2 * minimalStep tolerance s.best.x < s.best.x - s.lower := by
      rcases hlong with h | h <;> linarith
    have hreach : s.lower - s.best.x < 0 := by linarith
    right
    exact ⟨mul_neg_of_pos_of_neg hlow hreach, by nlinarith, by linarith⟩
  · have hlong : 2 * minimalStep tolerance s.best.x < s.upper - s.best.x := by
      rcases hlong with h | h <;> linarith
    have hreach : 0 < s.upper - s.best.x := by linarith
    left
    exact ⟨(mul_pos hlow hreach).le, by nlinarith, by linarith⟩

/-- A minimal step to the middle leads into the longer part. -/
theorem toMiddle_room (htol : 0 < tolerance) (h : ¬ s.enclosure.Settled tolerance) :
    s.Room tolerance (Scalar.copySign (minimalStep tolerance s.best.x)
      (midpoint s.lower s.upper - s.best.x)) := by
  have hpos := minimalStep_pos htol s.best.x
  have hlong := Enclosure.long_of_not_settled h
  simp only [enclosure] at hlong
  unfold Room
  rw [copySign_eq hpos.le, midpoint_eq]
  split_ifs with hx
  · have hlong : 2 * minimalStep tolerance s.best.x < s.best.x - s.lower := by
      rcases hlong with h | h <;> linarith
    right
    exact ⟨by linarith, by linarith, by linarith⟩
  · have hlong : 2 * minimalStep tolerance s.best.x < s.upper - s.best.x := by
      rcases hlong with h | h <;> linarith
    left
    exact ⟨hpos.le, by linarith, by linarith⟩

/-- A place two minimal steps from both ends has room on either side of it. -/
theorem inner_room (htol : 0 < tolerance)
    (hl : 2 * minimalStep tolerance s.best.x ≤ s.best.x + d - s.lower)
    (hu : 2 * minimalStep tolerance s.best.x ≤ s.upper - (s.best.x + d)) : s.Room tolerance d := by
  have hpos := minimalStep_pos htol s.best.x
  unfold Room
  rcases le_or_gt 0 d with hd | hd
  · left; exact ⟨hd, by linarith, by linarith⟩
  · right; exact ⟨hd, by linarith, by linarith⟩

/-- There is room for the step, and its size says on which side it is. -/
structure Step.Fits (tolerance : α) (s : Parabolic α) (step : Step α) : Prop where
  room : s.Room tolerance step.size
  side : step.side = step.size

/-- A parabola is followed if there is room at its lowest point. -/
theorem parabolaStep_fits (htol : 0 < tolerance) (h : ¬ s.enclosure.Settled tolerance) :
    (s.parabolaStep tolerance).Fits tolerance s := by
  unfold parabolaStep
  -- it does not matter which parabola it is
  extract_lets x r q₀ p₀ q₁ p q
  clear_value p q
  split_ifs with hbad hend hsize
  · exact ⟨sectionStep_room htol h, rfl⟩
  · exact ⟨toMiddle_room htol h, rfl⟩
  · rw [not_or, not_lt, not_lt, Scalar.two_eq] at hend
    exact ⟨inner_room htol hend.1 hend.2, rfl⟩
  all_goals exact absurd le_rfl hsize

/-- **The next step has room**, whichever way it was found. -/
theorem propose_fits (htol : 0 < tolerance) (h : ¬ s.enclosure.Settled tolerance) :
    (s.propose tolerance).Fits tolerance s := by
  unfold propose
  split_ifs
  · exact parabolaStep_fits htol h
  · exact ⟨sectionStep_room htol h, rfl⟩

/-- A step that has room leads to a place inside, at least a minimal step from the best one. -/
theorem Step.Fits.target_inside {step : Step α} (h : step.Fits tolerance s) (htol : 0 < tolerance)
    (hl : s.lower < s.best.x) (hu : s.best.x < s.upper) :
    s.lower < s.target tolerance step ∧ s.target tolerance step < s.upper ∧
      minimalStep tolerance s.best.x ≤ |s.target tolerance step - s.best.x| := by
  have hpos := minimalStep_pos htol s.best.x
  have habs : ∀ d : α, Scalar.abs d = |d| := fun _ => rfl
  unfold target
  dsimp only
  rw [h.side, copySign_eq hpos.le, habs]
  rcases h.room with ⟨hd, h1, h2⟩ | ⟨hd, h1, h2⟩
  · rw [abs_of_nonneg hd, if_neg (not_lt.2 hd)]
    split_ifs with hlong
    · rw [add_sub_cancel_left, abs_of_nonneg hd]
      exact ⟨by linarith, by linarith, hlong⟩
    · rw [add_sub_cancel_left, abs_of_pos hpos]
      exact ⟨by linarith, by linarith, le_rfl⟩
  · rw [abs_of_neg hd, if_pos hd]
    split_ifs with hlong
    · rw [add_sub_cancel_left, abs_of_neg hd]
      exact ⟨by linarith, by linarith, hlong⟩
    · rw [add_sub_cancel_left, abs_neg, abs_of_pos hpos]
      exact ⟨by linarith, by linarith, le_rfl⟩

/-- **The next place is inside the interval**, and at least a minimal step from the best one. -/
theorem next_inside (htol : 0 < tolerance) (hl : s.lower < s.best.x) (hu : s.best.x < s.upper)
    (h : ¬ s.enclosure.Settled tolerance) :
    s.lower < s.next tolerance ∧ s.next tolerance < s.upper ∧
      minimalStep tolerance s.best.x ≤ |s.next tolerance - s.best.x| :=
  (propose_fits htol h).target_inside htol hl hu

end Step

variable {f : α → Except (Fault α) α} {t : Bracket α} {tolerance : α}

/-- **The rounds of a search**: the states at the beginning of a round, each with the samples taken
before it. -/
inductive Reaches (f : α → Except (Fault α) α) (t : Bracket α) (tolerance : α) :
    Parabolic α → List (Sample α) → Prop
  | start : Reaches f t tolerance (start t) []
  | round {s : Parabolic α} {us : List (Sample α)} {v : α} (h : Reaches f t tolerance s us)
      (hopen : ¬ s.enclosure.Settled tolerance) (hv : f (s.next tolerance) = .ok v) :
      Reaches f t tolerance (s.advance tolerance v) (us ++ [⟨s.next tolerance, v⟩])

/-- **What holds at the beginning of every round**: the interval is a part of the bracket and encloses
the best sample, which is the lowest of the middle of the bracket and the samples so far. -/
structure Keeps (f : α → Except (Fault α) α) (t : Bracket α) (s : Parabolic α)
    (us : List (Sample α)) : Prop where
  sound : s.enclosure.Sound f
  within : t.lower ≤ s.lower ∧ s.upper ≤ t.upper
  sampled : ∀ u ∈ us, u.Of f
  known : s.best ∈ t.b :: us
  least : ∀ u ∈ t.b :: us, s.best.value ≤ u.value

theorem Keeps.start (ht : t.isValid = true) (ha : t.a.Of f) (hb : t.b.Of f) (hc : t.c.Of f) :
    Keeps f t (start t) [] where
  sound := t.enclosure_sound ht ha hb hc
  within := ⟨le_rfl, le_rfl⟩
  sampled := fun _ hu => absurd hu List.not_mem_nil
  known := List.mem_cons_self
  least := by
    intro u hu
    rw [List.mem_singleton.1 hu]
    exact le_rfl

/-- A new sample is ranked: the lower of the best and the new one is the lowest of all. -/
theorem absorb_ranked {s : Parabolic α} {us : List (Sample α)} (step : Step α) (u : Sample α)
    (hknown : s.best ∈ us) (hleast : ∀ w ∈ us, s.best.value ≤ w.value) :
    (s.absorb step u).best ∈ us ++ [u] ∧ ∀ w ∈ us ++ [u], (s.absorb step u).best.value ≤ w.value := by
  rw [absorb_best]
  split_ifs with hv
  · refine ⟨by simp, fun w hw => ?_⟩
    rcases List.mem_append.1 hw with hw | hw
    · exact hv.trans (hleast w hw)
    · rw [List.mem_singleton.1 hw]
  · refine ⟨List.mem_append_left _ hknown, fun w hw => ?_⟩
    rcases List.mem_append.1 hw with hw | hw
    · exact hleast w hw
    · rw [List.mem_singleton.1 hw]
      exact (not_le.1 hv).le

/-- What one round does, from an interval that is not settled. -/
structure Cuts (tolerance : α) (s : Parabolic α) (v : α) : Prop where
  /-- The new place is strictly inside. -/
  inside : s.lower < s.next tolerance ∧ s.next tolerance < s.upper
  /-- It is not near the best one. -/
  apart : tolerance * |s.best.x| + 1e-12 ≤ |s.next tolerance - s.best.x|
  /-- The new interval is strictly contained in the old one. -/
  shrinks : Set.Icc (s.advance tolerance v).lower (s.advance tolerance v).upper ⊂ Set.Icc s.lower s.upper

theorem Keeps.cuts {s : Parabolic α} {us : List (Sample α)} (h : Keeps f t s us)
    (htol : 0 < tolerance) (hopen : ¬ s.enclosure.Settled tolerance) (v : α) : Cuts tolerance s v := by
  obtain ⟨hl, hu, hapart⟩ := next_inside htol h.sound.above_lower h.sound.below_upper hopen
  refine ⟨⟨hl, hu⟩, hapart, ?_⟩
  have hcut := Enclosure.cut_ssubset (u := ⟨s.next tolerance, v⟩)
    ⟨h.sound.above_lower, h.sound.below_upper⟩ hl hu
  rw [← absorb_enclosure s (s.propose tolerance)] at hcut
  exact hcut

/-- **One round keeps what holds.** -/
theorem Keeps.round {s : Parabolic α} {us : List (Sample α)} (h : Keeps f t s us)
    (htol : 0 < tolerance) (hopen : ¬ s.enclosure.Settled tolerance) {v : α}
    (hv : f (s.next tolerance) = .ok v) :
    Keeps f t (s.advance tolerance v) (us ++ [⟨s.next tolerance, v⟩]) := by
  obtain ⟨⟨hl, hu⟩, hapart, hshrinks⟩ := h.cuts htol hopen v
  have hpos := minimalStep_pos htol s.best.x
  have hne : s.next tolerance ≠ s.best.x := by
    intro heq
    rw [heq, sub_self, abs_zero, ← minimalStep_eq] at hapart
    exact absurd hpos (not_lt.2 hapart)
  have hsound : (s.advance tolerance v).enclosure.Sound f := by
    unfold advance
    rw [absorb_enclosure]
    exact h.sound.cut hv hl hu hne
  have hin : (s.advance tolerance v).lower ≤ (s.advance tolerance v).upper :=
    (hsound.above_lower.trans hsound.below_upper).le
  obtain ⟨h1, h2⟩ := (Set.Icc_subset_Icc_iff hin).1 hshrinks.subset
  obtain ⟨hknown, hleast⟩ := absorb_ranked (s.propose tolerance) ⟨s.next tolerance, v⟩ h.known h.least
  refine ⟨hsound, ⟨h.within.1.trans h1, h2.trans h.within.2⟩, ?_, hknown, hleast⟩
  intro w hw
  rcases List.mem_append.1 hw with hw | hw
  · exact h.sampled w hw
  · rw [List.mem_singleton.1 hw]
    exact hv

theorem Reaches.keeps (ht : t.isValid = true) (ha : t.a.Of f) (hb : t.b.Of f) (hc : t.c.Of f)
    (htol : 0 < tolerance) {s : Parabolic α} {us : List (Sample α)} (h : Reaches f t tolerance s us) :
    Keeps f t s us := by
  induction h with
  | start => exact Keeps.start ht ha hb hc
  | round _ hopen hv ih => exact ih.round htol hopen hv

/-- **How a search ends**, with the places of its evaluations: at a settled interval, with a fault of
the function at the next place, or with its budget of rounds spent. -/
inductive Ended (f : α → Except (Fault α) α) (t : Bracket α) (tolerance : α) :
    Except (Fault α) (LineMinimum α) → List α → Prop
  | settled {s : Parabolic α} {us : List (Sample α)} (h : Reaches f t tolerance s us)
      (hs : s.enclosure.Settled tolerance) :
      Ended f t tolerance (.ok ⟨s.best.x, s.best.value, none, us.length⟩) (us.map Sample.x)
  | failed {s : Parabolic α} {us : List (Sample α)} {e : Fault α} (h : Reaches f t tolerance s us)
      (hopen : ¬ s.enclosure.Settled tolerance) (he : f (s.next tolerance) = .error e) :
      Ended f t tolerance (.error e) (us.map Sample.x ++ [s.next tolerance])
  | spent {s : Parabolic α} {us : List (Sample α)} (h : Reaches f t tolerance s us)
      (hall : us.length = searchRounds) :
      Ended f t tolerance (.error (.condition (.parabolicSearch searchRounds))) (us.map Sample.x)

/-- A recorded probe is a recorded evaluation. -/
theorem ran_probe (f : α → Except (Fault α) α) (x : α) (places : List α) :
    Recording.ran (probe (recorded f) x) places = (probe f x, places ++ [x]) := by
  rw [probe_eq]
  unfold probe
  simp only [Scalar.isFinite_exact, if_true, Recording.ran_bind, Recording.ran_pure,
    Recording.ran_recorded]
  cases f x <;> rfl

theorem rounds_settled {m : Type → Type} [Monad m] [MonadExceptOf (Fault α) m] {g : α → m α}
    {s : Parabolic α} (h : s.enclosure.Settled tolerance) (left done : ℕ) :
    rounds g tolerance (left + 1) done s = pure ⟨s.best.x, s.best.value, none, done⟩ := by
  have hs : isSettled tolerance s.lower s.upper s.best.x = true := h
  rw [rounds, if_pos hs]

theorem rounds_open {m : Type → Type} [Monad m] [MonadExceptOf (Fault α) m] {g : α → m α}
    {s : Parabolic α} (h : ¬ s.enclosure.Settled tolerance) (left done : ℕ) :
    rounds g tolerance (left + 1) done s = probe g (s.next tolerance) >>= fun u =>
      rounds g tolerance left (done + 1) (s.absorb (s.propose tolerance) u) := by
  have hs : ¬ isSettled tolerance s.lower s.upper s.best.x = true := h
  rw [rounds, if_neg hs]
  rfl

/-- **Recording changes nothing**, and a search ends in one of three ways. -/
theorem ran_rounds (f : α → Except (Fault α) α) (t : Bracket α) (tolerance : α) :
    ∀ left (s : Parabolic α) (us : List (Sample α)), Reaches f t tolerance s us →
      us.length + left = searchRounds → ∃ places,
        Recording.ran (rounds (recorded f) tolerance left us.length s) (us.map Sample.x) =
          (rounds f tolerance left us.length s, places) ∧
        Ended f t tolerance (rounds f tolerance left us.length s) places := by
  intro left
  induction left with
  | zero =>
    intro s us h hlen
    exact ⟨_, rfl, .spent h hlen⟩
  | succ left ih =>
    intro s us h hlen
    by_cases hs : s.enclosure.Settled tolerance
    · rw [rounds_settled hs, rounds_settled hs]
      exact ⟨_, rfl, .settled h hs⟩
    · rw [rounds_open hs, rounds_open hs, Recording.ran_bind, ran_probe, probe_eq]
      cases hv : f (s.next tolerance) with
      | error e => exact ⟨_, rfl, .failed h hs hv⟩
      | ok v =>
        -- the next round begins with one sample more
        have hnext := ih _ _ (h.round hs hv) (by rw [List.length_append, List.length_singleton]; omega)
        rw [List.length_append, List.length_singleton, List.map_append] at hnext
        exact hnext

/-- The search with the places of its evaluations recorded. -/
def recordedMinimize (f : α → Except (Fault α) α) (t : Bracket α) (tolerance : α) :
    Except (Fault α) (LineMinimum α) × List α :=
  Recording.ran (minimize (recorded f) t tolerance) []

theorem ran_minimize (ht : t.isValid = true) (htol : 0 < tolerance) :
    (recordedMinimize f t tolerance).1 = minimize f t tolerance ∧
      Ended f t tolerance (minimize f t tolerance) (recordedMinimize f t tolerance).2 := by
  obtain ⟨places, hran, hend⟩ := ran_rounds f t tolerance searchRounds (start t) [] .start (Nat.zero_add _)
  have hcheck := checkSearch_eq_ok ht htol
  have hrec : recordedMinimize f t tolerance = (rounds f tolerance searchRounds 0 (start t), places) := by
    unfold recordedMinimize minimize
    rw [hcheck]
    exact hran
  have hmin : minimize f t tolerance = rounds f tolerance searchRounds 0 (start t) := by
    unfold minimize
    rw [hcheck]
    rfl
  rw [hrec, hmin]
  exact ⟨rfl, hend⟩

/-- **The search by values never leaves its interval.** The states at the beginning of its rounds keep
the best sample enclosed, and a round cuts the interval at a place strictly inside; the evaluations are
those at the places of the rounds, in order. So a result is strictly inside the bracket and has the
value of the function, which is no higher than the middle of the bracket; in a valley it is near the
bottom. -/
theorem minimize_encloses (f : α → Except (Fault α) α) (t : Bracket α) (tolerance : α)
    (ht : t.isValid = true) (ha : t.a.Of f) (hb : t.b.Of f) (hc : t.c.Of f) (htol : 0 < tolerance) :
    (∀ s us, Reaches f t tolerance s us → Keeps f t s us ∧
      (¬ s.enclosure.Settled tolerance → ∀ v, Cuts tolerance s v)) ∧
    (recordedMinimize f t tolerance).1 = minimize f t tolerance ∧
    Ended f t tolerance (minimize f t tolerance) (recordedMinimize f t tolerance).2 ∧
    (∀ m, minimize f t tolerance = .ok m → (t.lower < m.x ∧ m.x < t.upper) ∧
      f m.x = .ok m.value ∧ m.value ≤ t.b.value ∧
      ∀ bottom, Valley f bottom → |m.x - bottom| ≤ 2 * (tolerance * |m.x| + 1e-12)) := by
  have hkeeps : ∀ {s us}, Reaches f t tolerance s us → Keeps f t s us :=
    fun h => h.keeps ht ha hb hc htol
  obtain ⟨hsame, hended⟩ := ran_minimize ht htol
  refine ⟨fun s us h => ⟨hkeeps h, fun hopen v => (hkeeps h).cuts htol hopen v⟩, hsame, hended, ?_⟩
  intro m hm
  rw [hm] at hended
  generalize (recordedMinimize f t tolerance).2 = places at hended
  cases hended with
  | settled h hs =>
    have hk := hkeeps h
    refine ⟨⟨?_, ?_⟩, hk.sound.best, hk.least _ List.mem_cons_self, ?_⟩
    · exact hk.within.1.trans_lt hk.sound.above_lower
    · exact hk.sound.below_upper.trans_le hk.within.2
    · intro bottom hv
      exact hk.sound.near_bottom hs hv

/-- Samples of the cliff, far from its edge on both sides. -/
def gorge : Bracket ℚ := ⟨⟨0, 2⟩, ⟨100, -98⟩, ⟨1000, 1000⟩⟩

/-- A search for the edge, with golden steps and parabolas. -/
theorem minimize_encloses_cliff : ∃ m, minimize Bracket.cliff gorge (1 / 100) = .ok m ∧
    (0 < m.x ∧ m.x < 1000) ∧ Bracket.cliff m.x = .ok m.value ∧ m.value ≤ -98 ∧
    |m.x - 600| ≤ 2 * (1 / 100 * |m.x| + 1e-12) := by
  have hok : (minimize Bracket.cliff gorge (1 / 100)).isOk = true := by decide +kernel
  have hsampled : gorge.a.Of Bracket.cliff ∧ gorge.b.Of Bracket.cliff ∧ gorge.c.Of Bracket.cliff := by
    unfold Sample.Of; decide +kernel
  obtain ⟨ha, hb, hc⟩ := hsampled
  obtain ⟨-, -, -, hresult⟩ :=
    minimize_encloses Bracket.cliff gorge (1 / 100) (by decide +kernel) ha hb hc (by norm_num)
  cases hm : minimize Bracket.cliff gorge (1 / 100) with
  | error e => rw [hm] at hok; cases hok
  | ok m =>
    obtain ⟨hin, hval, hle, hnear⟩ := hresult m hm
    have hlower : gorge.lower = 0 := by decide +kernel
    have hupper : gorge.upper = 1000 := by decide +kernel
    rw [hlower, hupper] at hin
    exact ⟨m, rfl, hin, hval, hle, hnear 600 Bracket.valley_cliff⟩

end Parabolic
end EnergyStep
