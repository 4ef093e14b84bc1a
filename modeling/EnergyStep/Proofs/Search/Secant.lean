import EnergyStep.Proofs.Recording
import EnergyStep.Proofs.Search.Enclosure
import EnergyStep.Proofs.Search.LineMinimum

/-!
# How far the search by slopes goes

A secant is followed only into a place two minimal steps from both ends, and a minimal step to the
middle leads into the longer part, so these places are inside. Halving goes to the end that the slope
points to, which can be nearer than a minimal step; a minimal step then leads past it. Unless that
happens the best place stays in the interval, and every place is in the bracket.

* `Secant.Proposed`, `Secant.next_inside_iff`: the next step, and when it stays inside.
* `Secant.Reaches`: the states at the beginning of the rounds, with the samples before them.
* `Secant.Ended`, `Secant.ran_minimize`: how a search ends, and where it evaluated.
* `Secant.minimize_stays`: which searches stay in the bracket, and how far the others leave it.
-/

namespace EnergyStep

variable {α : Type} [Exact α]

/-- The middle of a bracket is in it. -/
theorem Bracket.contains_middle {t : Bracket α} (ht : t.isValid = true) :
    t.contains t.b.x = true := by
  have hin := (isValid_iff.1 ht).1.inside
  exact contains_iff.2 ⟨hin.1.le, hin.2.le⟩

/-- The place is in the bracket, or no farther than a minimal step from one that is. -/
def Bracket.Near (tolerance : α) (t : Bracket α) (x : α) : Prop :=
  ∃ y, t.contains y = true ∧ |x - y| ≤ minimalStep tolerance y

theorem Bracket.Near.of_contains {tolerance x : α} {t : Bracket α} (htol : 0 < tolerance)
    (h : t.contains x = true) : t.Near tolerance x :=
  ⟨x, h, by rw [sub_self, abs_zero]; exact (minimalStep_pos htol x).le⟩

namespace Secant

/-- The interval and the best sample of a state. -/
def enclosure (s : Secant α) : Enclosure α := ⟨s.lower, s.best.toSample, s.upper⟩

/-- The best place is in the interval or on an end of it. -/
def Within (s : Secant α) : Prop := s.lower ≤ s.best.x ∧ s.best.x ≤ s.upper

/-- The next place. -/
def next (tolerance : α) (s : Secant α) : α := s.target tolerance (s.propose tolerance)

/-- The sample at the next place. -/
def sample (tolerance : α) (s : Secant α) (v d : α) : Tangent α := ⟨⟨s.next tolerance, v⟩, d⟩

/-- The state after value and slope at the next place are known. -/
def advance (tolerance : α) (s : Secant α) (v d : α) : Secant α :=
  s.absorb (s.propose tolerance) (s.sample tolerance v d)

/-- Even a minimal step leads uphill. -/
def Uphill (tolerance : α) (s : Secant α) (v : α) : Prop :=
  s.isMinimal tolerance (s.propose tolerance) = true ∧ s.best.value < v

theorem absorb_enclosure (s : Secant α) (step : Step α) (u : Tangent α) :
    (s.absorb step u).enclosure = s.enclosure.cut u.toSample := by
  unfold absorb Enclosure.cut enclosure
  dsimp only
  split_ifs <;> rfl

section Step

variable {tolerance d : α} {s : Secant α} {step : Step α}

/-- The way from the best place to the end that the slope points to. -/
def reach (s : Secant α) : α :=
  if s.best.slope ≥ 0 then s.lower - s.best.x else s.upper - s.best.x

theorem halvingStep_eq (s : Secant α) : s.halvingStep = ⟨s.reach, s.reach / 2⟩ := by
  have hhalf : 0.5 * s.reach = s.reach / 2 := by rw [Scalar.half_eq, one_div_mul_eq_div]
  rw [← hhalf]
  rfl

theorem isAcceptable_iff : s.isAcceptable d = true ↔
    0 < (s.lower - (s.best.x + d)) * (s.best.x + d - s.upper) ∧ s.best.slope * d ≤ 0 := by
  simp [isAcceptable]

/-- A candidate is one of the two secant steps, and acceptable. -/
theorem candidate?_eq_some (h : s.candidate? = some d) : s.isAcceptable d = true ∧
    (d = s.offset s.second ∨ d = s.offset s.third) := by
  unfold candidate? at h
  dsimp only at h
  split at h
  case h_1 h₁ h₂ =>
    split_ifs at h <;> cases h
    · exact ⟨h₁, Or.inl rfl⟩
    · exact ⟨h₂, Or.inr rfl⟩
  case h_2 h₁ h₂ => cases h; exact ⟨h₁, Or.inl rfl⟩
  case h_3 h₁ h₂ => cases h; exact ⟨h₂, Or.inr rfl⟩
  case h_4 => cases h

/-- **The next step** halves the part that the slope points to, or follows a secant to a place two
minimal steps from both ends, or is a minimal one to the middle. -/
inductive Proposed (tolerance : α) (s : Secant α) : Step α → Prop
  | halving : Proposed tolerance s s.halvingStep
  | secant {d : α} (h : s.candidate? = some d)
      (hl : 2 * minimalStep tolerance s.best.x ≤ s.best.x + d - s.lower)
      (hu : 2 * minimalStep tolerance s.best.x ≤ s.upper - (s.best.x + d)) :
      Proposed tolerance s ⟨s.last, d⟩
  | toMiddle : Proposed tolerance s ⟨s.last, Scalar.copySign (minimalStep tolerance s.best.x)
      (midpoint s.lower s.upper - s.best.x)⟩

theorem propose_proposed (tolerance : α) (s : Secant α) :
    Proposed tolerance s (s.propose tolerance) := by
  unfold propose
  dsimp only
  split_ifs with hlong
  · cases hc : s.candidate? with
    | none => exact .halving
    | some d =>
      dsimp only
      split_ifs with hshort hend
      · exact .toMiddle
      · rw [not_or, not_lt, not_lt, Scalar.two_eq] at hend
        exact .secant hc hend.1 hend.2
      · exact .halving
  · exact .halving

theorem isMinimal_iff :
    s.isMinimal tolerance step = true ↔ |step.size| < minimalStep tolerance s.best.x :=
  decide_eq_true_iff

/-- A step that is too short leads a minimal step to its side. -/
theorem target_of_minimal (htol : 0 < tolerance) (h : s.isMinimal tolerance step = true) :
    s.target tolerance step = if step.size < 0 then s.best.x - minimalStep tolerance s.best.x
      else s.best.x + minimalStep tolerance s.best.x := by
  unfold target
  rw [if_pos h, copySign_eq (minimalStep_pos htol _).le]
  split_ifs
  · rw [sub_eq_add_neg]
  · rfl

theorem target_of_not_minimal (h : ¬ s.isMinimal tolerance step = true) :
    s.target tolerance step = s.best.x + step.size := by
  unfold target
  rw [if_neg h]

/-- The end that the slope points to is nearer than a minimal step. A step of no size counts as one
upward, so a minimal step from the lower end itself leads back inside. -/
def Tight (tolerance : α) (s : Secant α) : Prop :=
  (0 ≤ s.best.slope ∧ s.lower < s.best.x ∧
      s.best.x - s.lower < minimalStep tolerance s.best.x) ∨
    (s.best.slope < 0 ∧ s.upper - s.best.x < minimalStep tolerance s.best.x)

/-- **A cramped step**: the interval is tight, and halving goes to its near end. -/
def Cramped (tolerance : α) (s : Secant α) : Prop :=
  s.propose tolerance = s.halvingStep ∧ s.Tight tolerance

/-- A cramped step is minimal and leads past the end. -/
theorem Cramped.outside (h : s.Cramped tolerance) (hin : s.Within) (htol : 0 < tolerance) :
    s.isMinimal tolerance (s.propose tolerance) = true ∧
      ((s.next tolerance = s.best.x - minimalStep tolerance s.best.x ∧ s.next tolerance < s.lower) ∨
        (s.next tolerance = s.best.x + minimalStep tolerance s.best.x ∧
          s.upper < s.next tolerance)) := by
  obtain ⟨hl, hu⟩ := hin
  obtain ⟨hp, hend⟩ := h
  unfold next
  rw [hp, halvingStep_eq]
  rcases hend with ⟨hslope, hlt, hnear⟩ | ⟨hslope, hnear⟩
  · have hreach : s.reach = s.lower - s.best.x := if_pos hslope
    have hmin : s.isMinimal tolerance ⟨s.reach, s.reach / 2⟩ = true := by
      rw [isMinimal_iff, hreach, abs_of_nonpos (by linarith)]
      linarith
    have hneg : s.reach / 2 < 0 := by rw [hreach]; linarith
    rw [target_of_minimal htol hmin, if_pos hneg]
    exact ⟨hmin, Or.inl ⟨rfl, by linarith⟩⟩
  · have hreach : s.reach = s.upper - s.best.x := if_neg (not_le.2 hslope)
    have hmin : s.isMinimal tolerance ⟨s.reach, s.reach / 2⟩ = true := by
      rw [isMinimal_iff, hreach, abs_of_nonneg (by linarith)]
      linarith
    have hpos : ¬ s.reach / 2 < 0 := by rw [hreach]; linarith
    rw [target_of_minimal htol hmin, if_neg hpos]
    exact ⟨hmin, Or.inr ⟨rfl, by linarith⟩⟩

/-- A cramped step is as long as a minimal one. -/
theorem Cramped.length (h : s.Cramped tolerance) (hin : s.Within) (htol : 0 < tolerance) :
    |s.next tolerance - s.best.x| = minimalStep tolerance s.best.x := by
  have hpos := minimalStep_pos htol s.best.x
  rcases (h.outside hin htol).2 with ⟨heq, -⟩ | ⟨heq, -⟩
  · rw [heq, sub_sub_cancel_left, abs_neg, abs_of_pos hpos]
  · rw [heq, add_sub_cancel_left, abs_of_pos hpos]

/-- Halving stays inside where there is room for a minimal step. -/
theorem halving_inside (hin : s.Within) (htol : 0 < tolerance)
    (hopen : ¬ s.enclosure.Settled tolerance)
    (hroom : ¬ s.Tight tolerance) :
    s.lower ≤ s.target tolerance s.halvingStep ∧ s.target tolerance s.halvingStep ≤ s.upper := by
  obtain ⟨hl, hu⟩ := hin
  have hpos := minimalStep_pos htol s.best.x
  have hlong := Enclosure.long_of_not_settled hopen
  simp only [enclosure] at hlong
  rw [halvingStep_eq]
  by_cases hmin : s.isMinimal tolerance ⟨s.reach, s.reach / 2⟩ = true
  · rw [target_of_minimal htol hmin]
    dsimp only
    by_cases hslope : 0 ≤ s.best.slope
    · have hreach : s.reach = s.lower - s.best.x := if_pos hslope
      rw [hreach]
      split_ifs with hneg
      · have hfar : minimalStep tolerance s.best.x ≤ s.best.x - s.lower := by
          by_contra hnear
          exact hroom (Or.inl ⟨hslope, by linarith, not_le.1 hnear⟩)
        exact ⟨by linarith, by linarith⟩
      · -- on the lower end; the upper part is the long one
        have heq : s.best.x = s.lower := by linarith
        rw [heq] at hlong hpos ⊢
        rcases hlong with h | h
        · linarith
        · exact ⟨by linarith, by linarith⟩
    · have hreach : s.reach = s.upper - s.best.x := if_neg hslope
      have hfar : minimalStep tolerance s.best.x ≤ s.upper - s.best.x := by
        by_contra hnear
        exact hroom (Or.inr ⟨not_le.1 hslope, not_le.1 hnear⟩)
      rw [hreach, if_neg (by linarith)]
      exact ⟨by linarith, by linarith⟩
  · rw [target_of_not_minimal hmin]
    unfold reach
    split_ifs
    · exact ⟨by linarith, by linarith⟩
    · exact ⟨by linarith, by linarith⟩

/-- A place two minimal steps from both ends has room for a minimal step to its side. -/
theorem secant_inside (htol : 0 < tolerance)
    (hl : 2 * minimalStep tolerance s.best.x ≤ s.best.x + d - s.lower)
    (hu : 2 * minimalStep tolerance s.best.x ≤ s.upper - (s.best.x + d)) :
    s.lower ≤ s.target tolerance ⟨s.last, d⟩ ∧ s.target tolerance ⟨s.last, d⟩ ≤ s.upper := by
  have hpos := minimalStep_pos htol s.best.x
  by_cases hmin : s.isMinimal tolerance ⟨s.last, d⟩ = true
  · obtain ⟨h1, h2⟩ := abs_lt.1 (isMinimal_iff.1 hmin)
    dsimp only at h1 h2
    rw [target_of_minimal htol hmin]
    dsimp only
    split_ifs
    · exact ⟨by linarith, by linarith⟩
    · exact ⟨by linarith, by linarith⟩
  · rw [target_of_not_minimal hmin]
    exact ⟨by linarith, by linarith⟩

/-- A minimal step is not too short. -/
theorem toMiddle_not_minimal (htol : 0 < tolerance) {side : α} (hsize : step.size =
    Scalar.copySign (minimalStep tolerance s.best.x) side) : ¬ s.isMinimal tolerance step = true := by
  have hpos := minimalStep_pos htol s.best.x
  rw [isMinimal_iff, hsize, copySign_eq hpos.le, not_lt]
  split_ifs
  · rw [abs_neg, abs_of_pos hpos]
  · rw [abs_of_pos hpos]

/-- A minimal step to the middle leads into the longer part. -/
theorem toMiddle_inside (hin : s.Within) (htol : 0 < tolerance)
    (hopen : ¬ s.enclosure.Settled tolerance) (hsize : step.size =
      Scalar.copySign (minimalStep tolerance s.best.x) (midpoint s.lower s.upper - s.best.x)) :
    s.lower ≤ s.target tolerance step ∧ s.target tolerance step ≤ s.upper := by
  obtain ⟨hl, hu⟩ := hin
  have hpos := minimalStep_pos htol s.best.x
  have hlong := Enclosure.long_of_not_settled hopen
  simp only [enclosure] at hlong
  rw [target_of_not_minimal (toMiddle_not_minimal htol hsize), hsize, copySign_eq hpos.le, midpoint_eq]
  split_ifs with hside
  · rcases hlong with h | h <;> exact ⟨by linarith, by linarith⟩
  · rcases hlong with h | h <;> exact ⟨by linarith, by linarith⟩

/-- **The next place is in the interval** unless the step is cramped. -/
theorem next_inside_iff (hin : s.Within) (htol : 0 < tolerance)
    (hopen : ¬ s.enclosure.Settled tolerance) :
    (s.lower ≤ s.next tolerance ∧ s.next tolerance ≤ s.upper) ↔ ¬ s.Cramped tolerance := by
  constructor
  · rintro ⟨hl, hu⟩ hcramped
    rcases (hcramped.outside hin htol).2 with ⟨-, hout⟩ | ⟨-, hout⟩
    · exact absurd hl (not_le.2 hout)
    · exact absurd hu (not_le.2 hout)
  · intro hroom
    have hp := propose_proposed tolerance s
    unfold next
    generalize hstep : s.propose tolerance = step at hp
    cases hp with
    | halving => exact halving_inside hin htol hopen fun h => hroom ⟨hstep, h⟩
    | secant _ hl hu => exact secant_inside htol hl hu
    | toMiddle => exact toMiddle_inside hin htol hopen rfl

end Step

variable {f : α → Except (Fault α) (α × α)} {t : Bracket α} {tolerance : α}

/-- Three times the sample in the middle of the bracket, in the interval between its ends. -/
def start (t : Bracket α) (b : Tangent α) : Secant α := ⟨t.lower, t.upper, b, b, b, 0, 0⟩

/-- **The rounds of a search**: the states at the beginning of a round, each with the samples taken
before it and after that in the middle of the bracket. -/
inductive Reaches (f : α → Except (Fault α) (α × α)) (t : Bracket α) (tolerance : α) :
    Secant α → List (Tangent α) → Prop
  | start {v d : α} (hb : f t.b.x = .ok (v, d)) :
      Reaches f t tolerance (start t ⟨⟨t.b.x, v⟩, d⟩) []
  | round {s : Secant α} {us : List (Tangent α)} {v d : α} (h : Reaches f t tolerance s us)
      (hopen : ¬ s.enclosure.Settled tolerance) (hv : f (s.next tolerance) = .ok (v, d))
      (hon : ¬ s.Uphill tolerance v) :
      Reaches f t tolerance (s.advance tolerance v d) (us ++ [s.sample tolerance v d])

/-- The places of the evaluations that led to a state. -/
def visited (t : Bracket α) (us : List (Tangent α)) : List α := t.b.x :: us.map fun u => u.x

omit [Exact α] in
theorem visited_append (t : Bracket α) (us : List (Tangent α)) (u : Tangent α) :
    visited t (us ++ [u]) = visited t us ++ [u.x] := by
  unfold visited
  rw [List.map_append]
  rfl

/-- **How a search ends**, with the places of its evaluations: without a sample to begin with, at a
settled interval, with a minimal step uphill, with a fault of the function at the next place, or with
its budget of rounds spent. -/
inductive Ended (f : α → Except (Fault α) (α × α)) (t : Bracket α) (tolerance : α) :
    Except (Fault α) (LineMinimum α) → List α → Prop
  | unstarted {e : Fault α} (he : f t.b.x = .error e) : Ended f t tolerance (.error e) [t.b.x]
  | settled {s : Secant α} {us : List (Tangent α)} (h : Reaches f t tolerance s us)
      (hs : s.enclosure.Settled tolerance) :
      Ended f t tolerance (.ok (s.result us.length)) (visited t us)
  | uphill {s : Secant α} {us : List (Tangent α)} {v d : α} (h : Reaches f t tolerance s us)
      (hopen : ¬ s.enclosure.Settled tolerance) (hv : f (s.next tolerance) = .ok (v, d))
      (hup : s.Uphill tolerance v) :
      Ended f t tolerance (.ok (s.result (us.length + 1))) (visited t us ++ [s.next tolerance])
  | failed {s : Secant α} {us : List (Tangent α)} {e : Fault α} (h : Reaches f t tolerance s us)
      (hopen : ¬ s.enclosure.Settled tolerance) (he : f (s.next tolerance) = .error e) :
      Ended f t tolerance (.error e) (visited t us ++ [s.next tolerance])
  | spent {s : Secant α} {us : List (Tangent α)} (h : Reaches f t tolerance s us)
      (hall : us.length = searchRounds) :
      Ended f t tolerance (.error (.condition (.secantSearch searchRounds))) (visited t us)

/-- A recorded probe is a recorded evaluation. -/
theorem ran_probeSlope (f : α → Except (Fault α) (α × α)) (x : α) (places : List α) :
    Recording.ran (probeSlope (recorded f) x) places = (probeSlope f x, places ++ [x]) := by
  rw [probeSlope_eq]
  unfold probeSlope
  simp only [Scalar.isFinite_exact, Bool.and_self, if_true, Recording.ran_bind, Recording.ran_pure,
    Recording.ran_recorded]
  cases f x <;> rfl

theorem rounds_settled {m : Type → Type} [Monad m] [MonadExceptOf (Fault α) m] {g : α → m (α × α)}
    {s : Secant α} (h : s.enclosure.Settled tolerance) (left done : ℕ) :
    rounds g tolerance (left + 1) done s = pure (s.result done) := by
  have hs : isSettled tolerance s.lower s.upper s.best.x = true := h
  rw [rounds, if_pos hs]

/-- What follows a sample at the next place: the search stops where a minimal step leads uphill, and
goes on otherwise. -/
def proceed {m : Type → Type} [Monad m] [MonadExceptOf (Fault α) m] (g : α → m (α × α)) (tolerance : α)
    (left done : ℕ) (s : Secant α) (u : Tangent α) : m (LineMinimum α) :=
  if s.isMinimal tolerance (s.propose tolerance) && u.value > s.best.value then
    pure (s.result (done + 1))
  else rounds g tolerance left (done + 1) (s.absorb (s.propose tolerance) u)

theorem rounds_open {m : Type → Type} [Monad m] [MonadExceptOf (Fault α) m] {g : α → m (α × α)}
    {s : Secant α} (h : ¬ s.enclosure.Settled tolerance) (left done : ℕ) :
    rounds g tolerance (left + 1) done s =
      probeSlope g (s.next tolerance) >>= s.proceed g tolerance left done := by
  have hs : ¬ isSettled tolerance s.lower s.upper s.best.x = true := h
  rw [rounds, if_neg hs]
  rfl

theorem proceed_eq {m : Type → Type} [Monad m] [MonadExceptOf (Fault α) m] {g : α → m (α × α)}
    {s : Secant α} {left done : ℕ} {v d : α} [Decidable (s.Uphill tolerance v)] :
    s.proceed g tolerance left done (s.sample tolerance v d) = if s.Uphill tolerance v then
        pure (s.result (done + 1))
      else rounds g tolerance left (done + 1) (s.advance tolerance v d) := by
  have huphill : (s.isMinimal tolerance (s.propose tolerance) && v > s.best.value) = true ↔
      s.Uphill tolerance v := by
    unfold Uphill
    rw [Bool.and_eq_true, decide_eq_true_iff]
  exact if_congr huphill rfl rfl

/-- **Recording changes nothing**, and from a state on a search ends in one of four ways. -/
theorem ran_rounds (f : α → Except (Fault α) (α × α)) (t : Bracket α) (tolerance : α) :
    ∀ left (s : Secant α) (us : List (Tangent α)), Reaches f t tolerance s us →
      us.length + left = searchRounds → ∃ places,
        Recording.ran (rounds (recorded f) tolerance left us.length s) (visited t us) =
          (rounds f tolerance left us.length s, places) ∧
        Ended f t tolerance (rounds f tolerance left us.length s) places := by
  intro left
  induction left with
  | zero =>
    intro s us h hlen
    exact ⟨_, rfl, .spent h hlen⟩
  | succ left ih =>
    intro s us h hlen
    by_cases hs : s.enclosure.Settled tolerance
    · rw [rounds_settled hs, rounds_settled hs]
      exact ⟨_, rfl, .settled h hs⟩
    · rw [rounds_open hs, rounds_open hs, Recording.ran_bind, ran_probeSlope, probeSlope_eq]
      cases hv : f (s.next tolerance) with
      | error e => exact ⟨_, rfl, .failed h hs hv⟩
      | ok p =>
        obtain ⟨v, d⟩ := p
        show ∃ places, Recording.ran
            (s.proceed (recorded f) tolerance left us.length (s.sample tolerance v d)) _ =
              (s.proceed f tolerance left us.length (s.sample tolerance v d), places) ∧
          Ended f t tolerance (s.proceed f tolerance left us.length (s.sample tolerance v d)) places
        classical
        rw [proceed_eq, proceed_eq]
        by_cases hup : s.Uphill tolerance v
        · rw [if_pos hup, if_pos hup]
          exact ⟨_, rfl, .uphill h hs hv hup⟩
        · rw [if_neg hup, if_neg hup]
          -- the next round begins with one sample more
          have hnext := ih _ _ (h.round hs hv hup)
            (by rw [List.length_append, List.length_singleton]; omega)
          rw [List.length_append, List.length_singleton, visited_append] at hnext
          exact hnext

/-- The search with the places of its evaluations recorded. -/
def recordedMinimize (f : α → Except (Fault α) (α × α)) (t : Bracket α) (tolerance : α) :
    Except (Fault α) (LineMinimum α) × List α :=
  Recording.ran (minimize (recorded f) t tolerance) []

theorem ran_minimize (f : α → Except (Fault α) (α × α)) (ht : t.isValid = true)
    (htol : 0 < tolerance) :
    (recordedMinimize f t tolerance).1 = minimize f t tolerance ∧
      Ended f t tolerance (minimize f t tolerance) (recordedMinimize f t tolerance).2 := by
  have hcheck := checkSearch_eq_ok ht htol
  have hmin : minimize f t tolerance = probeSlope f t.b.x >>= fun b =>
      rounds f tolerance searchRounds 0 (start t b) := by
    unfold minimize
    rw [hcheck]
    rfl
  have hrec : recordedMinimize f t tolerance = Recording.ran (probeSlope (recorded f) t.b.x >>= fun b =>
      rounds (recorded f) tolerance searchRounds 0 (start t b)) [] := by
    unfold recordedMinimize minimize
    rw [hcheck]
    rfl
  rw [hrec, hmin, Recording.ran_bind, ran_probeSlope, probeSlope_eq]
  cases hb : f t.b.x with
  | error e => exact ⟨rfl, .unstarted hb⟩
  | ok p =>
    obtain ⟨v, d⟩ := p
    obtain ⟨places, hran, hend⟩ := ran_rounds f t tolerance searchRounds _ [] (.start hb) (Nat.zero_add _)
    obtain rfl : _ = places := congrArg Prod.snd hran
    exact ⟨congrArg Prod.fst hran, hend⟩

/-- **What holds as long as no step is cramped**: the interval is a part of the bracket with the best
place in it, and all places were in the bracket. -/
structure Stays (t : Bracket α) (s : Secant α) (us : List (Tangent α)) : Prop where
  within : s.Within
  part : t.lower ≤ s.lower ∧ s.upper ≤ t.upper
  places : ∀ u ∈ us, t.lower ≤ u.x ∧ u.x ≤ t.upper

theorem Stays.start (ht : t.isValid = true) {b : Tangent α} (hb : b.x = t.b.x) :
    Stays t (start t b) [] where
  within := by
    have hin := (Bracket.isValid_iff.1 ht).1.inside
    exact ⟨by rw [← hb] at hin; exact hin.1.le, by rw [← hb] at hin; exact hin.2.le⟩
  part := ⟨le_rfl, le_rfl⟩
  places := fun _ hu => absurd hu List.not_mem_nil

/-- **A round that is not cramped** keeps what holds. -/
theorem Stays.round {s : Secant α} {us : List (Tangent α)} (h : Stays t s us) (htol : 0 < tolerance)
    (hopen : ¬ s.enclosure.Settled tolerance) (hroom : ¬ s.Cramped tolerance) (v d : α) :
    Stays t (s.advance tolerance v d) (us ++ [s.sample tolerance v d]) := by
  obtain ⟨hl, hu⟩ := (next_inside_iff h.within htol hopen).2 hroom
  have hcut := Enclosure.cut_within (i := s.enclosure) (u := (s.sample tolerance v d).toSample)
    h.within hl hu
  rw [← absorb_enclosure s (s.propose tolerance)] at hcut
  obtain ⟨⟨hlower, hupper⟩, hwithin⟩ := hcut
  refine ⟨hwithin, ⟨h.part.1.trans hlower, hupper.trans h.part.2⟩, ?_⟩
  intro u hmem
  rcases List.mem_append.1 hmem with hmem | hmem
  · exact h.places u hmem
  · rw [List.mem_singleton.1 hmem]
    exact ⟨h.part.1.trans hl, hu.trans h.part.2⟩

/-- A cramped step that does not lead uphill leaves an interval that is settled, if the tolerance is no
more than a half. -/
theorem Cramped.settles {s : Secant α} (h : s.Cramped tolerance) (hin : s.Within) (htol : 0 < tolerance)
    (hhalf : tolerance ≤ 1 / 2) {v d : α} (hon : ¬ s.Uphill tolerance v) :
    (s.advance tolerance v d).enclosure.Settled tolerance := by
  obtain ⟨hmin, hout⟩ := h.outside hin htol
  have hv : v ≤ s.best.value := not_lt.1 fun hlt => hon ⟨hmin, hlt⟩
  have hlength := h.length hin htol
  have hnear : |s.next tolerance - s.best.x| ≤ 2 * minimalStep tolerance (s.next tolerance) :=
    hlength.trans_le (minimalStep_le_two_mul htol hhalf hlength.le)
  unfold advance
  rw [absorb_enclosure]
  exact Enclosure.cut_settled htol hin (hout.imp And.right And.right) hv hnear

/-- While no step has been cramped, what holds at the beginning holds at every round. -/
theorem Reaches.stays (ht : t.isValid = true) (htol : 0 < tolerance) {s : Secant α}
    {us : List (Tangent α)} (h : Reaches f t tolerance s us)
    (hroom : ∀ s us, Reaches f t tolerance s us → ¬ s.enclosure.Settled tolerance →
      ¬ s.Cramped tolerance) : Stays t s us := by
  induction h with
  | start hb => exact Stays.start ht rfl
  | round h hopen hv hon ih => exact ih.round htol hopen (hroom _ _ h hopen) _ _

/-- The middle of the bracket is in it, and so are the places after it while no step is cramped. -/
theorem Stays.visited_inside {s : Secant α} {us : List (Tangent α)} (h : Stays t s us)
    (ht : t.isValid = true) : ∀ x ∈ visited t us, t.contains x = true := by
  intro x hx
  rcases List.mem_cons.1 hx with rfl | hx
  · exact Bracket.contains_middle ht
  · obtain ⟨u, hu, rfl⟩ := List.mem_map.1 hx
    exact Bracket.contains_iff.2 (h.places u hu)

theorem Stays.best_inside {s : Secant α} {us : List (Tangent α)} (h : Stays t s us) :
    t.contains s.best.x = true :=
  Bracket.contains_iff.2 ⟨h.part.1.trans h.within.1, h.within.2.trans h.part.2⟩

/-- A step that is not cramped stays in the bracket. -/
theorem Stays.next_inside {s : Secant α} {us : List (Tangent α)} (h : Stays t s us)
    (htol : 0 < tolerance) (hopen : ¬ s.enclosure.Settled tolerance)
    (hroom : ¬ s.Cramped tolerance) : t.contains (s.next tolerance) = true := by
  obtain ⟨hl, hu⟩ := (next_inside_iff h.within htol hopen).2 hroom
  exact Bracket.contains_iff.2 ⟨h.part.1.trans hl, hu.trans h.part.2⟩

/-- A cramped step goes no farther than a minimal step from the best place, which is in the bracket. -/
theorem Stays.next_near {s : Secant α} {us : List (Tangent α)} (h : Stays t s us)
    (htol : 0 < tolerance) (hopen : ¬ s.enclosure.Settled tolerance) :
    t.Near tolerance (s.next tolerance) := by
  by_cases hcramped : s.Cramped tolerance
  · exact ⟨s.best.x, h.best_inside, (hcramped.length h.within htol).le⟩
  · exact .of_contains htol (h.next_inside htol hopen hcramped)

/-- All places but the last are in the bracket, and that one is in it or near. -/
structure Overshoots (tolerance : α) (t : Bracket α) (places : List α) : Prop where
  inside : ∀ x ∈ places.dropLast, t.contains x = true
  near : ∀ x ∈ places, t.Near tolerance x

theorem Overshoots.of_inside {places : List α} (htol : 0 < tolerance)
    (h : ∀ x ∈ places, t.contains x = true) : Overshoots tolerance t places where
  inside x hx := h x (List.mem_of_mem_dropLast hx)
  near x hx := .of_contains htol (h x hx)

theorem Overshoots.concat {places : List α} {x : α} (htol : 0 < tolerance)
    (h : ∀ x ∈ places, t.contains x = true) (hx : t.Near tolerance x) :
    Overshoots tolerance t (places ++ [x]) where
  inside y hy := by
    rw [List.dropLast_concat] at hy
    exact h y hy
  near y hy := by
    rcases List.mem_append.1 hy with hy | hy
    · exact .of_contains htol (h y hy)
    · rw [List.mem_singleton.1 hy]
      exact hx

/-- **A cramped step is the last one**, if the tolerance is no more than a half: after it the interval
is settled. -/
theorem Reaches.stays_or_settled (ht : t.isValid = true) (htol : 0 < tolerance)
    (hhalf : tolerance ≤ 1 / 2) {s : Secant α} {us : List (Tangent α)}
    (h : Reaches f t tolerance s us) : Stays t s us ∨ (s.enclosure.Settled tolerance ∧
      t.Near tolerance s.best.x ∧ Overshoots tolerance t (visited t us)) := by
  induction h with
  | start hb => exact Or.inl (Stays.start ht rfl)
  | @round s us v d h hopen hv hon ih =>
    have hstays : Stays t s us := by
      rcases ih with hstays | ⟨hs, -⟩
      · exact hstays
      · exact absurd hs hopen
    by_cases hcramped : s.Cramped tolerance
    · have hnear := hstays.next_near htol hopen
      refine Or.inr ⟨hcramped.settles hstays.within htol hhalf hon, ?_, ?_⟩
      · unfold advance
        rw [absorb_best]
        split_ifs
        · exact hnear
        · exact .of_contains htol hstays.best_inside
      · rw [visited_append]
        exact .concat htol (hstays.visited_inside ht) hnear
    · exact Or.inl (hstays.round htol hopen hcramped v d)

/-- A search without a cramped step stays in the bracket, however it ends. -/
theorem Ended.inside {r : Except (Fault α) (LineMinimum α)} {places : List α}
    (h : Ended f t tolerance r places) (ht : t.isValid = true) (htol : 0 < tolerance)
    (hroom : ∀ s us, Reaches f t tolerance s us → ¬ s.enclosure.Settled tolerance →
      ¬ s.Cramped tolerance) :
    (∀ x ∈ places, t.contains x = true) ∧ ∀ m, r = .ok m → t.contains m.x = true := by
  cases h with
  | unstarted => exact ⟨List.forall_mem_singleton.2 (Bracket.contains_middle ht), nofun⟩
  | settled h =>
    have hstays := h.stays ht htol hroom
    refine ⟨hstays.visited_inside ht, ?_⟩
    rintro m ⟨⟩
    exact hstays.best_inside
  | uphill h hopen =>
    have hstays := h.stays ht htol hroom
    have hnext := hstays.next_inside htol hopen (hroom _ _ h hopen)
    refine ⟨List.forall_mem_append.2
      ⟨hstays.visited_inside ht, List.forall_mem_singleton.2 hnext⟩, ?_⟩
    rintro m ⟨⟩
    exact hstays.best_inside
  | failed h hopen =>
    have hstays := h.stays ht htol hroom
    have hnext := hstays.next_inside htol hopen (hroom _ _ h hopen)
    exact ⟨List.forall_mem_append.2
      ⟨hstays.visited_inside ht, List.forall_mem_singleton.2 hnext⟩, nofun⟩
  | spent h => exact ⟨(h.stays ht htol hroom).visited_inside ht, nofun⟩

/-- Any search overshoots the bracket by at most a minimal step, and only at its end, if the tolerance
is no more than a half. -/
theorem Ended.overshoots {r : Except (Fault α) (LineMinimum α)} {places : List α}
    (h : Ended f t tolerance r places) (ht : t.isValid = true) (htol : 0 < tolerance)
    (hhalf : tolerance ≤ 1 / 2) :
    Overshoots tolerance t places ∧ ∀ m, r = .ok m → t.Near tolerance m.x := by
  -- an interval that is not settled has seen no cramped step
  have hbefore : ∀ {s us}, Reaches f t tolerance s us → ¬ s.enclosure.Settled tolerance →
      Stays t s us := by
    intro s us h hopen
    rcases h.stays_or_settled ht htol hhalf with hstays | ⟨hs, -⟩
    · exact hstays
    · exact absurd hs hopen
  have hany : ∀ {s us}, Reaches f t tolerance s us →
      Overshoots tolerance t (visited t us) ∧ t.Near tolerance s.best.x := by
    intro s us h
    rcases h.stays_or_settled ht htol hhalf with hstays | ⟨-, hnear, hover⟩
    · exact ⟨.of_inside htol (hstays.visited_inside ht), .of_contains htol hstays.best_inside⟩
    · exact ⟨hover, hnear⟩
  cases h with
  | unstarted =>
    exact ⟨.of_inside htol (List.forall_mem_singleton.2 (Bracket.contains_middle ht)), nofun⟩
  | settled h =>
    refine ⟨(hany h).1, ?_⟩
    rintro m ⟨⟩
    exact (hany h).2
  | uphill h hopen =>
    have hstays := hbefore h hopen
    refine ⟨.concat htol (hstays.visited_inside ht) (hstays.next_near htol hopen), ?_⟩
    rintro m ⟨⟩
    exact (hany h).2
  | failed h hopen =>
    have hstays := hbefore h hopen
    exact ⟨.concat htol (hstays.visited_inside ht) (hstays.next_near htol hopen), nofun⟩
  | spent h => exact ⟨(hany h).1, nofun⟩

/-- **Which searches stay in the bracket.** From a best place in the interval, the next place is in it
too unless the step is cramped. So a search without a cramped step evaluates only in the bracket, and
its result is there. With a tolerance of no more than a half a cramped step is the last one of a search:
all places but the last are in the bracket, and the last one and the result are no farther than a
minimal step from it. -/
theorem minimize_stays (f : α → Except (Fault α) (α × α)) (t : Bracket α) (tolerance : α)
    (ht : t.isValid = true) (htol : 0 < tolerance) :
    (∀ s us, Reaches f t tolerance s us → s.Within → ¬ s.enclosure.Settled tolerance →
      ((s.lower ≤ s.next tolerance ∧ s.next tolerance ≤ s.upper) ↔ ¬ s.Cramped tolerance)) ∧
    (recordedMinimize f t tolerance).1 = minimize f t tolerance ∧
    Ended f t tolerance (minimize f t tolerance) (recordedMinimize f t tolerance).2 ∧
    ((∀ s us, Reaches f t tolerance s us → ¬ s.enclosure.Settled tolerance →
        ¬ s.Cramped tolerance) →
      (∀ x ∈ (recordedMinimize f t tolerance).2, t.contains x = true) ∧
        ∀ m, minimize f t tolerance = .ok m → t.contains m.x = true) ∧
    (tolerance ≤ 1 / 2 → Overshoots tolerance t (recordedMinimize f t tolerance).2 ∧
      ∀ m, minimize f t tolerance = .ok m → t.Near tolerance m.x) := by
  obtain ⟨hsame, hended⟩ := ran_minimize f ht htol
  refine ⟨fun s us _ hin hopen => next_inside_iff hin htol hopen, hsame, hended, ?_, ?_⟩
  · exact fun hroom => hended.inside ht htol hroom
  · exact fun hhalf => hended.overshoots ht htol hhalf

/-- The square and its slope. -/
def square (x : ℚ) : Except (Fault ℚ) (ℚ × ℚ) := .ok (x * x, 2 * x)

/-- Samples of the square around its bottom. -/
def dish : Bracket ℚ := ⟨⟨-2, 4⟩, ⟨1, 1⟩, ⟨3, 9⟩⟩

/-- The state after one more round with the square. -/
def onward (s : Secant ℚ) : Secant ℚ :=
  s.advance (1 / 8) (s.next (1 / 8) * s.next (1 / 8)) (2 * s.next (1 / 8))

/-- The states of a search that halves once, follows a secant to the bottom, and stops uphill of it. -/
def dishRounds : List (Secant ℚ) :=
  let first := start dish ⟨⟨dish.b.x, dish.b.x * dish.b.x⟩, 2 * dish.b.x⟩
  [first, onward first, onward (onward first)]

theorem reaches_dish {s : Secant ℚ} {us : List (Tangent ℚ)} (h : Reaches square dish (1 / 8) s us) :
    s ∈ dishRounds := by
  unfold dishRounds
  induction h with
  | start hb =>
    cases hb
    exact List.mem_cons_self
  | @round s us v d h hopen hv hon ih =>
    cases hv
    rcases List.mem_cons.1 ih with rfl | ih
    · exact List.mem_cons_of_mem _ List.mem_cons_self
    rcases List.mem_cons.1 ih with rfl | ih
    · exact List.mem_cons_of_mem _ (List.mem_cons_of_mem _ List.mem_cons_self)
    · rw [List.mem_singleton.1 ih] at hon
      exact absurd (by unfold Uphill; decide +kernel) hon

/-- No step of this search is cramped. -/
theorem minimize_stays_dish : ∃ m, minimize square dish (1 / 8) = .ok m ∧ m.iterations = 3 ∧
    (∀ x ∈ (recordedMinimize square dish (1 / 8)).2, dish.contains x = true) ∧
    dish.contains m.x = true := by
  have hok : (minimize square dish (1 / 8)).map LineMinimum.iterations = .ok 3 := by decide +kernel
  obtain ⟨m, hm, hcount⟩ := map_eq_ok.1 hok
  obtain ⟨-, -, -, hstays, -⟩ := minimize_stays square dish (1 / 8) (by decide +kernel) (by norm_num)
  have hroom : ∀ s us, Reaches square dish (1 / 8) s us → ¬ s.enclosure.Settled (1 / 8) →
      ¬ s.Cramped (1 / 8) := by
    intro s us h _ hcramped
    have hwide : ∀ s ∈ dishRounds, ¬ s.Tight (1 / 8) := by unfold Tight; decide +kernel
    exact hwide s (reaches_dish h) hcramped.2
  obtain ⟨hplaces, hresult⟩ := hstays hroom
  exact ⟨m, hm, hcount, hplaces, hresult m hm⟩

/-- Two wells: with bottoms at `6` and `7.75` and a crest between them. -/
def wells (x : ℚ) : Except (Fault ℚ) (ℚ × ℚ) :=
  .ok (|(|x - 55 / 8| - 7 / 8)|, (if x < 55 / 8 then -1 else 1) * (if |x - 55 / 8| < 7 / 8 then -1 else 1))

/-- Samples around the second well, the inner one near the lower end. -/
def secondWell : Bracket ℚ := ⟨⟨7, 3 / 4⟩, ⟨8, 1 / 4⟩, ⟨64, 225 / 4⟩⟩

/-- **A search can leave its bracket**, and end outside: the slope points to the near end, and a minimal
step leads past it into the first well. -/
theorem minimize_leaves_secondWell : secondWell.isValid = true ∧
    (∀ s ∈ [secondWell.a, secondWell.b, secondWell.c], (wells s.x).map Prod.fst = .ok s.value) ∧
    (recordedMinimize wells secondWell (1 / 4)).2 = [8, 5999999999999 / 1000000000000] ∧
    (minimize wells secondWell (1 / 4)).map LineMinimum.x = .ok (5999999999999 / 1000000000000) ∧
    secondWell.contains (5999999999999 / 1000000000000) = false := by
  decide +kernel

end Secant
end EnergyStep
