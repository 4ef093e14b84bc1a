import EnergyStep.Proofs.Recording
import EnergyStep.Proofs.Search.LineMinimum

/-!
# A line minimization is all or nothing

Point and direction can be kept in one place and moved there. The search by slopes is followed by one
more evaluation, after the move; a fault of it would leave them moved without a result. In whatever
arithmetic, a search returns a sample that it took. If sums and products commute, the point is moved to
where that sample was taken, so the evaluation repeats one that has succeeded.

* `Bracket.find_samples`, `Parabolic.minimize_sample`, `Secant.minimize_sample`: results are samples.
* `Ray.advance_origin_of_comm`: the point that is moved to is the one that was evaluated.
* `Objective.descendInPlace`, `SmoothObjective.descendInPlace`: minimizations that move a ray in place.
* `Objective.descend_eq_ran`, `SmoothObjective.descend_eq_ran`: they find what `descend` finds.
* `descend_all_or_nothing`: what they leave behind.
-/

namespace EnergyStep

variable {α : Type} [Scalar α]

section Samples

variable {f : α → Except (Fault α) α}

/-- A probe is a sample of the function at the place. -/
theorem probe_sample (f : α → Except (Fault α) α) (x : α) :
    Ends (fun _ => True) (fun s => s.x = x ∧ s.Of f) (probe f x) := by
  unfold probe
  split_ifs
  · show Ends _ _ (f x >>= _)
    refine (Ends.of_all (fun _ => trivial) (f x)).is_result.bind fun v hv => ?_
    split_ifs
    · exact ⟨rfl, hv.2⟩
    · trivial
  · trivial

namespace Bracket

/-- The three samples are those of the function. -/
structure Samples (f : α → Except (Fault α) α) (t : Bracket α) : Prop where
  a : t.a.Of f
  b : t.b.Of f
  c : t.c.Of f

/-- What a step leads to has samples of the function. -/
def Expansion.Samples (f : α → Except (Fault α) α) : Expansion α → Prop
  | .closed t => t.Samples f
  | .moved t => t.Samples f

theorem expand_samples {t : Bracket α} (ht : t.Samples f) :
    Ends (fun _ => True) (Expansion.Samples f) (expand f t) := by
  unfold expand
  dsimp only
  -- the parabola leads between `b` and `c`, on to the limit, beyond it, or back
  split_ifs
  · refine (probe_sample f _).bind fun s hs => ?_
    split_ifs
    · exact ⟨ht.b, hs.2, ht.c⟩
    · exact ⟨ht.a, ht.b, hs.2⟩
    · exact (probe_sample f _).bind fun u hu => ⟨ht.b, ht.c, hu.2⟩
  · refine (probe_sample f _).bind fun s hs => ?_
    split_ifs
    · exact (probe_sample f _).bind fun u hu => ⟨ht.c, hs.2, hu.2⟩
    · exact ⟨ht.b, ht.c, hs.2⟩
  · exact (probe_sample f _).bind fun u hu => ⟨ht.b, ht.c, hu.2⟩
  · exact (probe_sample f _).bind fun u hu => ⟨ht.b, ht.c, hu.2⟩

theorem close_samples (budget : ℕ) : ∀ left (t : Bracket α), t.Samples f →
    Ends (fun _ => True) (Samples f) (close f budget left t) := by
  intro left
  induction left with
  | zero =>
    intro t ht
    unfold close
    split_ifs
    · trivial
    · exact ht
  | succ left ih =>
    intro t ht
    unfold close
    split_ifs
    · refine (expand_samples ht).bind fun r hr => ?_
      cases r with
      | closed t' => exact hr
      | moved t' => exact ih t' hr
    · exact ht

/-- **A bracket that is found** consists of samples of the function. -/
theorem find_samples (f : α → Except (Fault α) α) (x₁ x₂ : α) (budget : ℕ) :
    Ends (fun _ => True) (Samples f) (find f x₁ x₂ budget) := by
  have hstart : Ends (fun _ => True) (Samples f) (start f x₁ x₂) := by
    refine (probe_sample f x₁).bind fun s₁ h₁ => (probe_sample f x₂).bind fun s₂ h₂ => ?_
    split_ifs
    · exact (probe_sample f _).bind fun u hu => ⟨h₂.2, h₁.2, hu.2⟩
    · exact (probe_sample f _).bind fun u hu => ⟨h₁.2, h₂.2, hu.2⟩
  unfold find
  by_cases hfinite : (Scalar.isFinite x₁ && Scalar.isFinite x₂) = true
  · by_cases hsame : Scalar.same x₁ x₂ = true
    · simp only [if_pos hfinite, if_pos hsame]
      trivial
    · simp only [if_pos hfinite, if_neg hsame]
      exact hstart.bind fun t ht => close_samples budget budget t ht
  · simp only [if_neg hfinite]
    trivial

end Bracket

theorem Parabolic.rounds_sample (tolerance : α) : ∀ left done (s : Parabolic α), s.best.Of f →
    Ends (fun _ => True) (fun m => f m.x = .ok m.value) (rounds f tolerance left done s) := by
  intro left
  induction left with
  | zero => intro done s _; trivial
  | succ left ih =>
    intro done s hs
    unfold rounds
    split_ifs
    · exact hs
    · refine (probe_sample f _).bind fun u hu => ih _ _ ?_
      rw [absorb_best]
      split_ifs
      · exact hu.2
      · exact hs

/-- **A result of the search by values** is a sample of the function. -/
theorem Parabolic.minimize_sample {t : Bracket α} (ht : t.b.Of f) (tolerance : α) :
    Ends (fun _ => True) (fun m => f m.x = .ok m.value) (minimize f t tolerance) := by
  unfold minimize
  rw [liftExcept_eq]
  refine (Ends.of_all (fun _ => trivial) (checkSearch t tolerance)).bind fun _ _ => ?_
  exact rounds_sample tolerance _ _ _ ht

end Samples

namespace Secant

variable {f : α → Except (Fault α) (α × α)}

theorem probeSlope_sample (f : α → Except (Fault α) (α × α)) (x : α) :
    Ends (fun _ => True) (fun u => u.x = x ∧ u.Of f) (probeSlope f x) := by
  unfold probeSlope
  split_ifs
  · show Ends _ _ (f x >>= _)
    refine (Ends.of_all (fun _ => trivial) (f x)).is_result.bind fun v hv => ?_
    dsimp only
    split_ifs
    · exact ⟨rfl, hv.2⟩
    · trivial
  · trivial

/-- The result is a sample of the function with its slope. -/
def Sampling (f : α → Except (Fault α) (α × α)) (m : LineMinimum α) : Prop :=
  ∃ slope, m.slope = some slope ∧ f m.x = .ok (m.value, slope)

theorem rounds_sample (tolerance : α) : ∀ left done (s : Secant α), s.best.Of f →
    Ends (fun _ => True) (Sampling f) (rounds f tolerance left done s) := by
  intro left
  induction left with
  | zero => intro done s _; trivial
  | succ left ih =>
    intro done s hs
    unfold rounds
    split_ifs
    · exact ⟨s.best.slope, rfl, hs⟩
    · refine (probeSlope_sample f _).bind fun u hu => ?_
      split_ifs
      · -- a minimal step uphill: the result is the best sample from before it
        exact ⟨s.best.slope, rfl, hs⟩
      · refine ih _ _ ?_
        rw [absorb_best]
        split_ifs
        · exact hu.2
        · exact hs

/-- **A result of the search by slopes** is a sample of the function. -/
theorem minimize_sample (f : α → Except (Fault α) (α × α)) (t : Bracket α) (tolerance : α) :
    Ends (fun _ => True) (Sampling f) (minimize f t tolerance) := by
  unfold minimize
  rw [liftExcept_eq]
  refine (Ends.of_all (fun _ => trivial) (checkSearch t tolerance)).bind fun _ _ => ?_
  exact (probeSlope_sample f _).bind fun b hb => rounds_sample tolerance _ _ _ hb.2

end Secant

/-- Sums and products do not depend on the order of two numbers. -/
structure Scalar.Commutes (α : Type) [Scalar α] : Prop where
  add : ∀ a b : α, a + b = b + a
  mul : ∀ a b : α, a * b = b * a

namespace Ray

/-- **The point that is moved to is the one that was evaluated**, if sums and products commute: one
adds the way to the origin, the other the origin to the way. -/
theorem advance_origin_of_comm (hcomm : Scalar.Commutes α) (r : Ray α) (w : α) :
    (r.advance w).origin = r.point w := by
  unfold advance point Components.add Components.scale
  apply Array.ext
  · rw [Array.size_zipWith, Array.size_zipWith, Array.size_map, Nat.min_comm]
  · intro i h₁ h₂
    rw [Array.getElem_zipWith, Array.getElem_zipWith, Array.getElem_map, hcomm.add, hcomm.mul]

/-- The ray has been moved to the minimum of a search: its direction is the old one times the step, its
point the old one and that direction, which is the point where the search has been. -/
structure Moved (r : Ray α) (m : LineMinimum α) (there : Ray α) : Prop where
  direction : there.direction = r.direction.map fun d => m.x * d
  origin : there.origin = r.origin.add there.direction
  point : there.origin = r.point m.x

theorem moved_advance (hcomm : Scalar.Commutes α) (r : Ray α) (m : LineMinimum α) :
    r.Moved m (r.advance m.x) where
  direction := by
    show r.direction.map (fun d => d * m.x) = _
    exact congrArg (Array.map · r.direction) (funext fun d => hcomm.mul d m.x)
  origin := rfl
  point := advance_origin_of_comm hcomm r m.x

/-- An evaluation that keeps point and direction in one place. -/
abbrev InPlace (α β : Type) := Recording (Ray α) α β

/-- The direction becomes the way to go, and the point goes there. -/
def move (w : α) : InPlace α PUnit := do
  modify fun r => { r with direction := r.direction.scale w }
  modify fun r => { r with origin := r.origin.add r.direction }

@[simp] theorem ran_move (w : α) (r : Ray α) : Recording.ran (move w) r = (.ok ⟨⟩, r.advance w) := rfl

end Ray

/-- **A fault leaves the ray as it was**, and a result comes with a ray that satisfies `post`. -/
def Ray.AllOrNothing {β : Type} (r : Ray α) (post : β → Ray α → Prop) :
    Except (Fault α) β × Ray α → Prop
  | (.error _, there) => there = r
  | (.ok b, there) => post b there

namespace Ray.AllOrNothing

variable {β : Type} {r : Ray α} {post : β → Ray α → Prop} {run : Except (Fault α) β × Ray α}

omit [Scalar α] in
theorem of_ok {b : β} (h : r.AllOrNothing post run) (hrun : run.1 = .ok b) : post b run.2 := by
  obtain ⟨_, there⟩ := run
  cases hrun
  exact h

omit [Scalar α] in
theorem of_error {e : Fault α} (h : r.AllOrNothing post run) (hrun : run.1 = .error e) :
    run.2 = r := by
  obtain ⟨_, there⟩ := run
  cases hrun
  exact h

end Ray.AllOrNothing

/-- The minimum on the line, found by values. -/
def Objective.minimumAlong (f : Objective (Except (Fault α)) α) (search : LineSearch α) (r : Ray α) :
    Except (Fault α) (LineMinimum α) := do
  let bracket ← f.bracketAlong search r
  Parabolic.minimize (f.along r) bracket search.tolerance

/-- The minimum on the line, found with the help of slopes. -/
def SmoothObjective.minimumAlong (f : SmoothObjective (Except (Fault α)) α) (search : LineSearch α)
    (r : Ray α) : Except (Fault α) (LineMinimum α) := do
  let bracket ← f.bracketAlong search r
  Secant.minimize (f.alongWithSlope r) bracket search.tolerance

/-- Moves the ray to the minimum on its line. -/
def Objective.descendInPlace (f : Objective (Except (Fault α)) α) (search : LineSearch α) :
    Ray.InPlace α α := do
  let minimum ← liftExcept (f.minimumAlong search (← get))
  Ray.move minimum.x
  pure minimum.value

/-- Moves the ray to the minimum on its line, with the help of slopes, and evaluates the objective
there. -/
def SmoothObjective.descendInPlace (f : SmoothObjective (Except (Fault α)) α) (search : LineSearch α) :
    Ray.InPlace α (α × Components α) := do
  let minimum ← liftExcept (f.minimumAlong search (← get))
  Ray.move minimum.x
  let there ← get
  liftExcept (f.valueAndGradient there.origin)

section Descend

variable {search : LineSearch α} {r : Ray α}

namespace Objective

variable {f : Objective (Except (Fault α)) α}

/-- Where a minimization in place ends: with the ray moved if the search has a result. -/
theorem ran_descendInPlace : (f.descendInPlace search).ran r = match f.minimumAlong search r with
    | .error e => (.error e, r)
    | .ok m => (.ok m.value, r.advance m.x) := by
  unfold descendInPlace
  simp only [Recording.ran_bind, Recording.ran_get, Recording.ran_liftExcept, Ray.ran_move,
    Recording.ran_pure]
  cases f.minimumAlong search r <;> rfl

/-- In place or not, a minimization does the same. -/
theorem descend_eq_ran : f.descend search r =
    ((f.descendInPlace search).ran r).1.map fun v => (((f.descendInPlace search).ran r).2, v) := by
  have hsearch : f.descend search r =
      f.minimumAlong search r >>= fun m => .ok (r.advance m.x, m.value) :=
    (bind_assoc _ _ _).symm
  rw [hsearch, ran_descendInPlace]
  cases f.minimumAlong search r <;> rfl

theorem minimumAlong_sample (f : Objective (Except (Fault α)) α) (search : LineSearch α) (r : Ray α) :
    Ends (fun _ => True) (fun m => f.value (r.point m.x) = .ok m.value) (f.minimumAlong search r) := by
  have hbracket : Ends (fun _ => True) (Bracket.Samples (f.along r)) (f.bracketAlong search r) :=
    (Ends.of_all (fun _ => trivial) (ensure (r.check f.dimension))).bind fun _ _ =>
      Bracket.find_samples _ _ _ _
  exact hbracket.bind fun t ht => Parabolic.minimize_sample ht.b _

end Objective

namespace SmoothObjective

variable {f : SmoothObjective (Except (Fault α)) α}

/-- With slopes the ray has been moved before the last evaluation. -/
theorem ran_descendInPlace : (f.descendInPlace search).ran r = match f.minimumAlong search r with
    | .error e => (.error e, r)
    | .ok m => (f.valueAndGradient (r.advance m.x).origin, r.advance m.x) := by
  unfold descendInPlace
  simp only [Recording.ran_bind, Recording.ran_get, Recording.ran_liftExcept, Ray.ran_move]
  cases f.minimumAlong search r <;> rfl

theorem descend_eq_ran : f.descend search r =
    ((f.descendInPlace search).ran r).1.map fun v => (((f.descendInPlace search).ran r).2, v) := by
  have hsearch : f.descend search r = f.minimumAlong search r >>= fun m =>
      f.valueAndGradient (r.advance m.x).origin >>= fun v => .ok (r.advance m.x, v) :=
    (bind_assoc _ _ _).symm
  rw [hsearch, ran_descendInPlace]
  cases f.minimumAlong search r with
  | error e => rfl
  | ok m =>
    show (f.valueAndGradient _ >>= fun v => .ok (r.advance m.x, v)) = (f.valueAndGradient _).map _
    cases f.valueAndGradient (r.advance m.x).origin <;> rfl

/-- A slope on the line has been read off a gradient, which there is at the minimum as well. -/
theorem minimumAlong_sample (f : SmoothObjective (Except (Fault α)) α) (search : LineSearch α)
    (r : Ray α) : Ends (fun _ => True)
      (fun m => ∃ gradient, f.valueAndGradient (r.point m.x) = .ok (m.value, gradient))
      (f.minimumAlong search r) := by
  refine (Ends.of_all (fun _ => trivial) (f.bracketAlong search r)).bind fun t _ => ?_
  refine (Secant.minimize_sample (f.alongWithSlope r) t search.tolerance).mono fun m hm => ?_
  obtain ⟨slope, -, hvalue⟩ := hm
  obtain ⟨⟨value, gradient⟩, hgradient, hslope⟩ := bind_eq_ok.1 hvalue
  cases hslope
  exact ⟨gradient, hgradient⟩

end SmoothObjective

/-- The evaluation after the move repeats the one that the search has made at its result. -/
theorem SmoothObjective.again (hcomm : Scalar.Commutes α) (f : SmoothObjective (Except (Fault α)) α)
    {m : LineMinimum α} (h : f.minimumAlong search r = .ok m) :
    ∃ gradient, f.valueAndGradient (r.advance m.x).origin = .ok (m.value, gradient) := by
  rw [Ray.advance_origin_of_comm hcomm]
  exact (f.minimumAlong_sample search r).of_ok h

/-- **A line minimization is all or nothing.** The objective may fail at some points, and the two parts
of the ray may have any length. A fault leaves the ray as it was. If sums and products commute, a
result comes with the ray moved to the minimum that the search has found, and its value is the one found
there. The same holds of the minimization with slopes: its evaluation after the move never fails. -/
theorem descend_all_or_nothing (f : Objective (Except (Fault α)) α)
    (g : SmoothObjective (Except (Fault α)) α) (search : LineSearch α) (r : Ray α) :
    (∀ e, ((f.descendInPlace search).ran r).1 = .error e → ((f.descendInPlace search).ran r).2 = r) ∧
    (Scalar.Commutes α →
      r.AllOrNothing (fun value there => ∃ m, f.minimumAlong search r = .ok m ∧ r.Moved m there ∧
          value = m.value ∧ f.value there.origin = .ok value) ((f.descendInPlace search).ran r) ∧
      r.AllOrNothing (fun found there => ∃ m, g.minimumAlong search r = .ok m ∧ r.Moved m there ∧
          found.1 = m.value ∧ g.valueAndGradient there.origin = .ok found)
        ((g.descendInPlace search).ran r) ∧
      ∀ m, g.minimumAlong search r = .ok m →
        ∃ gradient, g.valueAndGradient (r.advance m.x).origin = .ok (m.value, gradient)) ∧
    f.descend search r =
      ((f.descendInPlace search).ran r).1.map (fun v => (((f.descendInPlace search).ran r).2, v)) ∧
    g.descend search r =
      ((g.descendInPlace search).ran r).1.map (fun v => (((g.descendInPlace search).ran r).2, v)) := by
  refine ⟨?_, fun hcomm => ⟨?_, ?_, fun m => g.again hcomm⟩, f.descend_eq_ran, g.descend_eq_ran⟩
  · intro e h
    rw [f.ran_descendInPlace] at h ⊢
    cases hm : f.minimumAlong search r with
    | error e' => rfl
    | ok m => rw [hm] at h; cases h
  · rw [f.ran_descendInPlace]
    cases hm : f.minimumAlong search r with
    | error e => rfl
    | ok m =>
      have hvalue := (f.minimumAlong_sample search r).of_ok hm
      rw [← Ray.advance_origin_of_comm hcomm] at hvalue
      exact ⟨m, rfl, Ray.moved_advance hcomm r m, rfl, hvalue⟩
  · rw [g.ran_descendInPlace]
    cases hm : g.minimumAlong search r with
    | error e => rfl
    | ok m =>
      -- the ray has been moved already, so nothing may fail any more
      obtain ⟨gradient, hgradient⟩ := g.again hcomm hm
      dsimp only
      rw [hgradient]
      exact ⟨m, rfl, Ray.moved_advance hcomm r m, rfl, hgradient⟩

end Descend

/-- A bowl that is chipped behind the origin. -/
def chippedBowl : SmoothObjective (Except (Fault ℚ)) ℚ :=
  .ofPair 1 fun x =>
    if x.component 0 < 0 then .error (.condition (.stated "chipped"))
    else .ok ((x.component 0 - 2) ^ 2, #[2 * (x.component 0 - 2)])

/-- A search in the bowl. -/
def chippedSearch : LineSearch ℚ := ⟨1 / 4, 5⟩

/-- One way goes down to the ground, and the other way there is no value. -/
theorem descend_all_or_nothing_chipped :
    (∃ m, chippedBowl.minimumAlong chippedSearch ⟨#[0], #[1]⟩ = .ok m ∧
      Ray.Moved ⟨#[0], #[1]⟩ m ((chippedBowl.descendInPlace chippedSearch).ran ⟨#[0], #[1]⟩).2 ∧
      m.value = 0) ∧
    (∃ m, chippedBowl.toObjective.minimumAlong chippedSearch ⟨#[0], #[1]⟩ = .ok m ∧
      Ray.Moved ⟨#[0], #[1]⟩ m
        ((chippedBowl.toObjective.descendInPlace chippedSearch).ran ⟨#[0], #[1]⟩).2 ∧ m.value = 0) ∧
    ((chippedBowl.descendInPlace chippedSearch).ran ⟨#[0], #[-1]⟩).2 = ⟨#[0], #[-1]⟩ := by
  have hcomm : Scalar.Commutes ℚ := ⟨add_comm, mul_comm⟩
  obtain ⟨hvalues, hslopes, -⟩ := (descend_all_or_nothing chippedBowl.toObjective chippedBowl
    chippedSearch ⟨#[0], #[1]⟩).2.1 hcomm
  obtain ⟨-, hchipped, -⟩ := (descend_all_or_nothing chippedBowl.toObjective chippedBowl
    chippedSearch ⟨#[0], #[-1]⟩).2.1 hcomm
  refine ⟨?_, ?_, ?_⟩
  · obtain ⟨m, hm, hmoved, hvalue, -⟩ := hslopes.of_ok
      (show _ = Except.ok ((0 : ℚ), #[(0 : ℚ)]) by decide +kernel)
    exact ⟨m, hm, hmoved, hvalue.symm⟩
  · obtain ⟨m, hm, hmoved, hvalue, -⟩ := hvalues.of_ok (show _ = Except.ok (0 : ℚ) by decide +kernel)
    exact ⟨m, hm, hmoved, hvalue.symm⟩
  · exact hchipped.of_error
      (show _ = Except.error (Fault.condition (.stated "chipped")) by decide +kernel)

end EnergyStep
