import EnergyStep.Proofs.Minimize.Iterations

/-!
# What the extrapolation test measures from

The test looks at the point beyond the end of a sweep, as far again as that is from the anchor, and
compares the value there with the one at the point where the sweep began. These are the same point unless
the iteration before had an extra line: the anchor is set before that line and stays behind it.

* `DirectionSet.Begins.previous`: what the iteration before left.
* `DirectionSet.tests_measure_from_anchor`: where the test measures from, and when that is where the
  sweep began.
* `DirectionSet.bowl_measures_past`: an objective on which it is not.
-/

namespace EnergyStep

variable {α : Type} [Exact α]

/-- A line minimization goes on along its line. -/
theorem Objective.descend_advance {f : Objective (Except (Fault α)) α} {search : LineSearch α}
    {r there : Ray α} {value : α} (h : f.descend search r = .ok (there, value)) :
    ∃ w, there = r.advance w := by
  obtain ⟨_, -, h⟩ := bind_eq_ok.1 h
  obtain ⟨minimum, -, h⟩ := bind_eq_ok.1 h
  cases h
  exact ⟨minimum.x, rfl⟩

namespace DirectionSet

variable {f : Objective (Except (Fault α)) α} {settings : Settings α} {start : Components α}
  {done : ℕ} {s : DirectionSet α} {w : Sweep α}

/-- The points beyond, as seen from two anchors. -/
theorem extrapolated_eq {a p q : Components α} (ha : a.size = q.size) (hp : p.size = q.size) :
    extrapolated a q = (extrapolated p q).add (p.sub a) := by
  unfold extrapolated
  apply Array.ext
  · simp [ha, hp]
  · intro i h1 h2
    simp [Components.add, Components.sub, Components.scale]

/-- **At another iteration than the first of every `n`** the one before reached the test, and the state is
what came of that. -/
theorem Begins.previous (h : Begins f settings start done s) (hbetween : done % f.dimension ≠ 0) :
    ∃ s₀ w₀, Tests f settings start (done - 1) s₀ w₀ ∧
      replaceDirection f (LineSearch.ofSettings settings) s₀ s₀.value w₀ = .ok s := by
  obtain ⟨value, hv, hs⟩ := h.reached
  cases hs with
  | first => exact absurd (Nat.zero_mod _) hbetween
  | @next k s₀ s hs hturn =>
    obtain ⟨w₀, hw, hdone, ⟨hround, -⟩ | ⟨-, hnext⟩⟩ := turn_eq_proceed.1 hturn
    · exact absurd hround hbetween
    · have hbegins : Begins f settings start k s₀ :=
        ⟨h.checked, (Nat.lt_succ_self k).trans h.within, value, hv, hs⟩
      exact ⟨s₀, w₀, ⟨hbegins, hw, hdone, hbetween⟩, hnext⟩

/-- **The extrapolation test measures from the anchor.** The way that it offers and the point beyond differ
from those measured from where the sweep began by the way from the anchor to there; so they are the same
only if the anchor is there. At the first iteration of every `n` it is. At another one it is the end of the
sweep before. If that one's test did not promise a lower value, the next sweep began there too. If it did,
the next sweep began at the end of the extra line, and the anchor is behind by the way of that line. With
up to two variables it is never behind. -/
theorem tests_measure_from_anchor (h : Tests f settings start done s w) :
    f.value s.point = .ok s.value ∧
    w.point.sub s.anchor = (w.point.sub s.point).add (s.point.sub s.anchor) ∧
    extrapolated s.anchor w.point = (extrapolated s.point w.point).add (s.point.sub s.anchor) ∧
    (w.point.sub s.anchor = w.point.sub s.point ↔ s.anchor = s.point) ∧
    (done % f.dimension = 0 → s.anchor = s.point) ∧
    (done % f.dimension ≠ 0 → ∃ s₀ w₀, Tests f settings start (done - 1) s₀ w₀ ∧
      s.anchor = w₀.point ∧ (¬Promising f s₀ w₀ → s.point = w₀.point) ∧
      (Promising f s₀ w₀ → ∃ there,
        f.descend (LineSearch.ofSettings settings) ⟨w₀.point, w₀.point.sub s₀.anchor⟩ =
          .ok (there, s.value) ∧
        s.point = there.origin ∧ s.point.sub s.anchor = there.direction)) ∧
    (f.dimension ≤ 2 → s.anchor = s.point) := by
  have hn := h.begins.dimension_pos
  have hc := h.begins.coherent.1
  have hw := h.begins.swept_at h.swept
  have hanchor : s.anchor.size = w.point.size := hc.anchor.trans hw.size.symm
  have hpoint : s.point.size = w.point.size := hc.here.size.trans hw.size.symm
  refine ⟨hc.here.value, (Components.sub_add_sub hanchor hpoint).symm, extrapolated_eq hanchor hpoint,
    Components.sub_eq_sub_iff hanchor hpoint, fun hround => (h.begins.of_round hround).1,
    fun hbetween => ?_, fun htwo => ?_⟩
  · obtain ⟨s₀, w₀, hbefore, hnext⟩ := h.begins.previous hbetween
    refine ⟨s₀, w₀, hbefore, ?_⟩
    rcases replaceDirection_eq_ok.1 hnext with ⟨hpromise, there, value, hline, rfl⟩ | ⟨hnot, -, rfl⟩
    · refine ⟨rfl, fun hnot => absurd hpromise hnot, fun _ => ⟨there, hline, rfl, ?_⟩⟩
      obtain ⟨x, rfl⟩ := Objective.descend_advance hline
      have hc₀ := hbefore.begins.coherent.1
      have hw₀ := hbefore.begins.swept_at hbefore.swept
      have hsized : Ray.Sized f.dimension ⟨w₀.point, w₀.point.sub s₀.anchor⟩ :=
        ⟨hw₀.size, by rw [Components.size_sub, hw₀.size, hc₀.anchor, min_self]⟩
      exact hsized.advance_sub x
    · exact ⟨rfl, fun _ => rfl, fun hpromise => absurd hpromise hnot⟩
  · -- with one variable every iteration is the last of its round, with two every second one
    refine (h.begins.of_round ?_).1
    have hlast := h.between
    rcases (by omega : f.dimension = 1 ∨ f.dimension = 2) with h1 | h2
    · rw [h1, Nat.mod_one]
    · rw [h2] at hlast ⊢
      omega

/-- The second sweep over the bowl begins and ends at the bottom `(2, 2, 2)`, where the extra line led. -/
theorem bowl_tests_again :
    Tests bowl (brief 3) #[0, 0, 0] 1
      ⟨#[2, 2, 2], 0, [#[1, 0, 0], #[0, 1, 0], #[1, 1, 1]], #[1, 1, 1]⟩ ⟨#[2, 2, 2], 0, 0, 0⟩ := by
  obtain ⟨hfirst, -, hturn⟩ := bowl_tests
  have hstart : bowl.value #[0, 0, 0] = .ok 36 := by decide +kernel
  exact ⟨⟨hfirst.begins.checked, by decide, 36, hstart, .next .first hturn⟩, by decide +kernel,
    by decide +kernel, by decide⟩

/-- The second test measures from `(1, 1, 1)`. The first one promised a lower value, and its extra line led
from there to where the second sweep began. -/
theorem tests_measure_from_anchor_bowl :
    bowl.value #[2, 2, 2] = .ok 0 ∧
    extrapolated #[1, 1, 1] (#[2, 2, 2] : Components ℚ) =
      (extrapolated #[2, 2, 2] #[2, 2, 2]).add #[1, 1, 1] ∧
    ∃ s₀ w₀ there, Tests bowl (brief 3) #[0, 0, 0] 0 s₀ w₀ ∧ Promising bowl s₀ w₀ ∧
      bowl.descend (LineSearch.ofSettings (brief 3)) ⟨w₀.point, w₀.point.sub s₀.anchor⟩ = .ok (there, 0) ∧
      #[2, 2, 2] = there.origin ∧ #[1, 1, 1] = there.direction := by
  obtain ⟨hvalue, -, hbeyond, -, -, hbefore, -⟩ := tests_measure_from_anchor bowl_tests_again
  have hway : Components.sub #[2, 2, 2] #[1, 1, 1] = (#[1, 1, 1] : Components ℚ) := by decide +kernel
  obtain ⟨s₀, w₀, htests, hanchor, hnot, hline⟩ := hbefore (by decide)
  have hpromise : Promising bowl s₀ w₀ := by
    by_contra h
    exact absurd (hanchor.trans (hnot h).symm) (by decide +kernel)
  obtain ⟨there, hdescend, horigin, hdirection⟩ := hline hpromise
  rw [hway] at hbeyond hdirection
  exact ⟨hvalue, hbeyond, s₀, w₀, there, htests, hpromise, hdescend, horigin, hdirection⟩

/-- **It does not compare like with like there.** The second sweep has not moved. Measured from where it
began, the way is zero and the point beyond is the bottom again. The way that is offered is `(1, 1, 1)`, and
the point `(3, 3, 3)`. -/
theorem bowl_measures_past : ¬∀ (f : Objective (Except (Fault ℚ)) ℚ) (settings : Settings ℚ)
    (start : Components ℚ) (done : ℕ) (s : DirectionSet ℚ) (w : Sweep ℚ),
    Tests f settings start done s w →
      w.point.sub s.anchor = w.point.sub s.point ∧
      extrapolated s.anchor w.point = extrapolated s.point w.point := by
  intro h
  have hsecond := (h _ _ _ _ _ _ bowl_tests_again).1
  revert hsecond
  decide +kernel

end DirectionSet
end EnergyStep
