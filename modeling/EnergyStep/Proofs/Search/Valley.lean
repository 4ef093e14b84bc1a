import EnergyStep.Proofs.Search.Bracketing

/-!
# Valleys

A function that falls up to a place and rises after it has no other low place, however it falls and
rises. A sample between two others that is no higher than either can only have the bottom between
them.

* `Valley`: a function with one bottom.
* `Valley.between`: where the bottom is.
* `Bracket.find_encloses`: the brackets that are found.
-/

namespace EnergyStep

variable {α : Type} [Exact α] {f : α → Except (Fault α) α} {bottom : α}

/-- **A valley.** Where the function has values, they fall up to the bottom and rise after it. -/
structure Valley (f : α → Except (Fault α) α) (bottom : α) : Prop where
  falls : ∀ {x y v w}, f x = .ok v → f y = .ok w → x < y → y ≤ bottom → w < v
  rises : ∀ {x y v w}, f x = .ok v → f y = .ok w → x < y → bottom ≤ x → v < w

/-- A function that always has a value. -/
theorem valley_of_strict {g : α → α} (hfall : StrictAntiOn g (Set.Iic bottom))
    (hrise : StrictMonoOn g (Set.Ici bottom)) : Valley (fun x => .ok (g x)) bottom where
  falls := by
    rintro x y _ _ ⟨⟩ ⟨⟩ hxy hy
    exact hfall (hxy.le.trans hy) hy hxy
  rises := by
    rintro x y _ _ ⟨⟩ ⟨⟩ hxy hx
    exact hrise hx (hx.trans hxy.le) hxy

/-- **The bottom is between two places** that are no lower than one between them. -/
theorem Valley.between (h : Valley f bottom) {a x b va v vb : α} (ha : f a = .ok va)
    (hx : f x = .ok v) (hb : f b = .ok vb) (hax : a < x) (hxb : x < b) (hva : v ≤ va) (hvb : v ≤ vb) :
    a < bottom ∧ bottom < b := by
  refine ⟨?_, ?_⟩
  · by_contra hle
    exact absurd (h.rises ha hx hax (not_lt.1 hle)) (not_lt.2 hva)
  · by_contra hle
    exact absurd (h.falls hx hb hxb (not_lt.1 hle)) (not_lt.2 hvb)

/-- From a place to one beyond it that is no higher the function does not only rise. -/
theorem Valley.le_bottom (h : Valley f bottom) {x y v w : α} (hx : f x = .ok v) (hy : f y = .ok w)
    (hxy : x < y) (hle : w ≤ v) : x ≤ bottom := by
  by_contra hlt
  exact absurd (h.rises hx hy hxy (not_le.1 hlt).le) (not_lt.2 hle)

/-- From a place to one beyond it that is no lower the function does not only fall. -/
theorem Valley.bottom_le (h : Valley f bottom) {x y v w : α} (hx : f x = .ok v) (hy : f y = .ok w)
    (hxy : x < y) (hle : v ≤ w) : bottom ≤ y := by
  by_contra hlt
  exact absurd (h.falls hx hy hxy (not_le.1 hlt).le) (not_lt.2 hle)

namespace Bracket

variable {t : Bracket α}

/-- The inner place is strictly between the ends of the interval. -/
theorem Ordered.inside (h : t.Ordered) : t.lower < t.b.x ∧ t.b.x < t.upper := by
  unfold lower upper
  rw [Scalar.smaller_eq_min, Scalar.larger_eq_max, min_lt_iff, lt_max_iff]
  rcases mul_pos_iff.1 h with ⟨h1, h2⟩ | ⟨h1, h2⟩
  · exact ⟨Or.inl (sub_pos.1 h1), Or.inr (sub_pos.1 h2)⟩
  · exact ⟨Or.inr (sub_neg.1 h2), Or.inl (sub_neg.1 h1)⟩

/-- The ends of the interval are the two outer places, in one order or the other. -/
theorem ends_eq (t : Bracket α) :
    (t.lower = t.a.x ∧ t.upper = t.c.x) ∨ (t.lower = t.c.x ∧ t.upper = t.a.x) := by
  unfold lower upper
  rw [Scalar.smaller_eq_min, Scalar.larger_eq_max]
  rcases le_total t.a.x t.c.x with h | h
  · exact Or.inl ⟨min_eq_left h, max_eq_right h⟩
  · exact Or.inr ⟨min_eq_right h, max_eq_left h⟩

/-- The values at the ends of the interval, which are no lower than the one inside. -/
theorem ends_of (ha : t.a.Of f) (hc : t.c.Of f) (hba : t.b.value ≤ t.a.value)
    (hbc : t.b.value ≤ t.c.value) : (∃ v, f t.lower = .ok v ∧ t.b.value ≤ v) ∧
      ∃ v, f t.upper = .ok v ∧ t.b.value ≤ v := by
  rcases t.ends_eq with ⟨hl, hu⟩ | ⟨hl, hu⟩
  · rw [hl, hu]; exact ⟨⟨_, ha, hba⟩, _, hc, hbc⟩
  · rw [hl, hu]; exact ⟨⟨_, hc, hbc⟩, _, ha, hba⟩

theorem contains_iff {x : α} : t.contains x = true ↔ t.lower ≤ x ∧ x ≤ t.upper := by
  simp [contains]

/-- **A bracket in a valley contains the bottom.** -/
theorem contains_bottom (ht : t.isValid = true) (ha : t.a.Of f) (hb : t.b.Of f) (hc : t.c.Of f)
    (h : Valley f bottom) : t.contains bottom = true := by
  obtain ⟨hord, hba, hbc⟩ := isValid_iff.1 ht
  obtain ⟨⟨va, hva, hle⟩, vc, hvc, hle'⟩ := ends_of ha hc hba hbc
  have hin := h.between hva hb hvc hord.inside.1 hord.inside.2 hle hle'
  exact contains_iff.2 ⟨hin.1.le, hin.2.le⟩

/-- In a valley a place that is no higher than the middle of a bracket is in the bracket. -/
theorem contains_of_le (ht : t.isValid = true) (ha : t.a.Of f) (hb : t.b.Of f) (hc : t.c.Of f)
    (h : Valley f bottom) {x v : α} (hx : f x = .ok v) (hle : v ≤ t.b.value) : t.contains x = true := by
  obtain ⟨-, hba, hbc⟩ := isValid_iff.1 ht
  obtain ⟨⟨va, hva, hle'⟩, vc, hvc, hle''⟩ := ends_of ha hc hba hbc
  obtain ⟨hl, hu⟩ := contains_iff.1 (contains_bottom ht ha hb hc h)
  refine contains_iff.2 ⟨?_, ?_⟩
  · by_contra hlt
    exact absurd (h.falls hx hva (not_le.1 hlt) hl) (not_lt.2 (hle.trans hle'))
  · by_contra hlt
    exact absurd (h.rises hvc hx (not_le.1 hlt) hu) (not_lt.2 (hle.trans hle''))

/-- From one seed there is no way downhill. -/
theorem find_same (f : α → Except (Fault α) α) (x : α) (budget : ℕ) :
    find f x x budget = .error (.argument .seedsEqual) := by
  have hsame : Scalar.same x x = true := Scalar.same_iff.2 rfl
  unfold find
  simp only [Scalar.isFinite_exact, Bool.and_self, if_true, hsame]
  rfl

/-- **Brackets that are found enclose a minimum.** Whatever the function, a bracket that is found is
one: its values are those of the function, and the one inside is no higher than at the seeds, which
are distinct. In a valley the bottom is in it. -/
theorem find_encloses (f : α → Except (Fault α) α) (x₁ x₂ : α) (budget : ℕ) (t : Bracket α)
    (h : find f x₁ x₂ budget = .ok t) :
    t.isValid = true ∧ f t.a.x = .ok t.a.value ∧ f t.b.x = .ok t.b.value ∧ f t.c.x = .ok t.c.value ∧
      x₁ ≠ x₂ ∧ (∃ v₁ v₂, f x₁ = .ok v₁ ∧ f x₂ = .ok v₂ ∧ t.b.value ≤ v₁ ∧ t.b.value ≤ v₂) ∧
      ∀ bottom, Valley f bottom → t.contains bottom = true := by
  have hx : x₁ ≠ x₂ := by
    rintro rfl
    rw [find_same] at h
    cases h
  have hall : ∀ x, Ends (fun _ => True) (fun _ => True) (f x) := fun x => Ends.of_all (fun _ => trivial) _
  obtain ⟨ht, v₁, v₂, h₁, h₂, hd⟩ := (find_ends (fun _ => trivial) hall hx budget).of_ok h
  refine ⟨ht, hd.a, hd.b, hd.c, hx, ⟨v₁, v₂, h₁, h₂, ?_, ?_⟩, ?_⟩
  · exact hd.below.trans (min_le_left _ _)
  · exact hd.below.trans (min_le_right _ _)
  · intro bottom hv
    exact contains_bottom ht hd.a hd.b hd.c hv

/-- Falls gently to the place `600` and jumps up after it. -/
def cliff (x : ℚ) : Except (Fault ℚ) ℚ := .ok (if x ≤ 600 then 2 - x else x)

theorem valley_cliff : Valley cliff 600 := by
  refine valley_of_strict ?_ ?_
  · intro x hx y hy hxy
    simp only [Set.mem_Iic] at hx hy
    simp only [hx, hy, if_true]
    linarith
  · intro x hx y hy hxy
    simp only [Set.mem_Ici] at hx hy
    simp only [not_le.2 (lt_of_le_of_lt hx hxy), if_false]
    split_ifs <;> linarith

/-- From two seeds that are far from the bottom, and in the wrong order. -/
theorem find_encloses_cliff : ∃ t, find cliff 1 0 10 = .ok t ∧ t.isValid = true ∧
    cliff t.b.x = .ok t.b.value ∧ t.b.value ≤ 1 ∧ t.contains 600 = true := by
  have h : find cliff 1 0 10 = .ok ⟨⟨523606797749979/200000000000000, -123606797749979/200000000000000⟩,
      ⟨325606797749979/2000000000000, -321606797749979/2000000000000⟩,
      ⟨3204230904522542079/200000000000000, 3204230904522542079/200000000000000⟩⟩ := by decide +kernel
  obtain ⟨ht, -, hb, -, -, ⟨v₁, v₂, h₁, -, hle, -⟩, hv⟩ := find_encloses cliff 1 0 10 _ h
  have hone : cliff 1 = .ok 1 := by norm_num [cliff]
  have hv₁ : v₁ = 1 := Except.ok.inj (h₁.symm.trans hone)
  exact ⟨_, h, ht, hb, hle.trans_eq hv₁, hv 600 valley_cliff⟩

end Bracket
end EnergyStep
