import EnergyStep.Proofs.Law.Evaluation

/-!
# Where the energy of a step is zero

Scales that pass their check give every law a positive weight. The energy of a step is then a sum of
squares with positive weights: it is never negative, and it vanishes exactly where all violations do.
There the gradient, in which every amount has a violation as a factor, vanishes too.

* `Scales.check_eq_ok`: scales that pass the check are positive.
* `Term.ZeroIff`, `Term.zeroIff_holds`: a term has energy zero exactly where its law holds.
* `StepEnergy.Built`: what a step that was made has been checked for.
* `StepEnergy.Lawful`: the candidates that violate no law.
* `StepEnergy.Built.evaluate_eq`: energy and gradient of any candidate that has the positions of the terms.
* `StepEnergy.Built.evaluates_iff`: when all candidates have them.
* `StepEnergy.make_laws`: the same for laws that share their scales.
-/

namespace EnergyStep

variable {α : Type} [Exact α]

namespace Scales

/-- All scales that are chosen are positive, so those derived from them are. -/
structure Positive (s : Scales α) : Prop where
  mass : 0 < s.mass
  length : 0 < s.length
  time : 0 < s.time
  specificEnergy : 0 < s.specificEnergy

theorem check_eq_ok {s : Scales α} : s.check = .ok () ↔ s.Positive := by
  have hdefect : s.defect? = none ↔ s.Positive := by
    unfold defect? base
    simp only [List.find?_eq_none, List.forall_mem_cons, Bool.not_eq_true, Bool.not_eq_false',
      Scalar.isPositive_iff]
    constructor
    · rintro ⟨hm, hl, ht, he, -⟩
      exact ⟨hm, hl, ht, he⟩
    · rintro ⟨hm, hl, ht, he⟩
      exact ⟨hm, hl, ht, he, fun _ h => absurd h List.not_mem_nil⟩
  rw [← hdefect]
  unfold check
  cases s.defect? with
  | none => simp
  | some d => simp

end Scales

/-- **Every law has a positive weight** in positive scales. -/
theorem Law.weight_pos {scales : Scales α} (h : scales.Positive) (law : Law α) :
    0 < law.weight scales := by
  obtain ⟨hm, hl, ht, he⟩ := h
  have henergy : 0 < scales.energy := mul_pos hm he
  have hvelocity : 0 < scales.velocity := div_pos hl ht
  have hforce : 0 < scales.force := mul_pos hm (div_pos hl (mul_pos ht ht))
  cases law with
  | mass b => exact div_pos henergy (pow_pos hm 2)
  | momentum b => exact div_pos henergy (pow_pos (mul_pos hm hvelocity) 2)
  | newton b => exact div_pos henergy (pow_pos hforce 2)
  | position b => exact div_pos henergy (pow_pos hl 2)
  | velocity b => exact div_pos henergy (pow_pos hvelocity 2)
  | versor c => exact mul_pos (mul_pos hm hvelocity) hvelocity
  | field c => exact div_pos henergy (pow_pos hforce 2)

namespace Term

variable {t : Term α} (h : t.scales.Positive) (σ₀ σ : ℕ → α) (dt : α)
include h

theorem energyAt_nonneg : 0 ≤ t.energyAt σ₀ σ dt :=
  mul_nonneg (t.law.weight_pos h).le (sq_nonneg _)

theorem energyAt_eq_zero_iff : t.energyAt σ₀ σ dt = 0 ↔ t.law.violationAt σ₀ σ dt = 0 := by
  unfold energyAt
  rw [mul_eq_zero, or_iff_right (t.law.weight_pos h).ne', sq_eq_zero_iff]

end Term

/-- **The energy of the term is zero exactly if** something is so: there is an energy, with whatever
gradient it is asked for, and it is never negative. -/
def Term.ZeroIff (t : Term α) (x₀ x : Components α) (dt : α) (p : Prop) : Prop :=
  ∀ g : Components α, g.size = x.size →
    ∃ e g', t.evaluate x₀ x dt g = (.ok e, g') ∧ 0 ≤ e ∧ (e = 0 ↔ p)

namespace Term

variable {t : Term α} {x₀ x : Components α} {dt : α}

theorem ZeroIff.congr {p q : Prop} (h : t.ZeroIff x₀ x dt p) (hpq : p ↔ q) : t.ZeroIff x₀ x dt q := by
  intro g hg
  obtain ⟨e, g', heval, hnonneg, hzero⟩ := h g hg
  exact ⟨e, g', heval, hnonneg, hzero.trans hpq⟩

theorem ZeroIff.evaluate_eq {p : Prop} (h : t.ZeroIff x₀ x dt p) (hp : p) {g : Components α}
    (hg : g.size = x.size) : ∃ g', t.evaluate x₀ x dt g = (.ok 0, g') := by
  obtain ⟨e, g', heval, -, hzero⟩ := h g hg
  obtain rfl := hzero.2 hp
  exact ⟨g', heval⟩

/-- **A term whose scales pass the check has energy zero exactly where its law holds.** -/
theorem zeroIff_holds (hs : t.scales.check = .ok ()) (h₀ : t.FitsIn x₀.size) (h : t.FitsIn x.size) :
    t.ZeroIff x₀ x dt (t.law.Holds x₀.component x.component dt) := by
  intro g hg
  have hpositive := Scales.check_eq_ok.1 hs
  refine ⟨_, _, evaluate_of_fits h₀ h hg, energyAt_nonneg hpositive _ _ _, ?_⟩
  rw [energyAt_eq_zero_iff hpositive, Law.violationAt_eq_zero_iff]

end Term

/-- Numbers that are not negative and add up to nothing. -/
theorem forall_eq_zero_of_sum {β : Type} {l : List β} {f : β → α} (h : ∀ b ∈ l, 0 ≤ f b)
    (hsum : (l.map f).sum = 0) : ∀ b ∈ l, f b = 0 := by
  intro b hb
  refine List.all_zero_of_le_zero_le_of_sum_eq_zero ?_ hsum (List.mem_map_of_mem hb)
  exact List.forall_mem_map.2 h

/-- Adding nothing anywhere. -/
theorem Components.bumpAll_eq_self {es : List (ℕ × α)} : ∀ {x : Components α}, (∀ e ∈ es, e.2 = 0) →
    x.bumpAll es = x := by
  induction es with
  | nil => intro x _; rfl
  | cons e es ih =>
    intro x h
    obtain ⟨he, hes⟩ := List.forall_mem_cons.1 h
    have hbump : x.bump e.1 e.2 = x := by
      apply Array.ext
      · exact size_bump ..
      · intro i h1 h2
        simp [bump, Array.getElem_modify, he]
    show (x.bump e.1 e.2).bumpAll es = x
    rw [hbump, ih hes]

namespace StepEnergy

/-- **What a step has been checked for**: its time, the dimension that its terms require, and their
scales. -/
structure Built (f : StepEnergy α) : Prop where
  dt_pos : 0 < f.dt
  required : ∀ t ∈ f.terms, t.requiredDimension ≤ f.dimension
  scales : ∀ t ∈ f.terms, t.scales.Positive

theorem make_eq_ok {initial : Components α} {dt : α} {terms : List (Term α)} {f : StepEnergy α} :
    make initial dt terms = .ok f ↔
      0 < dt ∧ checkTerms initial.size terms = .ok () ∧ ⟨initial, dt, terms⟩ = f := by
  unfold make
  simp only [bind_eq_ok]
  constructor
  · rintro ⟨_, h1, _, h2, h3⟩
    exact ⟨checkTimestep_eq_ok.1 h1, h2, Except.ok.inj h3⟩
  · rintro ⟨h1, h2, rfl⟩
    exact ⟨(), checkTimestep_eq_ok.2 h1, (), h2, rfl⟩

theorem built_of_make {initial : Components α} {dt : α} {terms : List (Term α)} {f : StepEnergy α}
    (h : make initial dt terms = .ok f) : f.Built := by
  obtain ⟨hdt, hterms, rfl⟩ := make_eq_ok.1 h
  have hall := checkTerms_eq_ok.1 hterms
  exact ⟨hdt, fun t ht => (hall t ht).1, fun t ht => Scales.check_eq_ok.1 (hall t ht).2⟩

/-- **A step with addressable terms** has all their positions. -/
theorem Built.fitsIn {f : StepEnergy α} (h : f.Built) (ha : ∀ t ∈ f.terms, Placed.Addressable t) :
    ∀ t ∈ f.terms, t.FitsIn f.dimension :=
  fun t ht => (Term.requiredDimension_le_iff (ha t ht)).1 (h.required t ht)

/-- **No law is violated** by the candidate with these components. -/
def Lawful (f : StepEnergy α) (σ : ℕ → α) : Prop :=
  ∀ t ∈ f.terms, t.law.violationAt f.initial.component σ f.dt = 0

variable {f : StepEnergy α} {σ : ℕ → α}

/-- Where no law is violated nothing is added to the gradient. -/
theorem Lawful.slopes_eq_zero (h : f.Lawful σ) : ∀ e ∈ f.slopes σ, e.2 = 0 := by
  intro e he
  obtain ⟨t, ht, he⟩ := List.mem_flatMap.1 he
  obtain ⟨p, -, rfl⟩ := List.mem_map.1 he
  rw [h t ht, mul_zero, mul_zero]

namespace Built

theorem energyAt_nonneg (h : f.Built) (σ : ℕ → α) : 0 ≤ f.energyAt σ := by
  refine List.sum_nonneg fun e he => ?_
  obtain ⟨t, ht, rfl⟩ := List.mem_map.1 he
  exact Term.energyAt_nonneg (h.scales t ht) _ _ _

/-- **The energy vanishes exactly where no law is violated.** -/
theorem energyAt_eq_zero_iff (h : f.Built) : f.energyAt σ = 0 ↔ f.Lawful σ := by
  have hterm : ∀ t ∈ f.terms, t.energyAt f.initial.component σ f.dt = 0 ↔
      t.law.violationAt f.initial.component σ f.dt = 0 :=
    fun t ht => Term.energyAt_eq_zero_iff (h.scales t ht) _ _ _
  constructor
  · intro hsum t ht
    have hnonneg : ∀ t ∈ f.terms, 0 ≤ t.energyAt f.initial.component σ f.dt :=
      fun t ht => Term.energyAt_nonneg (h.scales t ht) _ _ _
    exact (hterm t ht).1 (forall_eq_zero_of_sum hnonneg hsum t ht)
  · intro hlaw
    refine List.sum_eq_zero fun e he => ?_
    obtain ⟨t, ht, rfl⟩ := List.mem_map.1 he
    exact (hterm t ht).2 (hlaw t ht)

/-- **Every candidate that has all positions has an energy**, never negative and zero exactly where no law
is violated, and there the gradient is zero. -/
theorem evaluate_eq (h : f.Built) (hfit : ∀ t ∈ f.terms, t.FitsIn f.dimension) {x : Components α}
    (hx : x.size = f.dimension) :
    ∃ e g, f.evaluate x = .ok (e, g) ∧ 0 ≤ e ∧ (e = 0 ↔ f.Lawful x.component) ∧
      (e = 0 → g = Components.zeros x.size) := by
  refine ⟨_, _, evaluate_of_fits hx hfit, h.energyAt_nonneg _, h.energyAt_eq_zero_iff, ?_⟩
  intro he
  exact Components.bumpAll_eq_self (h.energyAt_eq_zero_iff.1 he).slopes_eq_zero

/-- **A step is evaluated exactly if its terms are addressable**: what has been checked is not enough. -/
theorem evaluates_iff (h : f.Built) (hword : f.dimension < 2 ^ 64) {x : Components α}
    (hx : x.size = f.dimension) :
    (∃ r, f.evaluate x = .ok r) ↔ ∀ t ∈ f.terms, Placed.Addressable t := by
  constructor
  · rintro ⟨⟨e, g⟩, heval⟩ t ht i hi
    obtain ⟨-, hfit, -, -⟩ := evaluate_eq_ok.1 heval
    have hlt : i < x.size := hfit t ht i hi
    omega
  · intro ha
    obtain ⟨e, g, heval, -⟩ := h.evaluate_eq (h.fitsIn ha) hx
    exact ⟨_, heval⟩

end Built

/-- A step of one half with a term that has a position beyond all states. -/
def beyond : StepEnergy ℚ := ⟨#[0, 0], 1 / 2, [Term.beyond]⟩

/-- The step can be made. -/
theorem make_beyond : make beyond.initial beyond.dt beyond.terms = .ok beyond :=
  make_eq_ok.2 ⟨by decide +kernel, checkTerms_beyond.1, rfl⟩

/-- **A step under laws that are all in the same scales.** If the scales pass their check and the
positions of the laws are there, the step can be made, and its energy vanishes exactly where the laws
hold. -/
theorem make_laws {scales : Scales α} {initial : Components α} {dt : α}
    (hs : scales.check = .ok ()) (hdt : 0 < dt) (laws : List (Law α))
    (hfit : ∀ law ∈ laws, ∀ i ∈ law.indices, i < initial.size) :
    ∃ f, make initial dt (laws.map fun law => ⟨law, scales⟩) = .ok f ∧ f.dimension = initial.size ∧
      ∀ x, x.size = f.dimension → ∃ e g, f.evaluate x = .ok (e, g) ∧ 0 ≤ e ∧
        (e = 0 ↔ ∀ law ∈ laws, law.violationAt initial.component x.component dt = 0) ∧
        (e = 0 → g = Components.zeros x.size) := by
  have hterms : ∀ t ∈ laws.map fun law => (⟨law, scales⟩ : Term α),
      t.FitsIn initial.size ∧ t.scales.check = .ok () := by
    intro t ht
    obtain ⟨law, hlaw, rfl⟩ := List.mem_map.1 ht
    exact ⟨hfit law hlaw, hs⟩
  have hcheck := checkTerms_eq_ok.2 fun t ht => (hterms t ht).imp_left Term.FitsIn.requiredDimension_le
  have hmake := make_eq_ok.2 ⟨hdt, hcheck, rfl⟩
  refine ⟨_, hmake, rfl, fun x hx => ?_⟩
  obtain ⟨e, g, heval, hnonneg, hzero, hgradient⟩ :=
    (built_of_make hmake).evaluate_eq (fun t ht => (hterms t ht).1) hx
  refine ⟨e, g, heval, hnonneg, hzero.trans ?_, hgradient⟩
  exact List.forall_mem_map

end StepEnergy
end EnergyStep
