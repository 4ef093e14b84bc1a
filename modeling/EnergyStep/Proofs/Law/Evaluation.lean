import EnergyStep.Proofs.Law.Violation
import EnergyStep.StepEnergy

/-!
# The energy of a step, evaluated

An evaluation succeeds exactly when every term finds its positions, and then its result has a closed
form: the energy is a sum over terms, the gradient a sum of amounts over positions.

* `StepEnergy.energyAt`, `StepEnergy.slopes`: the energy and the amounts in the gradient.
* `StepEnergy.evaluate_eq_ok`: when an evaluation succeeds, and with which result.
* `checkTerms_eq_ok`, `fitsIn_of_checkTerms`: terms that pass the check, and when they find their positions.
-/

namespace EnergyStep

variable {α : Type} [Exact α]

/-- Every derivative of a violation is at a position of the law. -/
theorem Law.index_mem_of_mem_partials {law : Law α} {σ : ℕ → α} {dt : α} {p : ℕ × α}
    (hp : p ∈ law.partials σ dt) : p.1 ∈ law.indices := by
  cases law with
  | mass b =>
    simp only [partials, MassBalance.partials, List.mem_cons, List.mem_append, List.mem_map] at hp
    rcases hp with rfl | ⟨s, hs, rfl⟩ | ⟨s, hs, rfl⟩
    · exact List.mem_map_of_mem (by simp [MassBalance.slots])
    · exact List.mem_map_of_mem (by simp [MassBalance.slots, hs])
    · exact List.mem_map_of_mem (by simp [MassBalance.slots, hs])
  | momentum b =>
    simp only [partials, MomentumBalance.partials, List.mem_cons, List.mem_append, List.mem_map,
      List.mem_flatMap, List.not_mem_nil, or_false] at hp
    rcases hp with (((rfl | rfl) | ⟨s, hs, rfl⟩) | ⟨t, ht, rfl | rfl⟩) | ⟨t, ht, rfl | rfl⟩
    · exact List.mem_map_of_mem (by simp [MomentumBalance.slots])
    · exact List.mem_map_of_mem (by simp [MomentumBalance.slots])
    · exact List.mem_map_of_mem (by simp [MomentumBalance.slots, hs])
    · exact List.mem_map_of_mem (by simp [MomentumBalance.slots, Transfer.rate_mem_slots ht])
    · exact List.mem_map_of_mem (by simp [MomentumBalance.slots, Transfer.velocity_mem_slots ht])
    · exact List.mem_map_of_mem (by simp [MomentumBalance.slots, Transfer.rate_mem_slots ht])
    · exact List.mem_map_of_mem (by simp [MomentumBalance.slots, Transfer.velocity_mem_slots ht])
  | newton b =>
    simp only [partials, NewtonBalance.partials, List.mem_cons, List.mem_append, List.mem_map,
      List.mem_flatMap, List.not_mem_nil, or_false] at hp
    rcases hp with (((rfl | rfl) | ⟨s, hs, rfl⟩) | ⟨t, ht, rfl | rfl | rfl⟩) | ⟨t, ht, rfl | rfl | rfl⟩
    · exact List.mem_map_of_mem (by simp [NewtonBalance.slots])
    · exact List.mem_map_of_mem (by simp [NewtonBalance.slots])
    · exact List.mem_map_of_mem (by simp [NewtonBalance.slots, hs])
    · exact List.mem_map_of_mem (by simp [NewtonBalance.slots, Transfer.rate_mem_slots ht])
    · exact List.mem_map_of_mem (by simp [NewtonBalance.slots, Transfer.velocity_mem_slots ht])
    · exact List.mem_map_of_mem (by simp [NewtonBalance.slots])
    · exact List.mem_map_of_mem (by simp [NewtonBalance.slots, Transfer.rate_mem_slots ht])
    · exact List.mem_map_of_mem (by simp [NewtonBalance.slots, Transfer.velocity_mem_slots ht])
    · exact List.mem_map_of_mem (by simp [NewtonBalance.slots])
  | position b =>
    simp only [partials, RateBalance.partials, List.mem_cons, List.not_mem_nil, or_false] at hp
    rcases hp with rfl | rfl <;> exact List.mem_map_of_mem (by simp [RateBalance.slots])
  | velocity b =>
    simp only [partials, RateBalance.partials, List.mem_cons, List.not_mem_nil, or_false] at hp
    rcases hp with rfl | rfl <;> exact List.mem_map_of_mem (by simp [RateBalance.slots])
  | versor c =>
    obtain ⟨i, hi, rfl⟩ := List.mem_map.1 hp
    exact hi
  | field c =>
    simp only [partials, FieldForce.partials, List.mem_cons, List.not_mem_nil, or_false] at hp
    rcases hp with rfl | rfl <;> exact List.mem_map_of_mem (by simp [FieldForce.slots])

namespace Term

variable {t : Term α} {x₀ x : Components α} {dt : α}

/-- A term has its slopes at its positions. -/
theorem index_mem_of_mem_slopes {σ₀ σ : ℕ → α} {e : ℕ × α} (he : e ∈ t.slopes σ₀ σ dt) :
    e.1 ∈ t.law.indices := by
  obtain ⟨p, hp, rfl⟩ := List.mem_map.1 he
  show p.1 ∈ t.law.indices
  exact Law.index_mem_of_mem_partials hp

theorem FitsIn.of_mem_slopes {n : ℕ} (h : t.FitsIn n) {σ₀ σ : ℕ → α} {e : ℕ × α}
    (he : e ∈ t.slopes σ₀ σ dt) : e.1 < n := h e.1 (index_mem_of_mem_slopes he)

/-- **A term that fits is evaluated.** -/
theorem evaluate_of_fits (h₀ : t.FitsIn x₀.size) (h : t.FitsIn x.size) {g : Components α}
    (hg : g.size = x.size) : t.evaluate x₀ x dt g =
      (.ok (t.energyAt x₀.component x.component dt),
        g.bumpAll (t.slopes x₀.component x.component dt)) := by
  obtain ⟨c, hc, hm⟩ := contribution_of_fits h₀ h
  rw [evaluate_of_contribution hc (hg ▸ h), hm.energy, hm.additions]
  rfl

/-- A term that is evaluated finds its positions. -/
theorem fits_of_evaluate {g : Components α} {e : α} (h : (t.evaluate x₀ x dt g).1 = .ok e) :
    t.FitsIn x.size := by
  unfold evaluate at h
  cases hc : t.contribution x₀ x dt with
  | ok c => exact (at_of_contribution hc).1
  | error fault => rw [hc] at h; cases h

end Term

namespace StepEnergy

variable (f : StepEnergy α)

/-- **The total energy**, from the components of the candidate state. -/
def energyAt (σ : ℕ → α) : α := (f.terms.map fun t => t.energyAt f.initial.component σ f.dt).sum

/-- What all terms add to the gradient, and where. -/
def slopes (σ : ℕ → α) : List (ℕ × α) := f.terms.flatMap fun t => t.slopes f.initial.component σ f.dt

variable {f} {x g : Components α} {e : α}

/-- A term after others adds its energy and its slopes. -/
theorem accumulate_eq_ok (hx : f.initial.size = x.size) {t : Term α} {a : α × Components α}
    (ha : a.2.size = x.size) {b : α × Components α} : f.accumulate x a t = .ok b ↔ t.FitsIn x.size ∧
      (a.1 + t.energyAt f.initial.component x.component f.dt,
        a.2.bumpAll (t.slopes f.initial.component x.component f.dt)) = b := by
  unfold accumulate
  dsimp only
  constructor
  · intro h
    obtain ⟨e, he, -⟩ := map_eq_ok.1 h
    have hfit := Term.fits_of_evaluate he
    rw [Term.evaluate_of_fits (hx ▸ hfit) hfit ha] at h
    exact ⟨hfit, Except.ok.inj h⟩
  · rintro ⟨hfit, rfl⟩
    rw [Term.evaluate_of_fits (hx ▸ hfit) hfit ha]
    rfl

/-- Terms one after another add their energies and their slopes. -/
theorem foldlM_accumulate_eq_ok (hx : f.initial.size = x.size) : ∀ (ts : List (Term α))
    {a b : α × Components α}, a.2.size = x.size → (ts.foldlM (f.accumulate x) a = .ok b ↔
      (∀ t ∈ ts, t.FitsIn x.size) ∧
        (a.1 + (ts.map fun t => t.energyAt f.initial.component x.component f.dt).sum,
          a.2.bumpAll (ts.flatMap fun t => t.slopes f.initial.component x.component f.dt)) = b) := by
  intro ts
  induction ts with
  | nil => intro a b _; simp [pure, Except.pure, Components.bumpAll]
  | cons t ts ih =>
    intro a b ha
    simp only [List.foldlM_cons, bind_eq_ok, accumulate_eq_ok hx ha, List.forall_mem_cons,
      List.map_cons, List.sum_cons, List.flatMap_cons, Components.bumpAll_append, ← add_assoc]
    -- the gradient keeps its size, so the rest of the terms starts as the first one did
    constructor
    · rintro ⟨_, ⟨h1, rfl⟩, h2⟩
      obtain ⟨hts, rfl⟩ := (ih (by simpa using ha)).1 h2
      exact ⟨⟨h1, hts⟩, rfl⟩
    · rintro ⟨⟨h1, h2⟩, rfl⟩
      exact ⟨_, ⟨h1, rfl⟩, (ih (by simpa using ha)).2 ⟨h2, rfl⟩⟩

/-- **An evaluation succeeds exactly when every term finds its positions.** Energy and gradient are
then the total energy and the sum of all slopes. -/
theorem evaluate_eq_ok : f.evaluate x = .ok (e, g) ↔
    f.dimension = x.size ∧ (∀ t ∈ f.terms, t.FitsIn x.size) ∧ f.energyAt x.component = e ∧
      (Components.zeros x.size).bumpAll (f.slopes x.component) = g := by
  unfold evaluate
  rw [bind_eq_ok]
  constructor
  · rintro ⟨_, hd, h⟩
    have hx := checkDimension_eq_ok.1 hd
    obtain ⟨hfit, h⟩ := (foldlM_accumulate_eq_ok hx f.terms (Components.size_zeros _)).1 h
    obtain ⟨rfl, rfl⟩ := Prod.mk.inj h
    exact ⟨hx, hfit, (zero_add _).symm, rfl⟩
  · rintro ⟨hx, hfit, rfl, rfl⟩
    refine ⟨(), checkDimension_eq_ok.2 hx, ?_⟩
    refine (foldlM_accumulate_eq_ok hx f.terms (Components.size_zeros _)).2 ⟨hfit, ?_⟩
    exact congrArg (·, _) (zero_add _)

theorem evaluate_of_fits (hx : x.size = f.dimension)
    (hfit : ∀ t ∈ f.terms, t.FitsIn f.dimension) :
    f.evaluate x = .ok (f.energyAt x.component,
      (Components.zeros x.size).bumpAll (f.slopes x.component)) := by
  have hfit' : ∀ t ∈ f.terms, t.FitsIn x.size := by rw [hx]; exact hfit
  exact evaluate_eq_ok.2 ⟨hx.symm, hfit', rfl, rfl⟩

/-- A component of the gradient is the sum of the slopes at its position. -/
theorem component_gradient (h : f.evaluate x = .ok (e, g)) {i : ℕ} (hi : i < x.size) :
    g.component i = total (f.slopes x.component) i := by
  obtain ⟨-, -, -, rfl⟩ := evaluate_eq_ok.1 h
  rw [Components.component_bumpAll _ (by rwa [Components.size_zeros]), Components.component_zeros,
    zero_add]

theorem size_gradient (h : f.evaluate x = .ok (e, g)) : g.size = x.size := by
  obtain ⟨-, -, -, rfl⟩ := evaluate_eq_ok.1 h
  rw [Components.size_bumpAll, Components.size_zeros]

end StepEnergy

theorem checkTimestep_eq_ok {dt : α} : checkTimestep dt = .ok () ↔ 0 < dt := by
  unfold checkTimestep
  rw [← Scalar.isPositive_iff]
  split_ifs with h <;> simp [h]

omit [Exact α] in
/-- **Terms pass the check** when states have the dimension that they require, and their scales are
positive. -/
theorem checkTerms_eq_ok [Scalar α] {n : ℕ} {ts : List (Term α)} : checkTerms n ts = .ok () ↔
    ∀ t ∈ ts, t.requiredDimension ≤ n ∧ t.scales.check = .ok () := by
  unfold checkTerms
  induction ts with
  | nil => simp [pure, Except.pure]
  | cons t ts ih =>
    rw [List.forM_eq_forM] at ih ⊢
    rw [List.forM_cons, bind_eq_ok, List.forall_mem_cons]
    constructor
    · rintro ⟨_, h1, h2⟩
      refine ⟨?_, ih.1 h2⟩
      split_ifs at h1 with hfit
      · exact ⟨Placed.fits_iff.1 hfit, h1⟩
      · cases h1
    · rintro ⟨⟨hfit, hs⟩, h2⟩
      refine ⟨(), ?_, ih.2 h2⟩
      rw [if_pos (Placed.fits_iff.2 hfit)]
      exact hs

omit [Exact α] in
/-- **Addressable terms that pass the check find their positions.** -/
theorem fitsIn_of_checkTerms [Scalar α] {n : ℕ} {ts : List (Term α)} (h : checkTerms n ts = .ok ())
    (ha : ∀ t ∈ ts, Placed.Addressable t) : ∀ t ∈ ts, t.FitsIn n :=
  fun t ht => (Term.requiredDimension_le_iff (ha t ht)).1 (checkTerms_eq_ok.1 h t ht).1

/-- A position at the last word, which no state has, and its rate in the second component. -/
def Term.beyond : Term ℚ := ⟨.position ⟨⟨2 ^ 64 - 1⟩, ⟨1⟩⟩, Scales.unit⟩

/-- It passes the check on two components: the last word requires none. -/
theorem checkTerms_beyond : checkTerms 2 [Term.beyond] = .ok () ∧ ¬Placed.Addressable Term.beyond := by
  decide +kernel

end EnergyStep
