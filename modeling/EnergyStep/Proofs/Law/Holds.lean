import EnergyStep.Proofs.Law.Zero

/-!
# What the energy of a step decides

Each law is an equation between what the state was before the step and what it is after it. If some state
can have all positions of the terms, the energy of a step that could be made is a sum with one part for
each of them, none negative, and it is zero exactly where all these equations hold. There the whole
gradient is zero.

* `StepEnergy.lawful_iff`: where the energy is zero the equations of the laws hold.
* `StepEnergy.breakdown_eq_ok`: the parts of the energy, by name.
* `StepEnergy.energy_decides_laws`: the total, its parts and its gradient.
-/

namespace EnergyStep

variable {α : Type} [Exact α]

namespace StepEnergy

variable {f : StepEnergy α} {x : Components α}

/-- No law is violated when the equations of all laws hold. -/
theorem lawful_iff {σ : ℕ → α} :
    f.Lawful σ ↔ ∀ t ∈ f.terms, t.law.Holds f.initial.component σ f.dt :=
  forall₂_congr fun _ _ => Law.violationAt_eq_zero_iff

/-- **The parts of the energy**, by the names of the terms. There are such parts exactly when every term
finds its positions. -/
theorem breakdown_eq_ok {parts : List (String × α)} : f.breakdown x = .ok parts ↔
    f.dimension = x.size ∧ (∀ t ∈ f.terms, t.FitsIn x.size) ∧
      (f.terms.map fun t => (t.name, t.energyAt f.initial.component x.component f.dt)) = parts := by
  have hpart : f.dimension = x.size → ∀ (t : Term α) (p : String × α),
      (t.contribution f.initial x f.dt >>= fun c => pure (t.name, c.energy)) = .ok p ↔
        t.FitsIn x.size ∧ (t.name, t.energyAt f.initial.component x.component f.dt) = p := by
    intro hx t p
    have hsize : f.initial.size = x.size := hx
    have henergy : t.FitsIn x.size → ∃ c, t.contribution f.initial x f.dt = .ok c ∧
        c.energy = t.energyAt f.initial.component x.component f.dt := by
      intro hfit
      obtain ⟨c, hc, hm⟩ := Term.contribution_of_fits (hsize ▸ hfit) hfit
      exact ⟨c, hc, hm.energy⟩
    rw [bind_eq_ok]
    constructor
    · rintro ⟨c, hc, hp⟩
      have hfit := (Term.at_of_contribution hc).1
      obtain ⟨c', hc', he⟩ := henergy hfit
      rw [hc] at hc'
      obtain rfl := Except.ok.inj hc'
      obtain rfl := Except.ok.inj hp
      exact ⟨hfit, Prod.ext rfl he.symm⟩
    · rintro ⟨hfit, rfl⟩
      obtain ⟨c, hc, he⟩ := henergy hfit
      exact ⟨c, hc, congrArg (fun e => Except.ok (t.name, e)) he⟩
  unfold breakdown
  rw [bind_eq_ok]
  constructor
  · rintro ⟨_, hd, h⟩
    have hx := checkDimension_eq_ok.1 hd
    exact ⟨hx, (mapM_eq_ok (hpart hx)).1 h⟩
  · rintro ⟨hx, h⟩
    exact ⟨(), checkDimension_eq_ok.2 hx, (mapM_eq_ok (hpart hx)).2 h⟩

/-- **The energy of a step decides whether the laws hold.** If the step could be made, a candidate of its
dimension has an energy exactly if some state can have all positions of the terms. Then the energy is the
sum of the energies of the terms. None of these is negative, so the total is not. The total is zero exactly
where the equations of all laws hold, and there the gradient is zero in every component. -/
theorem energy_decides_laws {initial : Components α} {dt : α} {terms : List (Term α)}
    (hmake : make initial dt terms = .ok f) (hx : x.size = f.dimension) :
    (f.dimension < 2 ^ 64 → ((∃ r, f.evaluate x = .ok r) ↔ ∀ t ∈ terms, Placed.Addressable t)) ∧
    ((∀ t ∈ terms, Placed.Addressable t) →
      ∃ e g parts, f.evaluate x = .ok (e, g) ∧ f.breakdown x = .ok parts ∧
        parts.map Prod.fst = terms.map Term.name ∧ (∀ p ∈ parts, 0 ≤ p.2) ∧
        e = (parts.map Prod.snd).sum ∧ 0 ≤ e ∧
        (e = 0 ↔ ∀ t ∈ terms, t.law.Holds initial.component x.component dt) ∧
        (e = 0 → g = Components.zeros f.dimension)) := by
  have hbuilt := built_of_make hmake
  obtain ⟨-, -, rfl⟩ := make_eq_ok.1 hmake
  refine ⟨fun hword => hbuilt.evaluates_iff hword hx, fun haddressable => ?_⟩
  obtain ⟨e, g, heval, hnonneg, hzero, hgradient⟩ := hbuilt.evaluate_eq (hbuilt.fitsIn haddressable) hx
  obtain ⟨-, hfit, htotal, -⟩ := evaluate_eq_ok.1 heval
  have hparts := breakdown_eq_ok.2 ⟨hx.symm, hfit, rfl⟩
  refine ⟨e, g, _, heval, hparts, ?_, ?_, ?_, hnonneg, hzero.trans lawful_iff, ?_⟩
  · rw [List.map_map]
    rfl
  · intro p hp
    obtain ⟨t, ht, rfl⟩ := List.mem_map.1 hp
    exact Term.energyAt_nonneg (hbuilt.scales t ht) _ _ _
  · rw [List.map_map, ← htotal]
    rfl
  · intro he
    rw [← hx]
    exact hgradient he

/-- A rocket that rises in a field while it loses mass, with an attitude: mass, position, velocity,
acceleration, weight, quaternion, and the rate and velocity of its exhaust. -/
def rocket : StepEnergy ℚ where
  initial := #[10, 0, 0, 29 / 32, -10, 1, 0, 0, 0, 1, -20]
  dt := 2
  terms := [.mass ⟨⟨0⟩, [], [⟨9⟩]⟩, .momentum ⟨⟨0⟩, ⟨2⟩, [⟨4⟩], [], [⟨⟨9⟩, ⟨10⟩⟩]⟩,
    .newton ⟨⟨0⟩, ⟨2⟩, ⟨3⟩, [⟨4⟩], [], [⟨⟨9⟩, ⟨10⟩⟩]⟩, .position ⟨⟨1⟩, ⟨2⟩⟩, .velocity ⟨⟨2⟩, ⟨3⟩⟩,
    .versor ⟨⟨5, 6, 7, 8⟩⟩, .field ⟨⟨4⟩, ⟨0⟩, -1⟩].map fun law => ⟨law, Scales.ofMotion 10 5 2⟩

/-- The rocket after the step. -/
def risen : Components ℚ := #[8, 11 / 4, 11 / 4, 59 / 32, -8, 3 / 5, 0, 4 / 5, 0, 1, -20]

/-- The rocket has to rise: nothing is left where it has, and something where it has not. -/
theorem energy_decides_laws_rocket :
    (∃ e g, rocket.evaluate risen = .ok (e, g) ∧ g = Components.zeros 11 ∧
      ∀ t ∈ rocket.terms, t.law.Holds rocket.initial.component risen.component rocket.dt) ∧
    ∃ e g, rocket.evaluate rocket.initial = .ok (e, g) ∧ 0 < e := by
  have hmake : make rocket.initial rocket.dt rocket.terms = .ok rocket :=
    make_eq_ok.2 ⟨by decide +kernel, by decide +kernel, rfl⟩
  have haddressable : ∀ t ∈ rocket.terms, Placed.Addressable t := by decide
  refine ⟨?_, ?_⟩
  · have hsize : risen.size = rocket.dimension := rfl
    obtain ⟨-, hdecides⟩ := energy_decides_laws hmake hsize
    obtain ⟨e, g, -, heval, -, -, -, -, -, hzero, hgradient⟩ := hdecides haddressable
    have hnothing : (rocket.evaluate risen).map Prod.fst = .ok 0 := by decide +kernel
    have he : e = 0 := by
      rw [heval] at hnothing
      exact Except.ok.inj hnothing
    exact ⟨e, g, heval, hgradient he, hzero.1 he⟩
  · have hsize : rocket.initial.size = rocket.dimension := rfl
    obtain ⟨-, hdecides⟩ := energy_decides_laws hmake hsize
    obtain ⟨e, g, -, heval, -, -, -, -, hnonneg, -, -⟩ := hdecides haddressable
    have hsomething : (rocket.evaluate rocket.initial).map Prod.fst ≠ .ok 0 := by decide +kernel
    refine ⟨e, g, heval, lt_of_le_of_ne hnonneg fun he => hsomething ?_⟩
    rw [heval, he]
    rfl

/-- A step that could be made has no energy, in total or by terms: it has a position beyond all states. -/
theorem energy_undecided_beyond : make beyond.initial beyond.dt beyond.terms = .ok beyond ∧
    beyond.evaluate #[0, 0] = .error (.index (2 ^ 64 - 1) 2) ∧
    beyond.breakdown #[0, 0] = .error (.index (2 ^ 64 - 1) 2) :=
  ⟨make_beyond, by decide +kernel, by decide +kernel⟩

end StepEnergy
end EnergyStep
