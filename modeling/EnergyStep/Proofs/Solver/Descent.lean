import EnergyStep.Proofs.Law.Evaluation
import EnergyStep.Proofs.Minimize.Descent
import EnergyStep.Solver

/-!
# Solves descend

A solve minimizes the energy of its step, and the energy is a coherent objective. So its outcome is
a state of the system together with the energy of exactly that state, which is no higher than the
energy of staying where the step began.

* `StepEnergy.objective_coherent`: the energy as an objective.
* `Solver.solve_ends`: how a solve ends.
* `minima_descend`: minimizers and solves, with every fault allowed.
-/

namespace EnergyStep

variable {α : Type} [Exact α] {fails : Fault α → Prop}

/-- The energy that comes with the gradient is the energy. -/
theorem StepEnergy.objective_coherent (f : StepEnergy α) : f.objective.Coherent := by
  intro x v g h
  exact map_eq_ok.2 ⟨(v, g), h, rfl⟩

omit [Exact α] in
/-- So does every objective that is made of one function for both. -/
theorem SmoothObjective.ofPair_coherent (n : ℕ)
    (g : Components α → Except (Fault α) (α × Components α)) : (ofPair n g).Coherent := by
  intro x v d h
  obtain ⟨_, h1, h2⟩ := bind_eq_ok.1 h
  obtain ⟨p, hp, h3⟩ := bind_eq_ok.1 h2
  obtain ⟨_, -, h4⟩ := bind_eq_ok.1 h3
  cases h4
  exact bind_eq_ok.2 ⟨_, h1, bind_eq_ok.2 ⟨_, hp, rfl⟩⟩

/-- **A minimization by either method** is a coherent descent. -/
theorem SmoothObjective.minimize_ends {f : SmoothObjective (Except (Fault α)) α} (hf : f.Within fails)
    (hc : f.Coherent) {start : Components α} {settings : Settings α}
    (hstart : Ends fails (fun _ => True) (checkStart f.dimension start settings)) :
    Ends fails (Minimum.DescendsFrom f.toObjective start settings.maxIterations)
      (f.minimize start settings) := by
  unfold minimize
  cases settings.method with
  | powell => exact Objective.minimizeByDirections_ends hf.toWithin hstart
  | conjugateGradient => exact SmoothObjective.minimizeByGradients_ends hf hc hstart

omit [Exact α] in
/-- Every objective is within the set of all faults. -/
theorem SmoothObjective.within_all (f : SmoothObjective (Except (Fault α)) α) :
    f.Within fun _ => True where
  condition _ := trivial
  value _ _ := Ends.of_all (fun _ => trivial) _
  gradient _ _ := Ends.of_all (fun _ => trivial) _
  sized := Or.inl fun _ => trivial

/-- **A coherent descent of the energy.** The residual is the energy of the state and not above that
of the initial state, and the budget of iterations was kept. -/
structure Outcome.DescendsFrom (f : StepEnergy α) (initial : Components α) (budget : ℕ)
    (o : Outcome α) : Prop where
  size : o.state.size = f.dimension
  residual : ∃ gradient, f.evaluate o.state = .ok (o.residual, gradient)
  descends : ∃ energy gradient, f.evaluate initial = .ok (energy, gradient) ∧ o.residual ≤ energy
  iterations : 1 ≤ o.iterations ∧ o.iterations ≤ budget

namespace Solver

variable {s : Solver α} {initial : Components α} {dt : α}

theorem energy_eq_ok {f : StepEnergy α} : s.energy initial dt = .ok f ↔
    s.dimension = initial.size ∧ 0 < dt ∧ checkTerms initial.size s.terms = .ok () ∧
      ⟨initial, dt, s.terms⟩ = f := by
  unfold energy StepEnergy.make
  simp only [bind_eq_ok]
  constructor
  · rintro ⟨_, h1, _, h2, _, h3, h4⟩
    exact ⟨checkDimension_eq_ok.1 h1, checkTimestep_eq_ok.1 h2, h3, Except.ok.inj h4⟩
  · rintro ⟨h1, h2, h3, rfl⟩
    exact ⟨(), checkDimension_eq_ok.2 h1, (), checkTimestep_eq_ok.2 h2, (), h3, rfl⟩

/-- **How a solve ends**, when the energy of the step has no faults but those allowed. -/
theorem solve_ends (he : Ends fails (fun f => f.objective.Within fails) (s.energy initial dt))
    (hstart : Ends fails (fun _ => True) (checkStart s.dimension initial s.settings)) :
    Ends fails (fun o => ∃ f, s.energy initial dt = .ok f ∧
      o.DescendsFrom f initial s.settings.maxIterations) (s.solve initial dt) := by
  unfold solve
  refine he.is_result.bind fun f hf => ?_
  obtain ⟨hwithin, hok⟩ := hf
  obtain ⟨hdim, -, -, rfl⟩ := energy_eq_ok.1 hok
  have hfd : StepEnergy.dimension ⟨initial, dt, s.terms⟩ = s.dimension := hdim.symm
  -- the two checks of the dimension are about the same number
  rw [← hfd] at hstart
  have hcoherent := StepEnergy.objective_coherent ⟨initial, dt, s.terms⟩
  refine (SmoothObjective.minimize_ends hwithin hcoherent hstart).bind fun m hm => ?_
  obtain ⟨hsize, hvalue, ⟨v, hv, hle⟩, hit⟩ := hm
  obtain ⟨⟨e, g⟩, heval, rfl⟩ := map_eq_ok.1 hvalue
  obtain ⟨⟨e₀, g₀⟩, heval₀, rfl⟩ := map_eq_ok.1 hv
  exact Ends.pure.2 ⟨_, hok, hsize, ⟨g, heval⟩, ⟨e₀, g₀, heval₀, hle⟩, hit⟩

end Solver

/-- **Minimizers and solves descend.** Every minimum that is found has the value of the objective at
its point, and not one above the value at the start; this includes the minima of searches that made
no more progress. So every outcome of a solve comes with the energy of exactly its state, which is
not above that of the initial state. -/
theorem minima_descend :
    (∀ (f : Objective (Except (Fault α)) α) (start : Components α) (settings : Settings α)
      (m : Minimum α), f.minimizeByDirections start settings = .ok m →
        m.DescendsFrom f start settings.maxIterations) ∧
    (∀ (f : SmoothObjective (Except (Fault α)) α) (start : Components α) (settings : Settings α)
      (m : Minimum α), f.Coherent → f.minimizeByGradients start settings = .ok m →
        m.DescendsFrom f.toObjective start settings.maxIterations) ∧
    (∀ (s : Solver α) (initial : Components α) (dt : α) (o : Outcome α),
      s.solve initial dt = .ok o → ∃ f, s.energy initial dt = .ok f ∧
        o.DescendsFrom f initial s.settings.maxIterations) := by
  have hall : ∀ {β : Type} (r : Except (Fault α) β), Ends (fun _ => True) (fun _ => True) r :=
    fun r => Ends.of_all (fun _ => trivial) r
  refine ⟨?_, ?_, ?_⟩
  · intro f start settings m hm
    have hf : f.Within fun _ => True := ⟨fun _ => trivial, fun _ _ => hall _⟩
    exact (Objective.minimizeByDirections_ends hf (hall _)).of_ok hm
  · intro f start settings m hc hm
    exact (SmoothObjective.minimizeByGradients_ends f.within_all hc (hall _)).of_ok hm
  · intro s initial dt o ho
    have he : Ends (fun _ => True) (fun f : StepEnergy α => f.objective.Within fun _ => True)
        (s.energy initial dt) := (hall _).mono fun f _ => f.objective.within_all
    exact (Solver.solve_ends he (hall _)).of_ok ho

/-- Half the square of the distance from one. -/
def parabola : SmoothObjective (Except (Fault ℚ)) ℚ :=
  .ofPair 1 fun x => .ok ((x.component 0 - 1) ^ 2 / 2, #[x.component 0 - 1])

/-- A position that changes at a rate. -/
def glide : Solver ℚ :=
  ⟨2, [⟨.position ⟨⟨0⟩, ⟨1⟩⟩, ⟨1, 1, 1, 2 / 5⟩⟩], ⟨.conjugateGradient, 2, 1, 5, 5⟩⟩

/-- Runs that end with a result. -/
theorem minima_descend_runs :
    Minimum.DescendsFrom parabola.toObjective #[0] 5 ⟨#[1], 0, 1, .valueConverged⟩ ∧
    Minimum.DescendsFrom parabola.toObjective #[3] 5 ⟨#[1], 0, 1, .valueConverged⟩ ∧
    Outcome.DescendsFrom ⟨#[0, 1], 1, glide.terms⟩ #[0, 1] 5 ⟨#[4 / 5, 3 / 5], 0, 1, .valueConverged⟩ := by
  obtain ⟨hdirections, hgradients, hsolve⟩ := minima_descend (α := ℚ)
  have hd := hdirections parabola.toObjective #[0] ⟨.powell, 2, 1, 5, 5⟩
    ⟨#[1], 0, 1, .valueConverged⟩ (by decide +kernel)
  have hg := hgradients parabola #[3] ⟨.conjugateGradient, 2, 1, 5, 5⟩
    ⟨#[1], 0, 1, .valueConverged⟩ (SmoothObjective.ofPair_coherent _ _) (by decide +kernel)
  obtain ⟨f, hf, ho⟩ := hsolve glide #[0, 1] 1 ⟨#[4 / 5, 3 / 5], 0, 1, .valueConverged⟩
    (by decide +kernel)
  obtain ⟨-, -, -, rfl⟩ := Solver.energy_eq_ok.1 hf
  exact ⟨hd, hg, ho⟩

end EnergyStep
