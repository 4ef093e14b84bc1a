import EnergyStep.Proofs.Solver.Descent
import EnergyStep.Proofs.Stepper.Cover

/-!
# Assembled solvers fail only by their numbers

What a solver checks when it is made is all that its solves need, if some state can have the positions of
its terms. A solve of a state of its dimension meets no broken precondition, neither in a term, nor in a
search, nor in a minimizer; if it has no result, the numbers made no progress possible. So a stepper never
takes a mistake in the assembly for a step to be tried again, nor the other way round. Only a position at
the last word, which no state has, passes the checks and is missed in the solve.

* `Solver.Assembled`: what the constructor has checked.
* `Solver.Assembled.solve_ends`, `Solver.Assembled.cover_ends`: how solves and covers end.
* `Stepper.Reachable`: the steppers over a solver, after any steps and resets.
* `assembly_complete`: solves, covers and steps of an assembled solver.
-/

namespace EnergyStep

variable {α : Type} [Exact α]

/-- The numbers are the cause of the fault. -/
def Poor (fault : Fault α) : Prop := fault.isPoorlyConditioned = true

/-- **An energy whose terms fit** is evaluated wherever a minimization goes. -/
theorem StepEnergy.objective_within {f : StepEnergy α} (hfit : ∀ t ∈ f.terms, t.FitsIn f.dimension) :
    f.objective.Within Poor where
  condition _ := rfl
  value x hx := by
    have h : f.objective.value x = .ok (f.energyAt x.component) :=
      map_eq_ok.2 ⟨_, evaluate_of_fits hx hfit, rfl⟩
    rw [h]
    trivial
  gradient x hx := by
    have h : f.objective.valueAndGradient x = .ok _ := evaluate_of_fits hx hfit
    rw [h]
    trivial
  sized := by
    right
    intro x v g hx h
    obtain ⟨-, -, -, rfl⟩ := evaluate_eq_ok.1 h
    rw [Components.size_bumpAll, Components.size_zeros, hx]

namespace Solver

/-- **An assembled solver**: settings, terms and scales have passed their checks, and the terms are
addressable. -/
structure Assembled (s : Solver α) : Prop where
  nonempty : 0 < s.dimension
  settings : s.settings.check = .ok ()
  terms : checkTerms s.dimension s.terms = .ok ()
  addressable : ∀ t ∈ s.terms, Placed.Addressable t

variable {n : ℕ} {terms : List (Term α)} {settings : Settings α} {s : Solver α}

omit [Exact α] in
theorem make_eq_ok [Scalar α] : make n terms settings = .ok s ↔
    settings.check = .ok () ∧ checkTerms n terms = .ok () ∧ ⟨n, terms, settings⟩ = s := by
  unfold make
  simp only [bind_eq_ok]
  constructor
  · rintro ⟨_, h1, _, h2, h3⟩
    exact ⟨h1, h2, Except.ok.inj h3⟩
  · rintro ⟨h1, h2, rfl⟩
    exact ⟨(), h1, (), h2, rfl⟩

theorem assembled_of_make (hn : 0 < n) (ha : ∀ t ∈ terms, Placed.Addressable t)
    (h : make n terms settings = .ok s) : s.Assembled := by
  obtain ⟨h1, h2, rfl⟩ := make_eq_ok.1 h
  exact ⟨hn, h1, h2, ha⟩

namespace Assembled

variable {initial : Components α} {dt : α}

theorem energy_ends (hs : s.Assembled) (hsize : initial.size = s.dimension) (hdt : 0 < dt) :
    Ends Poor (fun f => f.objective.Within Poor) (s.energy initial dt) := by
  have hterms : checkTerms initial.size s.terms = .ok () := by rw [hsize]; exact hs.terms
  have hok : s.energy initial dt = .ok ⟨initial, dt, s.terms⟩ :=
    energy_eq_ok.2 ⟨hsize.symm, hdt, hterms, rfl⟩
  rw [hok]
  exact StepEnergy.objective_within (fitsIn_of_checkTerms hterms hs.addressable)

/-- **A solve by an assembled solver** ends with a state of its dimension, or because of its
numbers. -/
theorem solve_ends (hs : s.Assembled) (hsize : initial.size = s.dimension) (hdt : 0 < dt) :
    Ends Poor (fun o => o.state.size = s.dimension) (s.solve initial dt) := by
  have hstart : checkStart s.dimension initial s.settings = .ok () :=
    checkStart_eq_ok.2 ⟨hs.nonempty, hsize, hs.settings⟩
  refine (Solver.solve_ends (hs.energy_ends hsize hdt) (by rw [hstart]; trivial)).mono fun o ho => ?_
  obtain ⟨f, hf, hdesc⟩ := ho
  obtain ⟨hdim, -, -, rfl⟩ := energy_eq_ok.1 hf
  exact hdesc.size.trans hdim.symm

/-- **A cover at any depth** ends in the same way. -/
theorem cover_ends (hs : s.Assembled) : ∀ (halvings : ℕ) (dt : α) (p : Progress α),
    p.state.size = s.dimension → 0 < dt →
      Ends Poor (fun q => q.state.size = s.dimension) (Progress.cover s.solve halvings dt p) := by
  intro halvings
  induction halvings with
  | zero =>
    intro dt p hp hdt
    unfold Progress.cover
    exact (hs.solve_ends hp hdt).bind fun o ho => Ends.pure.2 ho
  | succ halvings ih =>
    intro dt p hp hdt
    have hsolve := hs.solve_ends hp hdt
    cases ho : s.solve p.state dt with
    | ok o =>
      rw [Progress.cover_of_ok ho]
      exact hsolve.of_ok ho
    | error fault =>
      -- the fault is one of the numbers, so the interval is split
      have hpoor : fault.isPoorlyConditioned = true := hsolve.of_error ho
      rw [Progress.cover_succ_of_error ho, if_pos hpoor]
      have hhalf : 0 < 0.5 * dt := by rw [Scalar.half_eq, one_div_mul_eq_div]; exact half_pos hdt
      exact (ih _ p hp hhalf).bind fun q hq => ih _ q hq hhalf

end Assembled
end Solver

namespace Stepper

/-- **The steppers over a solver**: made for it, and after any number of steps and resets. -/
inductive Reachable (solver : Solver α) : Stepper α → Prop
  | made {initial : Components α} {plan : Plan α} {s : Stepper α}
      (h : make solver initial plan = .ok s) : Reachable solver s
  | stepped {s s' : Stepper α} {r : StepReport α} (hs : Reachable solver s)
      (h : s.step = .ok (r, s')) : Reachable solver s'
  | reset {s s' : Stepper α} {state : Components α} (hs : Reachable solver s)
      (h : s.reset state = .ok s') : Reachable solver s'

/-- What all steppers over a solver have in common. -/
structure Over (solver : Solver α) (s : Stepper α) : Prop where
  same : s.solver = solver
  timestep : 0 < s.plan.timestep
  size : s.state.size = solver.dimension

variable {solver : Solver α} {s s' : Stepper α}

theorem over_of_make {initial : Components α} {plan : Plan α} (h : make solver initial plan = .ok s) :
    Over solver s := by
  obtain ⟨hplan, -, hdim, rfl⟩ := make_eq_ok.1 h
  obtain ⟨_, htime, -⟩ := bind_eq_ok.1 hplan
  exact ⟨rfl, checkTimestep_eq_ok.1 htime, hdim.symm⟩

/-- **A step of a stepper over an assembled solver** leads to another one, or ends because of its
numbers. -/
theorem Over.step_ends (hsol : solver.Assembled) (h : Over solver s) :
    Ends Poor (fun p => Over solver p.2) s.step := by
  obtain ⟨rfl, ht, hx⟩ := h
  have hcover := hsol.cover_ends s.plan.maxHalvings s.plan.timestep (Progress.start s.state) hx ht
  exact hcover.bind fun q hq => Ends.pure.2 ⟨rfl, ht, hq⟩

theorem Over.reset (h : Over solver s) {state : Components α} (hr : s.reset state = .ok s') :
    Over solver s' := by
  obtain ⟨rfl, ht, -⟩ := h
  obtain ⟨_, hdim, hr⟩ := bind_eq_ok.1 hr
  cases hr
  exact ⟨rfl, ht, (checkDimension_eq_ok.1 hdim).symm⟩

theorem Reachable.over (hsol : solver.Assembled) (h : Reachable solver s) : Over solver s := by
  induction h with
  | made h => exact over_of_make h
  | stepped _ h ih => exact (ih.step_ends hsol).of_ok h
  | reset _ h ih => exact ih.reset h

/-- A run of steps stays among the steppers over the solver. -/
theorem Reachable.runWhile (go : α → Bool) : ∀ (left : ℕ) {s : Stepper α}, Reachable solver s →
    Reachable solver (s.runWhile go left).2 := by
  intro left
  induction left with
  | zero => intro s h; exact h
  | succ left ih =>
    intro s h
    unfold Stepper.runWhile
    split_ifs
    · cases hs : s.step with
      | error fault => exact h
      | ok p => exact ih (h.stepped hs)
    · exact h

theorem Reachable.run (h : Reachable solver s) (steps : ℕ) : Reachable solver (s.run steps).2 :=
  h.runWhile _ _

theorem Reachable.runFor (h : Reachable solver s) (duration : α) :
    Reachable solver (s.runFor duration).2 := by
  unfold Stepper.runFor
  split_ifs
  · exact h
  · exact h
  · exact h.runWhile _ _

end Stepper

/-- **Assembly checks are complete.** Once a solver has been made for states with `n` components, of terms
whose positions some state can have, a solve over a positive time from such a state, a cover of such a time
at any depth, and a step of any stepper over the solver fail for one kind of reason only: the numbers made
no progress possible. -/
theorem assembly_complete {n : ℕ} {terms : List (Term α)} {settings : Settings α} {solver : Solver α}
    (hn : 0 < n) (haddressable : ∀ t ∈ terms, Placed.Addressable t)
    (hmake : Solver.make n terms settings = .ok solver) :
    (∀ initial dt fault, initial.size = n → 0 < dt → solver.solve initial dt = .error fault →
      fault.isPoorlyConditioned = true) ∧
    (∀ halvings dt p fault, p.state.size = n → 0 < dt →
      Progress.cover solver.solve halvings dt p = .error fault → fault.isPoorlyConditioned = true) ∧
    (∀ s fault, Stepper.Reachable solver s → s.step = .error fault →
      fault.isPoorlyConditioned = true) := by
  have hsol := Solver.assembled_of_make hn haddressable hmake
  obtain ⟨-, -, rfl⟩ := Solver.make_eq_ok.1 hmake
  refine ⟨?_, ?_, ?_⟩
  · intro initial dt fault hsize hdt h
    exact (hsol.solve_ends hsize hdt).of_error h
  · intro halvings dt p fault hsize hdt h
    exact (hsol.cover_ends halvings dt p hsize hdt).of_error h
  · intro s fault hs h
    exact ((hs.over hsol).step_ends hsol).of_error h

/-- A position that changes at a rate, with one iteration for two directions. -/
def hurried : Solver ℚ :=
  ⟨2, [⟨.position ⟨⟨0⟩, ⟨1⟩⟩, ⟨1, 1, 1, 2 / 5⟩⟩], ⟨.powell, 2, 1, 1, 5⟩⟩

/-- A solve, a cover and a step without a result. -/
theorem assembly_complete_hurried :
    (∃ fault, hurried.solve #[0, 1] 1 = .error fault ∧ fault.isPoorlyConditioned = true) ∧
    (∃ fault, Progress.cover hurried.solve 1 1 (Progress.start #[0, 1]) = .error fault ∧
      fault.isPoorlyConditioned = true) ∧
    (∃ fault, Stepper.step ⟨hurried, ⟨1, hurried.settings, 1⟩, #[0, 1], 0, 0⟩ = .error fault ∧
      fault.isPoorlyConditioned = true) := by
  have hmake : Solver.make 2 hurried.terms hurried.settings = .ok hurried := by decide +kernel
  have hreach : Stepper.make hurried #[0, 1] ⟨1, hurried.settings, 1⟩ =
      .ok ⟨hurried, ⟨1, hurried.settings, 1⟩, #[0, 1], 0, 0⟩ := by decide +kernel
  obtain ⟨hsolve, hcover, hstep⟩ := assembly_complete (by decide) (by decide) hmake
  have h₁ : hurried.solve #[0, 1] 1 = .error (.condition (.directionSets 1)) := by decide +kernel
  have h₂ : Progress.cover hurried.solve 1 1 (Progress.start #[0, 1]) =
      .error (.condition (.directionSets 1)) := by decide +kernel
  have h₃ : Stepper.step ⟨hurried, ⟨1, hurried.settings, 1⟩, #[0, 1], 0, 0⟩ =
      .error (.condition (.directionSets 1)) := by decide +kernel
  exact ⟨⟨_, h₁, hsolve _ _ _ rfl one_pos h₁⟩, ⟨_, h₂, hcover _ _ _ _ rfl one_pos h₂⟩,
    ⟨_, h₃, hstep _ _ (.made hreach) h₃⟩⟩

/-- A solver for a term that has a position beyond all states. -/
def astray : Solver ℚ := ⟨2, [Term.beyond], { Settings.standard with method := .powell }⟩

/-- It can be made, and its solves meet the missing position, which is no matter of the numbers. -/
theorem assembly_incomplete_beyond :
    Solver.make 2 [Term.beyond] { Settings.standard with method := .powell } = .ok astray ∧
    astray.solve #[0, 0] (1 / 2) = .error (.index (2 ^ 64 - 1) 2) ∧
    Fault.isPoorlyConditioned (.index (2 ^ 64 - 1) 2 : Fault ℚ) = false := by
  have hmake : Solver.make 2 astray.terms astray.settings = .ok astray :=
    Solver.make_eq_ok.2 ⟨by decide +kernel, checkTerms_beyond.1, rfl⟩
  exact ⟨hmake, by decide +kernel, rfl⟩

end EnergyStep
