import EnergyStep.Proofs.Particle.FreeFall
import EnergyStep.Proofs.Solver.Settled
import EnergyStep.Proofs.Stepper.Assembly
import EnergyStep.System.FallingParticle

/-!
# Trajectories of a falling particle

A step is accepted in one piece or in many, and its report has the sum of what the pieces left. What a
piece leaves is never negative, so a step that leaves nothing has no piece that does, and a piece that
leaves nothing ends in the one state that free fall leads to. Free fall for one time and then for
another is free fall for both, so it does not matter where the pieces are cut.

* `Particle.afterFall_add`: falling on.
* `Covers.falls`: an interval, by induction on its splitting.
* `Stepper.Walk`, `Stepper.Walk.falls`: any number of steps, by induction on them.
* `FallingParticle.Run`: a system, a stepper for it, and the steps taken.
* `trajectory_exact`: the clock and the state after a run.
-/

namespace EnergyStep

variable {α : Type} [Exact α]

namespace Particle

/-- Nothing has happened yet. -/
theorem afterFall_zero (m : α) (position velocity : Vec3 α) (field : Gravity α) :
    afterFall m position velocity field 0 = inField m position velocity field := by
  unfold afterFall
  congr 1 <;> (apply Vector.ext; intro i hi; simp)

/-- **Falling on is falling.** -/
theorem afterFall_add (m : α) (position velocity : Vec3 α) (field : Gravity α) (t u : α) :
    afterFall m (position + t • velocity + (0.5 * t ^ 2) • field.acceleration)
      (velocity + t • field.acceleration) field u = afterFall m position velocity field (t + u) := by
  unfold afterFall
  congr 1
  · apply Vector.ext
    intro i hi
    simp only [Vector.getElem_add, Vector.getElem_smul, smul_eq_mul]
    ring
  · apply Vector.ext
    intro i hi
    simp only [Vector.getElem_add, Vector.getElem_smul, smul_eq_mul]
    ring

end Particle

namespace Solver

variable {solver : Solver α} {start : Components α} {dt : α} {o : Outcome α}

/-- The residual is the energy of the state, in the step that the solve was asked for. -/
theorem solve_evaluated (h : solver.solve start dt = .ok o) : ∃ f g,
    StepEnergy.make start dt solver.terms = .ok f ∧ solver.dimension = f.dimension ∧
      o.state.size = f.dimension ∧ f.evaluate o.state = .ok (o.residual, g) := by
  have hall : ∀ {β : Type} (r : Except (Fault α) β), Ends (fun _ => True) (fun _ => True) r :=
    fun r => Ends.of_all (fun _ => trivial) r
  have henergy : Ends (fun _ => True) (fun f : StepEnergy α => f.objective.Within fun _ => True)
      (solver.energy start dt) := (hall _).mono fun f _ => f.objective.within_all
  obtain ⟨f, hf, hdesc⟩ := (solve_ends henergy (hall _)).of_ok h
  obtain ⟨hdim, hdt, hterms, rfl⟩ := energy_eq_ok.1 hf
  obtain ⟨g, heval⟩ := hdesc.residual
  exact ⟨_, g, StepEnergy.make_eq_ok.2 ⟨hdt, hterms, rfl⟩, hdim, hdesc.size, heval⟩

/-- **What a solve leaves**: a state of the solver's dimension with an energy that is not negative. If
nothing is left, the state violates no law. -/
theorem solve_lawful (h : solver.solve start dt = .ok o) : o.state.size = solver.dimension ∧
    0 ≤ o.residual ∧ (o.residual = 0 →
      ∀ t ∈ solver.terms, t.law.violationAt start.component o.state.component dt = 0) := by
  obtain ⟨f, g, hmake, hdim, hsize, heval⟩ := solve_evaluated h
  obtain ⟨-, -, hres, -⟩ := StepEnergy.evaluate_eq_ok.1 heval
  have hbuilt := StepEnergy.built_of_make hmake
  obtain ⟨-, -, rfl⟩ := StepEnergy.make_eq_ok.1 hmake
  refine ⟨hsize.trans hdim.symm, ?_, ?_⟩
  · rw [← hres]
    exact hbuilt.energyAt_nonneg _
  · intro hzero
    rw [← hres] at hzero
    exact hbuilt.energyAt_eq_zero_iff.1 hzero

end Solver
section Falls

variable {solver : Solver α} {slots : ParticleSlots} {scales : Scales α} {field : Gravity α} {m : α}
  {position velocity : Vec3 α} {start finish : Components α} {dt : α}

/-- **A solve that leaves nothing** lets the particle fall. -/
theorem Solver.solve_falls (hterms : solver.terms = slots.terms scales field) (hm : m ≠ 0)
    (h₀ : slots.particleAt start.component = Particle.inField m position velocity field)
    {o : Outcome α} (h : solver.solve start dt = .ok o) (hzero : o.residual = 0) :
    slots.particleAt o.state.component = Particle.afterFall m position velocity field dt := by
  obtain ⟨-, -, hlaw⟩ := solve_lawful h
  have hlaws := hlaw hzero
  rw [hterms] at hlaws
  exact ((ParticleSlots.laws_iff h₀ hm).1 (List.forall_mem_map.1 hlaws)).1

/-- **An interval of which no piece leaves anything** lets the particle fall, however it is split. -/
theorem Covers.falls (hterms : solver.terms = slots.terms scales field) (hm : m ≠ 0) {halvings : ℕ}
    {ps : List (Piece α)} (h : Covers solver.solve halvings start dt finish ps)
    (hzero : ∀ p ∈ ps, p.outcome.residual = 0)
    (h₀ : slots.particleAt start.component = Particle.inField m position velocity field) :
    slots.particleAt finish.component = Particle.afterFall m position velocity field dt := by
  induction h generalizing position velocity with
  | accepted h => exact Solver.solve_falls hterms hm h₀ h (hzero _ (List.mem_singleton.2 rfl))
  | @halved _ _ _ _ dt _ _ _ _ _ _ _ ih₁ ih₂ =>
    obtain ⟨hfirst, hsecond⟩ := List.forall_mem_append.1 hzero
    -- the second half begins with a particle that falls, as the first one did
    have hmiddle := ih₁ hfirst h₀
    rw [ih₂ hsecond hmiddle, Particle.afterFall_add, add_halves]

/-- The residuals of the pieces are not negative, so a sum without anything left has no piece that
leaves anything. -/
theorem Covers.residual_eq_zero {halvings : ℕ} {ps : List (Piece α)}
    (h : Covers solver.solve halvings start dt finish ps)
    (hsum : (ps.map fun p => p.outcome.residual).sum = 0) : ∀ p ∈ ps, p.outcome.residual = 0 := by
  refine forall_eq_zero_of_sum (fun p hp => ?_) hsum
  exact (Solver.solve_lawful (h.solved p hp)).2.1

theorem Covers.size {halvings : ℕ} {ps : List (Piece α)}
    (h : Covers solver.solve halvings start dt finish ps) : finish.size = solver.dimension := by
  induction h with
  | accepted h => exact (Solver.solve_lawful h).1
  | halved _ _ _ _ _ ih₂ => exact ih₂

end Falls

namespace Stepper

/-- **Steps one after the other**, with their reports. A step that fails leaves the stepper as it was,
so only those that succeed are here. -/
inductive Walk (first : Stepper α) : List (StepReport α) → Stepper α → Prop
  | start : Walk first [] first
  | step {reports : List (StepReport α)} {s s' : Stepper α} {r : StepReport α}
      (w : Walk first reports s) (h : s.step = .ok (r, s')) : Walk first (reports ++ [r]) s'

/-- The cover that a step made. -/
theorem covers_of_step {s s' : Stepper α} {r : StepReport α} (h : s.step = .ok (r, s')) : ∃ ps,
    Covers s.solver.solve s.plan.maxHalvings s.state s.plan.timestep s'.state ps ∧
      r.residual = (ps.map fun p => p.outcome.residual).sum := by
  obtain ⟨q, hq, rfl, rfl⟩ := step_eq_ok.1 h
  obtain ⟨ps, hps, hrec⟩ := Progress.cover_eq_ok hq
  obtain ⟨-, hres, -⟩ := Progress.recordAll_sums ps (Progress.start s.state)
  refine ⟨ps, hps, ?_⟩
  rw [← hrec] at hres
  exact hres.trans (zero_add _)

namespace Walk

variable {first s : Stepper α} {reports : List (StepReport α)}

theorem same (w : Walk first reports s) : s.solver = first.solver ∧ s.plan = first.plan := by
  induction w with
  | start => exact ⟨rfl, rfl⟩
  | step _ h ih =>
    obtain ⟨q, -, -, rfl⟩ := step_eq_ok.1 h
    exact ih

theorem steps_eq (w : Walk first reports s) : s.steps = first.steps + reports.length := by
  induction w with
  | start => rfl
  | @step reports s s' r w h ih =>
    obtain ⟨q, -, -, rfl⟩ := step_eq_ok.1 h
    show s.steps + 1 = _
    rw [ih, List.length_append, List.length_singleton, add_assoc]

/-- **The clock** has been moved on by one time step for each report. -/
theorem time_eq (w : Walk first reports s) :
    s.time = first.time + reports.length * first.plan.timestep := by
  induction w with
  | start => simp
  | @step reports s s' r w h ih =>
    obtain ⟨q, -, -, rfl⟩ := step_eq_ok.1 h
    show s.time + s.plan.timestep = _
    rw [ih, w.same.2, List.length_append, List.length_singleton, Nat.cast_succ]
    ring

theorem size (w : Walk first reports s) (h₀ : first.state.size = first.solver.dimension) :
    s.state.size = first.solver.dimension := by
  induction w with
  | start => exact h₀
  | step w h _ =>
    obtain ⟨ps, hps, -⟩ := covers_of_step h
    rw [hps.size, w.same.1]

/-- **Steps that leave nothing** let the particle fall for the time that they cover. -/
theorem falls {slots : ParticleSlots} {scales : Scales α} {field : Gravity α} {m : α}
    {position velocity : Vec3 α} (w : Walk first reports s)
    (hterms : first.solver.terms = slots.terms scales field) (hm : m ≠ 0)
    (h₀ : slots.particleAt first.state.component = Particle.inField m position velocity field)
    (hzero : ∀ r ∈ reports, r.residual = 0) : slots.particleAt s.state.component =
      Particle.afterFall m position velocity field (reports.length * first.plan.timestep) := by
  induction w with
  | start =>
    rw [h₀, List.length_nil, Nat.cast_zero, zero_mul, Particle.afterFall_zero]
  | @step reports s s' r w h ih =>
    obtain ⟨hbefore, hlast⟩ := List.forall_mem_append.1 hzero
    obtain ⟨ps, hps, hsum⟩ := covers_of_step h
    rw [w.same.1, w.same.2] at hps
    have hpieces := hps.residual_eq_zero (hsum.symm.trans (hlast r (List.mem_singleton.2 rfl)))
    -- the particle that the earlier steps led to falls on
    rw [hps.falls hterms hm hpieces (ih hbefore), Particle.afterFall_add, List.length_append,
      List.length_singleton, Nat.cast_succ, add_one_mul]

end Walk
end Stepper

namespace FallingParticle

variable {acceleration position velocity : Vec3 α} {m : α} {scales : Scales α} {settings : Settings α}
  {system : FallingParticle α} {start : Components α}

/-- What a system with a particle without orientation is made of. -/
theorem scaled_eq_ok (h : scaled acceleration scales settings = .ok system) :
    system.slots = ParticleSlots.alone ParticleSlots.plain ∧ system.gravity = ⟨acceleration⟩ ∧
      system.solver.dimension = system.slots.dimension ∧
        system.solver.terms = system.slots.terms scales ⟨acceleration⟩ := by
  obtain ⟨solver, hsolver, h⟩ := bind_eq_ok.1 h
  obtain ⟨-, -, rfl⟩ := Solver.make_eq_ok.1 hsolver
  cases h
  exact ⟨rfl, rfl, rfl, rfl⟩

/-- The state in which the particle begins holds it and nothing else. -/
theorem start_holds (hsystem : scaled acceleration scales settings = .ok system)
    (hstart : system.start m position velocity = .ok start) :
    start.size = system.slots.dimension ∧ system.slots.particleAt start.component =
      Particle.inField m position velocity ⟨acceleration⟩ := by
  obtain ⟨hslots, hgravity, -, -⟩ := scaled_eq_ok hsystem
  have hvacant : system.slots.Vacant (Components.zeros system.slots.dimension : Components α) := by
    rw [hslots]
    exact ParticleSlots.vacant_zeros (ParticleSlots.fitsIn_iff.2 (by decide))
  have hnodup : (Placed.indices system.slots).Nodup := by
    rw [hslots]
    exact ParticleSlots.NextIn.nodup (l := Layout.empty) (Or.inl rfl)
  unfold FallingParticle.start Particle.encode at hstart
  rw [Particle.encodeInto_eq (fun _ => rfl) hvacant.fits] at hstart
  obtain rfl := Except.ok.inj hstart
  refine ⟨by rw [Components.size_bumpAll, Components.size_zeros], ?_⟩
  rw [ParticleSlots.particleAt_bumpAll hnodup hvacant, hgravity]
  rfl

/-- **A run**: a particle without orientation is put into a field, a stepper is made for it, and
steps are taken, each with a report. -/
structure Run (acceleration : Vec3 α) (mass : α) (position velocity : Vec3 α) where
  scales : Scales α
  settings : Settings α
  system : FallingParticle α
  start : Components α
  plan : Plan α
  first : Stepper α
  reports : List (StepReport α)
  last : Stepper α
  placed : FallingParticle.scaled acceleration scales settings = .ok system
  started : system.start mass position velocity = .ok start
  made : Stepper.make system.solver start plan = .ok first
  walked : first.Walk reports last

namespace Run

variable (run : Run acceleration m position velocity)

/-- The clock shows one time step for each report. -/
theorem time_eq : run.last.time = run.reports.length * run.plan.timestep := by
  obtain ⟨-, -, -, hfirst⟩ := Stepper.make_eq_ok.1 run.made
  rw [run.walked.time_eq, ← hfirst, zero_add]

theorem steps_eq : run.last.steps = run.reports.length := by
  obtain ⟨-, -, -, hfirst⟩ := Stepper.make_eq_ok.1 run.made
  rw [run.walked.steps_eq, ← hfirst, Nat.zero_add]

theorem size_eq : run.last.state.size = run.system.slots.dimension := by
  obtain ⟨-, -, hdim, hfirst⟩ := Stepper.make_eq_ok.1 run.made
  obtain ⟨-, -, hdimension, -⟩ := scaled_eq_ok run.placed
  have hsize := run.walked.size (by rw [← hfirst]; exact hdim.symm)
  rw [hsize, ← hfirst]
  exact hdimension

/-- **A run that leaves nothing** leads to a particle that has fallen freely for the time that the
clock shows. -/
theorem falls (hm : m ≠ 0) (hzero : ∀ r ∈ run.reports, r.residual = 0) :
    run.system.slots.particleAt run.last.state.component =
      Particle.afterFall m position velocity ⟨acceleration⟩ run.last.time := by
  obtain ⟨-, -, -, hfirst⟩ := Stepper.make_eq_ok.1 run.made
  obtain ⟨-, -, -, hterms⟩ := scaled_eq_ok run.placed
  obtain ⟨-, h₀⟩ := start_holds run.placed run.started
  have hsolver : run.first.solver.terms = run.system.slots.terms run.scales ⟨acceleration⟩ := by
    rw [← hfirst]
    exact hterms
  have hstate : run.system.slots.particleAt run.first.state.component =
      Particle.inField m position velocity ⟨acceleration⟩ := by
    rw [← hfirst]
    exact h₀
  have hfalls := run.walked.falls hsolver hm hstate hzero
  rw [hfalls, run.time_eq, ← hfirst]

end Run
end FallingParticle

/-- **Trajectories are exact, however steps are split.** Let a particle of some mass fall in a field,
under any scales, settings and plan. If no step has left any energy, whichever of them were cut in
half and how often, then the clock shows the number of steps times the time step, and the state holds
the particle after free fall for that time. So another run that has come to the same time without
leaving any energy, by steps of whatever length, is in the same state. -/
theorem trajectory_exact {acceleration position velocity : Vec3 α} {m : α} (hm : m ≠ 0)
    (run : FallingParticle.Run acceleration m position velocity)
    (hzero : ∀ r ∈ run.reports, r.residual = 0) :
    run.last.steps = run.reports.length ∧
    run.last.time = run.reports.length * run.plan.timestep ∧
    run.system.decode run.last.state =
      .ok (Particle.afterFall m position velocity ⟨acceleration⟩ run.last.time) ∧
    ∀ other : FallingParticle.Run acceleration m position velocity,
      (∀ r ∈ other.reports, r.residual = 0) → other.last.time = run.last.time →
        other.last.state = run.last.state := by
  have hslots : ∀ other : FallingParticle.Run acceleration m position velocity,
      other.system.slots = ParticleSlots.alone ParticleSlots.plain :=
    fun other => (FallingParticle.scaled_eq_ok other.placed).1
  refine ⟨run.steps_eq, run.time_eq, ?_, ?_⟩
  · have haddressable : Placed.Addressable run.system.slots := by
      rw [hslots]
      decide
    have hfit : run.system.slots.FitsIn run.last.state.size :=
      (ParticleSlots.dimension_le_iff haddressable).1 run.size_eq.ge
    have hnone : Particle.decodeOrientation run.system.slots run.last.state = .ok none := by
      rw [hslots]
      rfl
    show Particle.decode run.system.slots run.last.state = _
    rw [Particle.decode_eq hfit, hnone, run.falls hm hzero]
    rfl
  · intro other hother htime
    have hat : other.system.slots.particleAt other.last.state.component =
        other.system.slots.particleAt run.last.state.component := by
      rw [other.falls hm hother, htime, hslots other, ← hslots run, run.falls hm hzero]
    have hcomponent := ParticleSlots.component_eq_of_particleAt_eq (by rw [hslots]; rfl) hat
    have hindices : Placed.indices other.system.slots = List.range' 0 13 := by
      rw [hslots]
      exact ParticleSlots.indices_plain Layout.empty
    have hsize : ∀ r : FallingParticle.Run acceleration m position velocity,
        r.last.state.size = 13 := by
      intro r
      rw [r.size_eq, hslots]
      rfl
    -- the particle takes up the whole state
    apply Array.ext
    · rw [hsize, hsize]
    · intro i h₁ h₂
      rw [← Components.component_eq h₁, ← Components.component_eq h₂]
      refine hcomponent i ?_
      rw [hindices, List.mem_range'_1]
      have := hsize other
      omega

/-- A particle without weight. -/
def weightless : FallingParticle ℚ where
  slots := ParticleSlots.alone ParticleSlots.plain
  gravity := ⟨#v[0, 0, 0]⟩
  solver := ⟨13, (ParticleSlots.alone ParticleSlots.plain).terms Scales.unit ⟨#v[0, 0, 0]⟩,
    ⟨.powell, 1, 1, 13, 1⟩⟩

theorem weightless_terms : checkTerms 13 weightless.solver.terms = .ok () := by decide +kernel

theorem weightless_placed : FallingParticle.scaled #v[0, 0, 0] Scales.unit weightless.solver.settings =
    .ok weightless :=
  bind_eq_ok.2 ⟨_, Solver.make_eq_ok.2 ⟨by decide +kernel, weightless_terms, rfl⟩, rfl⟩

/-- It drifts along the first axis, on which it is at `x`. -/
def drifting (x : ℚ) : Components ℚ := #[2, x, 2, 3, 1, 0, 0, 0, 0, 0, 0, 0, 0]

/-- The energy of a step of it. -/
def drift (dt x : ℚ) : StepEnergy ℚ := ⟨drifting x, dt, weightless.solver.terms⟩

/-- Where it is when solves begin that succeed. -/
def milestones : List ℚ := [1, 1 + 128]

theorem mem_milestones : (1 : ℚ) ∈ milestones ∧ (1 + 128 : ℚ) ∈ milestones :=
  ⟨List.mem_cons_self, List.mem_cons_of_mem _ List.mem_cons_self⟩

theorem drift_settled : ∀ x ∈ milestones,
    (drift 128 x).objective.toObjective.SettledAt (drifting (x + 128)) := by
  have hdistinct : ∀ t ∈ weightless.solver.terms, t.law.indices.Nodup := by decide +kernel
  have hplain : ∀ i < 13, ∀ t ∈ weightless.solver.terms, t.law.norms i = false := by decide +kernel
  have hsolved : ∀ x ∈ milestones,
      (drift 128 x).evaluate (drifting (x + 128)) = .ok (0, Components.zeros 13) := by decide +kernel
  have hstiff : ∀ x ∈ milestones, ∀ i < 13,
      0 < (drift 128 x).stiffness (drifting (x + 128)).component i := by decide +kernel
  intro x hx
  have hmake : StepEnergy.make (drifting x) 128 weightless.solver.terms = .ok (drift 128 x) :=
    StepEnergy.make_eq_ok.2 ⟨by norm_num, weightless_terms, rfl⟩
  exact StepEnergy.settledAt (StepEnergy.built_of_make hmake) (hsolved x hx) hdistinct hplain (hstiff x hx)

/-- The line along the position leads to where the particle drifts. As far again beyond, there is as much
left as at the start. -/
theorem drift_reaches : ∀ x ∈ milestones, DirectionSet.sweep (drift 128 x).objective.toObjective
      (LineSearch.ofSettings weightless.solver.settings) 0 ((Components.basis 13).take 2)
      ⟨drifting x, 16384, 0, 0⟩ = .ok ⟨drifting (x + 128), 0, 1, 16384⟩ ∧
    (drift 128 x).objective.value (drifting x) = .ok 16384 ∧
    (drift 128 x).objective.value (DirectionSet.extrapolated (drifting x) (drifting (x + 128))) =
      .ok 16384 := by
  decide +kernel

theorem drift_solve {x : ℚ} (hx : x ∈ milestones) : weightless.solver.solve (drifting x) 128 =
    .ok ⟨drifting (x + 128), 0, 13, .valueConverged⟩ := by
  obtain ⟨hreach, hv, hbeyond⟩ := drift_reaches x hx
  have hdim : (drift 128 x).objective.dimension = 13 := rfl
  have hstart : checkStart 13 (drifting x) weightless.solver.settings = .ok () :=
    checkStart_eq_ok.2 ⟨by decide, rfl, by decide +kernel⟩
  have hmin : (drift 128 x).objective.minimizeByDirections (drifting x) weightless.solver.settings =
      .ok ⟨drifting (x + 128), 0, 13, .valueConverged⟩ :=
    (drift_settled x hx).minimizeByDirections_eq (hdim ▸ by decide) hstart hv le_rfl
      (List.take_append_drop 2 (Components.basis 13)).symm (by norm_num) hreach hbeyond le_rfl
  have henergy : weightless.solver.energy (drifting x) 128 = .ok (drift 128 x) :=
    Solver.energy_eq_ok.2 ⟨rfl, by norm_num, weightless_terms, rfl⟩
  unfold Solver.solve
  rw [henergy]
  show ((drift 128 x).objective.minimizeByDirections (drifting x) weightless.solver.settings >>= _) = _
  rw [hmin]
  rfl

/-- Twice the time is too much for a bracket that may be expanded once. -/
theorem drift_stuck : ∃ fault, weightless.solver.solve (drifting 1) 256 = .error fault ∧
    fault.isPoorlyConditioned = true := by
  have hpoor : (match weightless.solver.solve (drifting 1) 256 with
      | .error fault => fault.isPoorlyConditioned
      | .ok _ => false) = true := by
    decide +kernel
  cases h : weightless.solver.solve (drifting 1) 256 with
  | error fault => rw [h] at hpoor; exact ⟨fault, rfl, hpoor⟩
  | ok o => rw [h] at hpoor; cases hpoor

/-- The stepper with the particle at `x`. -/
def travelling (dt x time : ℚ) (steps : ℕ) : Stepper ℚ :=
  ⟨weightless.solver, ⟨dt, weightless.solver.settings, 1⟩, drifting x, time, steps⟩

/-- The report on a step that ends with the particle at `x`. -/
def arrival (x time : ℚ) (substeps : ℕ) : StepReport ℚ := ⟨drifting x, time, substeps, 0, 13 * substeps⟩

/-- What is known after some solves that succeeded. -/
def covered (x : ℚ) (solves : ℕ) : Progress ℚ := ⟨drifting x, solves, 0, 13 * solves⟩

theorem cover_drift {x : ℚ} (hx : x ∈ milestones) (halvings solves : ℕ) :
    Progress.cover weightless.solver.solve halvings 128 (covered x solves) =
      .ok (covered (x + 128) (solves + 1)) := by
  have hrecord : (covered x solves).record ⟨drifting (x + 128), 0, 13, .valueConverged⟩ =
      covered (x + 128) (solves + 1) := by
    show (⟨_, _, 0 + 0, _⟩ : Progress ℚ) = _
    rw [add_zero]
    rfl
  rw [Progress.cover_of_ok (drift_solve hx), hrecord]

theorem travelling_step {x : ℚ} (hx : x ∈ milestones) (time : ℚ) (steps : ℕ) :
    (travelling 128 x time steps).step =
      .ok (arrival (x + 128) (time + 128) 1, travelling 128 (x + 128) (time + 128) (steps + 1)) :=
  Stepper.step_eq_ok.2 ⟨_, cover_drift hx 1 0, rfl, rfl⟩

/-- A step that is cut in half. -/
theorem travelling_step_halved : (travelling 256 1 0 0).step =
    .ok (arrival (1 + 128 + 128) (0 + 256) 2, travelling 256 (1 + 128 + 128) (0 + 256) 1) := by
  obtain ⟨fault, hfault, hpoor⟩ := drift_stuck
  have hhalf : (0.5 : ℚ) * 256 = 128 := by norm_num
  have hcover : Progress.cover weightless.solver.solve 1 256 (covered 1 0) =
      .ok (covered (1 + 128 + 128) 2) := by
    rw [Progress.cover_succ_of_error hfault, if_pos hpoor, hhalf]
    exact bind_eq_ok.2 ⟨_, cover_drift mem_milestones.1 0 0, cover_drift mem_milestones.2 0 1⟩
  exact Stepper.step_eq_ok.2 ⟨_, hcover, rfl, rfl⟩

/-- A run of two steps. -/
def twoSteps : FallingParticle.Run (#v[0, 0, 0] : Vec3 ℚ) 2 #v[1, 2, 3] #v[1, 0, 0] where
  scales := Scales.unit
  settings := weightless.solver.settings
  system := weightless
  start := drifting 1
  plan := (travelling 128 1 0 0).plan
  first := travelling 128 1 0 0
  reports := [arrival (1 + 128) (0 + 128) 1, arrival (1 + 128 + 128) (0 + 128 + 128) 1]
  last := travelling 128 (1 + 128 + 128) (0 + 128 + 128) 2
  placed := weightless_placed
  started := by decide +kernel
  made := by decide +kernel
  walked := (Stepper.Walk.start.step (travelling_step mem_milestones.1 0 0)).step
    (travelling_step mem_milestones.2 _ 1)

/-- A run of one step, twice as long, that is cut in half. -/
def halvedStep : FallingParticle.Run (#v[0, 0, 0] : Vec3 ℚ) 2 #v[1, 2, 3] #v[1, 0, 0] where
  scales := Scales.unit
  settings := weightless.solver.settings
  system := weightless
  start := drifting 1
  plan := (travelling 256 1 0 0).plan
  first := travelling 256 1 0 0
  reports := [arrival (1 + 128 + 128) (0 + 256) 2]
  last := travelling 256 (1 + 128 + 128) (0 + 256) 1
  placed := weightless_placed
  started := by decide +kernel
  made := by decide +kernel
  walked := Stepper.Walk.start.step travelling_step_halved

/-- Two steps, and one that is cut in half. -/
theorem trajectory_exact_drift : twoSteps.last.steps = 2 ∧ twoSteps.last.time = 256 ∧
    weightless.decode twoSteps.last.state =
      .ok (Particle.afterFall 2 #v[1, 2, 3] #v[1, 0, 0] ⟨#v[0, 0, 0]⟩ 256) ∧
    halvedStep.reports.map StepReport.substeps = [2] ∧ halvedStep.last.state = twoSteps.last.state := by
  obtain ⟨hsteps, -, hdecode, hsame⟩ := trajectory_exact (by decide +kernel) twoSteps (by decide +kernel)
  have hclock : twoSteps.last.time = 256 := by decide +kernel
  rw [hclock] at hdecode
  exact ⟨hsteps, hclock, hdecode, rfl, hsame halvedStep (by decide +kernel) (by decide +kernel)⟩

end EnergyStep
