import EnergyStep.Proofs.Particle.FreeFall
import EnergyStep.Proofs.Stepper.Assembly

/-!
# Minimizing from a minimum

No minimizer ever goes up, so one that starts where nothing is lower keeps its value. Conjugate
gradients then see no fall and stop after one line, whether a minimum was found on it or not. Direction
sets pass their test of convergence in every iteration, but the test counts only from the iteration
that has used as many directions as there are components, and so they end with that one.

* `Objective.Bottom`: a value that nothing is lower than.
* `SmoothObjective.minimizeByGradients_stays`: conjugate gradients always have a result.
* `DirectionSet.iterate_stays`: direction sets, by induction on the iterations left.
* `StepEnergy.Sole`, `StepEnergy.sole_of_particle`: a step that has one solution.
* `StepEnergy.solved_stays`: energies, from a state that leaves nothing.
-/

namespace EnergyStep

variable {α : Type} [Exact α] {fails : Fault α → Prop} {settings : Settings α} {v : α}

/-- **Nothing is lower than `v`.** -/
def Objective.Bottom (f : Objective (Except (Fault α)) α) (v : α) : Prop :=
  ∀ x w, f.value x = .ok w → v ≤ w

/-- A place that is not above the bottom is at the bottom. -/
theorem Objective.At.value_eq {f : Objective (Except (Fault α)) α} {p : Components α} {w : α}
    (h : f.At v p w) (hb : f.Bottom v) : w = v := le_antisymm h.below (hb p w h.value)

namespace ConjugateGradient

/-- Without a fall, now or before, the value has converged. -/
theorem judge_of_same {tolerance : α} {s : ConjugateGradient α} {point gradient : Components α}
    {value : α} (hv : value = s.value) (hd : s.largestDrop = 0) :
    s.judge tolerance point value gradient = .stop .valueConverged := by
  have hdrop : s.value - value = 0 := sub_eq_zero.2 hv.symm
  unfold judge
  dsimp only
  rw [hdrop, hd, Scalar.larger_eq_max, max_self, mul_zero, if_pos le_rfl]

variable {f : SmoothObjective (Except (Fault α)) α} {s : ConjugateGradient α}

/-- **An iteration from the bottom is the last one.** If no minimum is found on the line it ends where
it began. -/
theorem iterate_stays (hf : f.Within Poor) (hc : f.Coherent) (htol : 0 < settings.lineTolerance)
    (hb : f.Bottom v) (hs : f.At v s.point s.value) (hsize : s.conjugate.size = f.dimension)
    (hd : s.largestDrop = 0) (left done : ℕ) : ∃ m, iterate f settings (left + 1) done s = .ok m ∧
      m.iterations = done + 1 ∧ f.At v m.point m.value := by
  have hray : Ray.Sized f.dimension ⟨s.point, usable s.conjugate⟩ :=
    ⟨hs.size, (size_usable _).trans hsize⟩
  have hfit : Ends Poor (fun _ => True) (Ray.check f.dimension ⟨s.point, usable s.conjugate⟩) := by
    rw [Ray.check_eq_ok.2 hray]
    trivial
  have hline : Ends Poor _ (f.descend (LineSearch.ofSettings settings) _) :=
    f.descend_ends hf hc htol hfit hs.value
  unfold iterate
  dsimp only
  rw [observing_eq]
  cases hl : f.descend (LineSearch.ofSettings settings) ⟨s.point, usable s.conjugate⟩ with
  | error fault =>
    -- no minimum on the line, which can only be for the numbers, so the point stays
    have hpoor : fault.isPoorlyConditioned = true := hline.of_error hl
    refine ⟨⟨s.point, s.value, done + 1, .lineSearchStalled⟩, ?_, rfl, hs⟩
    show (if fault.isPoorlyConditioned then _ else _) = _
    rw [if_pos hpoor]
    rfl
  | ok p =>
    obtain ⟨there, value, gradient⟩ := p
    have hat : f.At v there.origin value := (hline.of_ok hl).1.at hs.below
    -- the minimum on the line is not above the bottom
    have hsame : value = s.value := (hat.value_eq hb).trans (hs.value_eq hb).symm
    refine ⟨⟨there.origin, value, done + 1, .valueConverged⟩, ?_, rfl, hat⟩
    show ((ensure (checkFinite value gradient) : Except (Fault α) Unit) >>= fun _ => _) = _
    refine bind_eq_ok.2 ⟨(), by rw [ensure_eq, checkFinite_eq], ?_⟩
    rw [judge_of_same hsame hd]
    rfl

end ConjugateGradient

/-- **Conjugate gradients from the bottom** have a result, after one iteration and at the bottom. -/
theorem SmoothObjective.minimizeByGradients_stays {f : SmoothObjective (Except (Fault α)) α}
    (hf : f.Within Poor) (hc : f.Coherent) (hb : f.Bottom v) {start g : Components α}
    (hstart : checkStart f.dimension start settings = .ok ())
    (hv : f.valueAndGradient start = .ok (v, g)) (hg : g.size = f.dimension) :
    ∃ m, f.minimizeByGradients start settings = .ok m ∧ m.iterations = 1 ∧ f.At v m.point m.value := by
  obtain ⟨-, hsize, hset⟩ := checkStart_eq_ok.1 hstart
  obtain ⟨-, htol, hbudget, -⟩ := Settings.check_eq_ok.1 hset
  obtain ⟨left, hleft⟩ : ∃ left, settings.maxIterations = left + 1 :=
    ⟨settings.maxIterations - 1, by omega⟩
  have hhere : f.At v start v := ⟨hsize, hc _ _ _ hv, le_rfl⟩
  obtain ⟨m, hm, hiterations, hat⟩ := ConjugateGradient.iterate_stays (s := ⟨start, v, g.neg, g.neg, 0⟩)
    hf hc htol hb hhere ((Components.size_neg g).trans hg) rfl left 0
  refine ⟨m, ?_, hiterations, hat⟩
  unfold minimizeByGradients
  refine bind_eq_ok.2 ⟨(), by rw [ensure_eq, hstart], bind_eq_ok.2 ⟨(v, g), hv, ?_⟩⟩
  refine bind_eq_ok.2 ⟨(), by rw [ensure_eq, ConjugateGradient.checkFinite_eq], ?_⟩
  rw [hleft]
  exact hm

namespace DirectionSet

/-- A value that has not fallen has converged. -/
theorem isConverged_same {tolerance : α} (htol : 0 < tolerance) (v : α) :
    isConverged tolerance v v = true := by
  have hsize : 0 ≤ tolerance * (Scalar.abs v + Scalar.abs v) :=
    mul_nonneg htol.le (add_nonneg (abs_nonneg v) (abs_nonneg v))
  have hleast : (0 : α) ≤ 1e-25 := by norm_num
  unfold isConverged
  rw [sub_self, mul_zero, decide_eq_true_iff]
  exact add_nonneg hsize hleast

variable {f : Objective (Except (Fault α)) α}

/-- **Iterations from the bottom** go on to the one with the number of components, where the test of
convergence first counts, and end with it, unless the budget or a line search does. -/
theorem iterate_stays (hf : f.Within fails) (hline : 0 < settings.lineTolerance)
    (htol : 0 < settings.tolerance) (hb : f.Bottom v) : ∀ (left done : ℕ) (s : DirectionSet α),
      done < f.dimension → s.Coherent f v →
      Ends fails (fun m => m.iterations = f.dimension ∧ f.At v m.point m.value)
        (iterate f settings left done s) := by
  intro left
  induction left with
  | zero => intro done s _ _; exact hf.condition _
  | succ left ih =>
    intro done s hdone hs
    unfold iterate
    refine (sweep_ends hf hline s.directions 0 ⟨s.point, s.value, 0, 0⟩ hs.directions hs.here).bind
      fun w hw => ?_
    have hconverged : isConverged settings.tolerance s.value w.value = true := by
      rw [hs.here.value_eq hb, hw.value_eq hb]
      exact isConverged_same htol v
    rw [hconverged, Bool.true_and]
    by_cases hlast : f.dimension ≤ done + 1
    · rw [if_pos (decide_eq_true hlast)]
      have hn : done + 1 = f.dimension := by omega
      exact Ends.pure.2 ⟨hn, hw⟩
    · -- before the last iteration the set is never reset
      have hmod : (done + 1) % f.dimension ≠ 0 := by
        rw [Nat.mod_eq_of_lt (by omega)]
        omega
      rw [if_neg (by simpa using hlast), if_neg hmod]
      exact (replaceDirection_ends hf hline hs s.value hw).bind fun s' hs' => ih _ _ (by omega) hs'

end DirectionSet

/-- **Direction sets from the bottom** have no result but one at the bottom, after as many iterations
as there are components. -/
theorem Objective.minimizeByDirections_stays {f : Objective (Except (Fault α)) α} (hf : f.Within fails)
    (hb : f.Bottom v) {start : Components α} (hstart : checkStart f.dimension start settings = .ok ())
    (hv : f.value start = .ok v) :
    Ends fails (fun m => m.iterations = f.dimension ∧ f.At v m.point m.value)
      (f.minimizeByDirections start settings) := by
  obtain ⟨hn, hsize, hset⟩ := checkStart_eq_ok.1 hstart
  obtain ⟨htol, hline, -, -⟩ := Settings.check_eq_ok.1 hset
  have hhere : f.At v start v := ⟨hsize, hv, le_rfl⟩
  have hbasis : ∀ d ∈ (Components.basis f.dimension : List (Components α)), d.size = f.dimension :=
    fun d hd => Components.size_of_mem_basis hd
  unfold minimizeByDirections
  rw [ensure_eq, hstart, hv]
  exact DirectionSet.iterate_stays hf hline htol hb _ 0 _ hn ⟨hhere, hbasis, hsize⟩

namespace StepEnergy

variable {f : StepEnergy α}

/-- **No energy of a step is negative.** -/
theorem Built.bottom (h : f.Built) : f.objective.Bottom 0 := by
  intro x w hw
  obtain ⟨⟨e, g⟩, heval, rfl⟩ := map_eq_ok.1 hw
  obtain ⟨-, -, rfl, -⟩ := evaluate_eq_ok.1 heval
  exact h.energyAt_nonneg _

/-- **The step has one solution**: no other state leaves nothing. -/
def Sole (f : StepEnergy α) (s : Components α) : Prop := ∀ x g, f.evaluate x = .ok (0, g) → x = s

/-- A place at the bottom of the energy is a solution. -/
theorem evaluate_of_at {p : Components α} {w : α} (h : f.objective.At 0 p w) (hb : f.objective.Bottom 0) :
    w = 0 ∧ ∃ g, f.evaluate p = .ok (0, g) := by
  obtain rfl := h.value_eq hb
  obtain ⟨⟨e, g⟩, heval, rfl⟩ := map_eq_ok.1 h.value
  exact ⟨rfl, g, heval⟩

end StepEnergy

namespace AxisBody

variable {b : AxisBody} {σ₀ σ σ' : ℕ → α} {g dt : α}

/-- The laws of a body with a mass have one solution. -/
theorem eq_of_laws (h : ∀ law ∈ b.laws g, law.violationAt σ₀ σ dt = 0)
    (h' : ∀ law ∈ b.laws g, law.violationAt σ₀ σ' dt = 0) (hm : σ₀ b.mass.index ≠ 0) :
    ∀ i ∈ b.indices, σ i = σ' i := by
  obtain ⟨hmass, hforce, hacceleration, hvelocity, hposition⟩ := solved_of_laws h hm
  obtain ⟨hmass', hforce', hacceleration', hvelocity', hposition'⟩ := solved_of_laws h' hm
  simp only [indices, List.forall_mem_cons]
  exact ⟨hmass.trans hmass'.symm, hposition.trans hposition'.symm, hvelocity.trans hvelocity'.symm,
    hacceleration.trans hacceleration'.symm, hforce.trans hforce'.symm,
    fun _ hi => absurd hi List.not_mem_nil⟩

end AxisBody

namespace ParticleSlots

variable {slots : ParticleSlots}

omit [Exact α] in
/-- Every position of a particle without orientation is one along some axis. -/
theorem mem_axis_indices (hquat : slots.orientation = none) :
    ∀ i ∈ Placed.indices slots, ∃ k, i ∈ (slots.axis k).indices := by
  have hvec : ∀ s : Slots 3, (∀ k, (s.components.get k).index ∈ (slots.axis k).indices) →
      ∀ i ∈ Placed.indices s, ∃ k, i ∈ (slots.axis k).indices := by
    intro s hs i hi
    obtain ⟨k, hk, rfl⟩ := List.mem_iff_getElem.1 hi
    have hk3 : k < 3 := by simpa [Placed.indices] using hk
    refine ⟨⟨k, hk3⟩, ?_⟩
    simpa [Slots.components, Placed.indices, Vector.get_eq_getElem] using hs ⟨k, hk3⟩
  have hnone : ∀ quat, slots.orientation ≠ some quat := by simp [hquat]
  rw [forall_mem_indices]
  refine ⟨⟨0, ?_⟩, hvec _ fun k => ?_, hvec _ fun k => ?_, hvec _ fun k => ?_, hvec _ fun k => ?_,
    fun quat h => absurd h (hnone quat)⟩
  -- each quantity is among those of the body on its axis
  all_goals simp [AxisBody.indices, axis]

end ParticleSlots

namespace StepEnergy

variable {initial s g : Components α} {dt : α} {terms : List (Term α)} {f : StepEnergy α}

/-- **A particle that has a mass and no orientation has one solution**, if there is nothing else in the
state. -/
theorem sole_of_particle {slots : ParticleSlots} {scales : Scales α} {field : Gravity α}
    (hmake : make initial dt (slots.terms scales field) = .ok f) (hquat : slots.orientation = none)
    (hall : ∀ i < f.dimension, i ∈ Placed.indices slots)
    (hm : initial.component slots.mass.index ≠ 0) (hs : f.evaluate s = .ok (0, g)) : f.Sole s := by
  have hbuilt := built_of_make hmake
  obtain ⟨-, -, rfl⟩ := make_eq_ok.1 hmake
  have hlaws : ∀ {x g}, evaluate ⟨initial, dt, slots.terms scales field⟩ x = .ok (0, g) →
      x.size = initial.size ∧ ∀ k : Fin 3, ∀ law ∈ (slots.axis k).laws (field.acceleration.get k),
        law.violationAt initial.component x.component dt = 0 := by
    intro x g hx
    obtain ⟨hdim, -, henergy, -⟩ := evaluate_eq_ok.1 hx
    have hterms : ∀ t ∈ slots.terms scales field,
        t.law.violationAt initial.component x.component dt = 0 :=
      hbuilt.energyAt_eq_zero_iff.1 henergy
    exact ⟨hdim.symm, (ParticleSlots.forall_mem_laws.1 (List.forall_mem_map.1 hterms)).1⟩
  intro x g' hx
  obtain ⟨hsize, hxlaws⟩ := hlaws hx
  obtain ⟨hsize', hslaws⟩ := hlaws hs
  apply Array.ext
  · rw [hsize, hsize']
  · intro i h₁ h₂
    rw [← Components.component_eq h₁, ← Components.component_eq h₂]
    obtain ⟨k, hk⟩ := ParticleSlots.mem_axis_indices hquat i (hall i (lt_of_lt_of_eq h₁ hsize))
    exact AxisBody.eq_of_laws (hxlaws k) (hslaws k) hm i hk

/-- **A step that is solved again stays solved.** Let a step with something to vary have been made, let
a state leave nothing of its energy, and let the settings make sense. Then conjugate gradients from
that state always have a result, after one iteration and with nothing left. Direction sets, if they
have a result, have it after as many iterations as there are components, with nothing left. If the
step has no other solution, the result of both is the state itself; this is so for a particle that
has a mass and no orientation and is alone in the state. -/
theorem solved_stays (hmake : make initial dt terms = .ok f) (hn : 0 < f.dimension)
    (hs : f.evaluate s = .ok (0, g)) (hset : settings.check = .ok ()) :
    (∃ m, f.objective.minimizeByGradients s settings = .ok m ∧ m.iterations = 1 ∧ m.value = 0 ∧
      (∃ g', f.evaluate m.point = .ok (0, g')) ∧ (f.Sole s → m.point = s)) ∧
    (∀ m, f.objective.minimizeByDirections s settings = .ok m → m.iterations = f.dimension ∧
      m.value = 0 ∧ (∃ g', f.evaluate m.point = .ok (0, g')) ∧ (f.Sole s → m.point = s)) ∧
    (∀ (slots : ParticleSlots) (scales : Scales α) (field : Gravity α),
      terms = slots.terms scales field → slots.orientation = none →
      (∀ i < f.dimension, i ∈ Placed.indices slots) → initial.component slots.mass.index ≠ 0 →
        f.Sole s) := by
  have hbottom := (built_of_make hmake).bottom
  obtain ⟨hdim, hfit, -, hgradient⟩ := evaluate_eq_ok.1 hs
  have hwithin := objective_within (hdim ▸ hfit)
  have hstart : checkStart f.objective.dimension s settings = .ok () :=
    checkStart_eq_ok.2 ⟨hn, hdim.symm, hset⟩
  have hvalue : f.objective.value s = .ok 0 := map_eq_ok.2 ⟨_, hs, rfl⟩
  have hsize : g.size = f.dimension := by
    rw [← hgradient, Components.size_bumpAll, Components.size_zeros]
    exact hdim.symm
  refine ⟨?_, ?_, ?_⟩
  · obtain ⟨m, hm, hiterations, hat⟩ :=
      SmoothObjective.minimizeByGradients_stays hwithin f.objective_coherent hbottom hstart hs hsize
    obtain ⟨hzero, g', hsolved⟩ := evaluate_of_at hat hbottom
    exact ⟨m, hm, hiterations, hzero, ⟨g', hsolved⟩, fun hsole => hsole _ _ hsolved⟩
  · intro m hm
    obtain ⟨hiterations, hat⟩ :=
      (Objective.minimizeByDirections_stays hwithin.toWithin hbottom hstart hvalue).of_ok hm
    obtain ⟨hzero, g', hsolved⟩ := evaluate_of_at hat hbottom
    exact ⟨hiterations, hzero, ⟨g', hsolved⟩, fun hsole => hsole _ _ hsolved⟩
  · rintro slots scales field rfl hquat hall hm
    exact sole_of_particle hmake hquat hall hm hs

/-- A particle that is thrown, and falls for one unit of time. -/
def thrown : StepEnergy ℚ :=
  ⟨#[2, 0, 0, 10, 1, 0, 0, 0, 0, -10, 0, 0, -20], 1,
    (ParticleSlots.alone ParticleSlots.plain).terms Scales.unit ⟨#v[0, 0, -10]⟩⟩

/-- The particle after that time. -/
def landed : Components ℚ := #[2, 1, 0, 5, 1, 0, -10, 0, 0, -10, 0, 0, -20]

/-- A mass that stays, and its weight. -/
def weighed : StepEnergy ℚ :=
  ⟨#[3, 0], 1, [⟨.mass (MassBalance.closed ⟨0⟩), Scales.unit⟩, ⟨.field ⟨⟨1⟩, ⟨0⟩, -10⟩, Scales.unit⟩]⟩

/-- The particle is solved again by conjugate gradients, the weight by direction sets. -/
theorem solved_stays_thrown :
    (∃ m, thrown.objective.minimizeByGradients landed Settings.standard = .ok m ∧ m.iterations = 1 ∧
      m.value = 0 ∧ m.point = landed) ∧
    ∃ m, weighed.objective.minimizeByDirections #[3, -30] ⟨.powell, 1, 1, 2, 5⟩ = .ok m ∧
      m.iterations = 2 ∧ m.value = 0 := by
  refine ⟨?_, ?_⟩
  · have hmake : make thrown.initial thrown.dt thrown.terms = .ok thrown :=
      make_eq_ok.2 ⟨by decide +kernel, by decide +kernel, rfl⟩
    have hsolved : thrown.evaluate landed = .ok (0, Components.zeros 13) := by decide +kernel
    obtain ⟨⟨m, hm, hiterations, hzero, -, hsole⟩, -, hparticle⟩ :=
      solved_stays hmake (by decide) hsolved (by decide +kernel : Settings.standard.check = .ok ())
    have hmass : thrown.initial.component (ParticleSlots.alone ParticleSlots.plain).mass.index ≠ 0 := by
      decide +kernel
    exact ⟨m, hm, hiterations, hzero, hsole (hparticle _ _ _ rfl rfl (by decide) hmass)⟩
  · have hmake : make weighed.initial weighed.dt weighed.terms = .ok weighed :=
      make_eq_ok.2 ⟨by decide +kernel, by decide +kernel, rfl⟩
    have hsolved : weighed.evaluate #[3, -30] = .ok (0, Components.zeros 2) := by decide +kernel
    have hrun : weighed.objective.minimizeByDirections #[3, -30] ⟨.powell, 1, 1, 2, 5⟩ =
        .ok ⟨#[3, -30], 0, 2, .valueConverged⟩ := by
      decide +kernel
    obtain ⟨-, hdirections, -⟩ := solved_stays hmake (by decide) hsolved
      (by decide +kernel : (⟨.powell, 1, 1, 2, 5⟩ : Settings ℚ).check = .ok ())
    obtain ⟨hiterations, hzero, -, -⟩ := hdirections _ hrun
    exact ⟨_, hrun, hiterations, hzero⟩

end StepEnergy
end EnergyStep
