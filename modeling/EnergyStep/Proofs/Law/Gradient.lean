import EnergyStep.Proofs.Law.Evaluation

/-!
# Gradients

Over the real numbers, what a law adds to the gradient is the derivative of its energy. It is enough
to follow a curve of states: the derivative along the curve is the sum of the amounts, each times the
velocity of the component at its position. A component that occurs at several places is met at each
of them.

* `along`: the amounts against a velocity.
* `Law.hasDerivAt_violationAt`: the violation along a curve.
* `StepEnergy.hasDerivAt_energyAt`: the total energy along a curve.
* `gradient_is_derivative`: gradients of evaluations and slopes on lines.
-/

namespace EnergyStep

/-- Amounts at positions against a velocity. -/
def along (ps : List (ℕ × ℝ)) (v : ℕ → ℝ) : ℝ := (ps.map fun p => p.2 * v p.1).sum

section Along

variable {v : ℕ → ℝ}

theorem along_nil : along [] v = 0 := rfl

theorem along_cons (p : ℕ × ℝ) (ps : List (ℕ × ℝ)) : along (p :: ps) v = p.2 * v p.1 + along ps v :=
  List.sum_cons

theorem along_append (ps qs : List (ℕ × ℝ)) : along (ps ++ qs) v = along ps v + along qs v := by
  simp only [along, List.map_append, List.sum_append]

theorem along_flatMap {β : Type} (l : List β) (f : β → List (ℕ × ℝ)) :
    along (l.flatMap f) v = (l.map fun b => along (f b) v).sum := by
  induction l with
  | nil => rfl
  | cons b l ih => rw [List.flatMap_cons, along_append, ih, List.map_cons, List.sum_cons]

theorem along_map {β : Type} (l : List β) (f : β → ℕ × ℝ) :
    along (l.map f) v = (l.map fun b => (f b).2 * v (f b).1).sum := by
  simp only [along, List.map_map, Function.comp_def]

/-- Amounts that are all multiplied. -/
theorem along_scaled (ps : List (ℕ × ℝ)) (c : ℝ) :
    along (ps.map fun p => (p.1, p.2 * c)) v = along ps v * c := by
  rw [along_map, along, ← List.sum_map_mul_right]
  simp only [mul_right_comm]

end Along

theorem hasDerivAt_list_sum {β : Type} {f : β → ℝ → ℝ} {f' : β → ℝ} {t : ℝ} (l : List β)
    (h : ∀ b, HasDerivAt (f b) (f' b) t) :
    HasDerivAt (fun u => (l.map fun b => f b u).sum) (l.map f').sum t := by
  induction l with
  | nil => exact hasDerivAt_const t 0
  | cons b l ih =>
    simp only [List.map_cons, List.sum_cons]
    exact (h b).fun_add ih

section Curve

variable {γ : ℝ → ℕ → ℝ} {γ' : ℕ → ℝ} {t : ℝ} (hγ : ∀ i, HasDerivAt (fun u => γ u i) (γ' i) t)
include hγ

theorem MassBalance.hasDerivAt_violationAt (b : MassBalance) (σ₀ : ℕ → ℝ) (dt : ℝ) :
    HasDerivAt (fun u => b.violationAt σ₀ (γ u) dt) (along (b.partials dt) γ') t := by
  have hin := hasDerivAt_list_sum b.inflows fun s => hγ s.index
  have hout := hasDerivAt_list_sum b.outflows fun s => hγ s.index
  have hrate : HasDerivAt (fun u => b.rateAt (γ u)) _ t := hin.fun_sub hout
  have hmass := (hγ b.mass.index).sub_const (σ₀ b.mass.index)
  refine (hmass.fun_sub ((hrate.const_add (b.rateAt σ₀)).const_mul (dt / 2))).congr_deriv ?_
  simp only [partials, along_cons, along_append, along_map, List.sum_map_mul_left]
  ring

theorem MomentumBalance.hasDerivAt_violationAt (b : MomentumBalance) (σ₀ : ℕ → ℝ) (dt : ℝ) :
    HasDerivAt (fun u => b.violationAt σ₀ (γ u) dt) (along (b.partials (γ t) dt) γ') t := by
  have hstream : ∀ w : Transfer, HasDerivAt (fun u => γ u w.rate.index * γ u w.velocity.index) _ t :=
    fun w => (hγ w.rate.index).fun_mul (hγ w.velocity.index)
  have hforce := hasDerivAt_list_sum b.forces fun s => hγ s.index
  have hin := hasDerivAt_list_sum b.inflows hstream
  have hout := hasDerivAt_list_sum b.outflows hstream
  have hrate : HasDerivAt (fun u => b.rateAt (γ u)) _ t := (hforce.fun_add hin).fun_sub hout
  have hmomentum := ((hγ b.mass.index).fun_mul (hγ b.velocity.index)).sub_const
    (σ₀ b.mass.index * σ₀ b.velocity.index)
  refine (hmomentum.fun_sub ((hrate.const_add (b.rateAt σ₀)).const_mul (dt / 2))).congr_deriv ?_
  have hamounts : ∀ (c : ℝ) (w : Transfer),
      along [(w.rate.index, c * γ t w.velocity.index), (w.velocity.index, c * γ t w.rate.index)] γ' =
        c * (γ' w.rate.index * γ t w.velocity.index + γ t w.rate.index * γ' w.velocity.index) := by
    intro c w
    simp only [along_cons, along_nil]
    ring
  simp only [partials, along_append, along_map, along_flatMap, hamounts, List.sum_map_mul_left]
  simp only [along_cons, along_nil]
  ring

theorem NewtonBalance.hasDerivAt_violationAt (b : NewtonBalance) :
    HasDerivAt (fun u => b.violationAt (γ u)) (along (b.partials (γ t)) γ') t := by
  have hstream : ∀ w : Transfer, HasDerivAt (fun u => γ u w.rate.index *
      (γ u w.velocity.index - γ u b.velocity.index)) _ t := fun w =>
    (hγ w.rate.index).fun_mul ((hγ w.velocity.index).fun_sub (hγ b.velocity.index))
  have hforce := hasDerivAt_list_sum b.forces fun s => hγ s.index
  have hin := hasDerivAt_list_sum b.inflows hstream
  have hout := hasDerivAt_list_sum b.outflows hstream
  have hpush := (hγ b.mass.index).fun_mul (hγ b.acceleration.index)
  refine (((hpush.fun_sub hforce).fun_sub hin).fun_add hout).congr_deriv ?_
  -- the velocity of the body occurs once for each stream
  have hgained : ∀ w : Transfer, along [(w.rate.index, -(γ t w.velocity.index - γ t b.velocity.index)),
      (w.velocity.index, -γ t w.rate.index), (b.velocity.index, γ t w.rate.index)] γ' =
        -1 * (γ' w.rate.index * (γ t w.velocity.index - γ t b.velocity.index) +
          γ t w.rate.index * (γ' w.velocity.index - γ' b.velocity.index)) := by
    intro w
    simp only [along_cons, along_nil]
    ring
  have hlost : ∀ w : Transfer, along [(w.rate.index, γ t w.velocity.index - γ t b.velocity.index),
      (w.velocity.index, γ t w.rate.index), (b.velocity.index, -γ t w.rate.index)] γ' =
        γ' w.rate.index * (γ t w.velocity.index - γ t b.velocity.index) +
          γ t w.rate.index * (γ' w.velocity.index - γ' b.velocity.index) := by
    intro w
    simp only [along_cons, along_nil]
    ring
  simp only [partials, along_append, along_map, along_flatMap, hgained, hlost, List.sum_map_mul_left]
  simp only [along_cons, along_nil]
  ring

theorem RateBalance.hasDerivAt_violationAt (b : RateBalance) (σ₀ : ℕ → ℝ) (dt : ℝ) :
    HasDerivAt (fun u => b.violationAt σ₀ (γ u) dt) (along (b.partials dt) γ') t := by
  have hchange := (hγ b.quantity.index).sub_const (σ₀ b.quantity.index)
  have hrate := ((hγ b.rate.index).const_add (σ₀ b.rate.index)).const_mul (dt / 2)
  refine (hchange.fun_sub hrate).congr_deriv ?_
  simp only [partials, along_cons, along_nil]
  ring

theorem VersorConstraint.hasDerivAt_violationAt (c : VersorConstraint) :
    HasDerivAt (fun u => c.violationAt (γ u)) (along (c.partials (γ t)) γ') t := by
  have hw := (hγ c.quat.w).fun_pow 2
  have hi := (hγ c.quat.i).fun_pow 2
  have hj := (hγ c.quat.j).fun_pow 2
  have hk := (hγ c.quat.k).fun_pow 2
  refine ((((hw.fun_add hi).fun_add hj).fun_add hk).sub_const 1).congr_deriv ?_
  simp only [partials, Placed.indices, List.map_cons, List.map_nil, along_cons, along_nil]
  ring

theorem FieldForce.hasDerivAt_violationAt (c : FieldForce ℝ) :
    HasDerivAt (fun u => c.violationAt (γ u)) (along c.partials γ') t := by
  refine ((hγ c.force.index).fun_sub ((hγ c.mass.index).mul_const c.acceleration)).congr_deriv ?_
  simp only [partials, along_cons, along_nil]
  ring

/-- **The violation along a curve** changes by its derivatives against the velocity. -/
theorem Law.hasDerivAt_violationAt (law : Law ℝ) (σ₀ : ℕ → ℝ) (dt : ℝ) :
    HasDerivAt (fun u => law.violationAt σ₀ (γ u) dt) (along (law.partials (γ t) dt) γ') t := by
  cases law with
  | mass b => exact b.hasDerivAt_violationAt hγ σ₀ dt
  | momentum b => exact b.hasDerivAt_violationAt hγ σ₀ dt
  | newton b => exact b.hasDerivAt_violationAt hγ
  | position b => exact b.hasDerivAt_violationAt hγ σ₀ dt
  | velocity b => exact b.hasDerivAt_violationAt hγ σ₀ dt
  | versor c => exact c.hasDerivAt_violationAt hγ
  | field c => exact c.hasDerivAt_violationAt hγ

theorem Term.hasDerivAt_energyAt (x : Term ℝ) (σ₀ : ℕ → ℝ) (dt : ℝ) :
    HasDerivAt (fun u => x.energyAt σ₀ (γ u) dt) (along (x.slopes σ₀ (γ t) dt) γ') t := by
  have hδ := x.law.hasDerivAt_violationAt hγ σ₀ dt
  refine ((hδ.fun_pow 2).const_mul (x.law.weight x.scales)).congr_deriv ?_
  rw [slopes, along_scaled]
  ring

/-- **The total energy along a curve** changes by the slopes against the velocity. -/
theorem StepEnergy.hasDerivAt_energyAt (f : StepEnergy ℝ) :
    HasDerivAt (fun u => f.energyAt (γ u)) (along (f.slopes (γ t)) γ') t := by
  have h := hasDerivAt_list_sum f.terms fun x => x.hasDerivAt_energyAt hγ f.initial.component f.dt
  refine h.congr_deriv ?_
  rw [slopes, along_flatMap]

end Curve

/-- Along one axis the amounts at its position are met. -/
theorem along_axis (ps : List (ℕ × ℝ)) (i : ℕ) :
    along ps (fun j => if j = i then 1 else 0) = total ps i := by
  simp only [along, total, mul_ite, mul_one, mul_zero]

theorem along_eq_sum {v : ℕ → ℝ} {n : ℕ} : ∀ ps : List (ℕ × ℝ), (∀ p ∈ ps, p.1 < n) →
    along ps v = ∑ i ∈ Finset.range n, total ps i * v i := by
  intro ps
  induction ps with
  | nil => intro _; simp [along_nil]
  | cons p ps ih =>
    intro h
    obtain ⟨hp, hps⟩ := List.forall_mem_cons.1 h
    have hone : ∑ i ∈ Finset.range n, (if p.1 = i then p.2 else 0) * v i = p.2 * v p.1 := by
      simp only [ite_mul, zero_mul]
      rw [Finset.sum_ite_eq, if_pos (Finset.mem_range.2 hp)]
    simp only [along_cons, total_cons, add_mul, Finset.sum_add_distrib, hone, ih hps]

namespace StepEnergy

variable {f : StepEnergy ℝ} {x g : Components ℝ} {e : ℝ}

/-- One evaluation succeeds if another one of the same size does. -/
theorem evaluate_congr_size (h : f.evaluate x = .ok (e, g)) {y : Components ℝ} (hy : y.size = x.size) :
    (f.evaluate y).map Prod.fst = .ok (f.energyAt y.component) := by
  obtain ⟨hdim, hfit, -, -⟩ := evaluate_eq_ok.1 h
  refine map_eq_ok.2 ⟨_, evaluate_eq_ok.2 ⟨hdim.trans hy.symm, ?_, rfl, rfl⟩, rfl⟩
  rw [hy]
  exact hfit

theorem index_slopes_lt (h : f.evaluate x = .ok (e, g)) : ∀ p ∈ f.slopes x.component, p.1 < x.size := by
  obtain ⟨-, hfit, -, -⟩ := evaluate_eq_ok.1 h
  intro p hp
  obtain ⟨t, ht, hp⟩ := List.mem_flatMap.1 hp
  exact (hfit t ht).of_mem_slopes hp

end StepEnergy

/-- **Gradients are derivatives.** Where an evaluation succeeds, the energy as a function of one
component is defined everywhere, and that component of the gradient is its derivative. On a line
through the states the slope is the derivative of the energy. -/
theorem gradient_is_derivative (f : StepEnergy ℝ) :
    (∀ x e g, f.evaluate x = .ok (e, g) → g.size = x.size ∧ ∀ (i : ℕ) (hi : i < x.size),
      ∃ E : ℝ → ℝ, (∀ u, (f.evaluate (x.set i u)).map Prod.fst = .ok (E u)) ∧ E x[i] = e ∧
        HasDerivAt E (g.component i) x[i]) ∧
    (∀ (r : Ray ℝ) w v s, r.check f.dimension = .ok () →
      f.objective.alongWithSlope r w = .ok (v, s) →
      ∃ E : ℝ → ℝ, (∀ u, f.objective.along r u = .ok (E u)) ∧ E w = v ∧ HasDerivAt E s w) := by
  refine ⟨?_, ?_⟩
  · intro x e g h
    refine ⟨StepEnergy.size_gradient h, fun i hi => ?_⟩
    have hvalue : ∀ u, (f.evaluate (x.set i u)).map Prod.fst =
        .ok (f.energyAt (Components.component (x.set i u))) :=
      fun u => StepEnergy.evaluate_congr_size h (Array.size_set ..)
    have hcurve : ∀ j, HasDerivAt (fun u => Components.component (x.set i u) j)
        (if j = i then 1 else 0) x[i] := by
      intro j
      simp only [Components.component_set hi]
      split_ifs
      · exact hasDerivAt_id _
      · exact hasDerivAt_const _ _
    -- at its own value the component is back in place
    have hback : x.set i x[i] = x := Array.set_getElem_self hi
    refine ⟨_, hvalue, ?_, ?_⟩
    · have he := hvalue x[i]
      rw [hback, h] at he
      rw [hback]
      exact (Except.ok.inj he).symm
    · have hderiv := f.hasDerivAt_energyAt hcurve
      rw [hback, along_axis, ← StepEnergy.component_gradient h hi] at hderiv
      exact hderiv
  · intro r w v s hr h
    have hsized := Ray.check_eq_ok.1 hr
    obtain ⟨⟨e, g⟩, heval, hv⟩ := bind_eq_ok.1 h
    obtain ⟨rfl, rfl⟩ := Prod.mk.inj (Except.ok.inj hv)
    have hsize : ∀ u, (r.point u).size = (r.point w).size := fun u => by
      rw [hsized.size_point, hsized.size_point]
    have hvalue : ∀ u, f.objective.along r u = .ok (f.energyAt (r.point u).component) :=
      fun u => StepEnergy.evaluate_congr_size heval (hsize u)
    have hcurve : ∀ j, HasDerivAt (fun u => (r.point u).component j) (r.direction.component j) w := by
      intro j
      simp only [hsized.component_point]
      exact ((hasDerivAt_id w).mul_const _).add_const _ |>.congr_deriv (one_mul _)
    refine ⟨_, hvalue, ?_, ?_⟩
    · obtain ⟨-, -, he, -⟩ := StepEnergy.evaluate_eq_ok.1 heval
      exact he
    · -- the inner product meets each amount at its position
      have hdot : g.dot r.direction = along (f.slopes (r.point w).component) r.direction.component := by
        have hg : g.size = (r.point w).size := StepEnergy.size_gradient heval
        rw [Components.dot_eq_sum (by rw [hg, hsized.size_point, hsized.2]), hg,
          along_eq_sum _ (StepEnergy.index_slopes_lt heval)]
        refine Finset.sum_congr rfl fun i hi => ?_
        rw [StepEnergy.component_gradient heval (Finset.mem_range.1 hi)]
      rw [hdot]
      exact f.hasDerivAt_energyAt hcurve

/-- One component is mass and force, the other velocity and acceleration. -/
noncomputable def doubled : StepEnergy ℝ :=
  ⟨#[0, 0], 1, [⟨.newton ⟨⟨0⟩, ⟨1⟩, ⟨1⟩, [⟨0⟩], [], []⟩, Scales.unit⟩]⟩

/-- The derivative by the first component, and along the line on which both grow. -/
theorem gradient_is_derivative_doubled : ∃ e g, doubled.evaluate #[2, 3] = .ok (e, g) ∧
    (∃ E : ℝ → ℝ, (∀ u, (doubled.evaluate #[u, 3]).map Prod.fst = .ok (E u)) ∧ E 2 = e ∧
      HasDerivAt E (g.component 0) 2) ∧
    (∃ E : ℝ → ℝ, (∀ u, doubled.objective.along ⟨#[2, 3], #[1, 1]⟩ u = .ok (E u)) ∧ E 0 = e ∧
      HasDerivAt E (g.dot #[1, 1]) 0) := by
  have hfit : ∀ t ∈ doubled.terms, t.FitsIn doubled.dimension := by
    intro t ht
    obtain rfl := List.mem_singleton.1 ht
    intro i hi
    have h2 : doubled.dimension = 2 := rfl
    simp [Law.indices, NewtonBalance.slots] at hi
    omega
  have heval := StepEnergy.evaluate_of_fits (x := #[2, 3]) rfl hfit
  have hpoint : Ray.point (⟨#[2, 3], #[1, 1]⟩ : Ray ℝ) 0 = #[2, 3] :=
    Ray.Sized.point_zero (n := 2) ⟨rfl, rfl⟩
  have hslope : doubled.objective.alongWithSlope ⟨#[2, 3], #[1, 1]⟩ 0 = .ok _ :=
    bind_eq_ok.2 ⟨_, by rw [hpoint]; exact heval, rfl⟩
  obtain ⟨hpartial, hline⟩ := gradient_is_derivative doubled
  exact ⟨_, _, heval, (hpartial _ _ _ heval).2 0 (by decide),
    hline _ _ _ _ (Ray.check_eq_ok.2 ⟨rfl, rfl⟩) hslope⟩

end EnergyStep
