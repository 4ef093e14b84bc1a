import EnergyStep.Proofs.Law.Zero
import EnergyStep.Proofs.Minimize.Difference

/-!
# Central differences of the energy

Along one component a violation is linear if the positions of its law are distinct, but for the norm of a
quaternion, which has a square. So the energy is quadratic there, and its central difference is its
derivative; of the energy of a quaternion it is not, since a fourth power leaves something over.

* `Expands`: how a function of the components changes along one of them, with sums and products.
* `Law.expands`: the violation of each law.
* `StepEnergy.quotientAt_energyAt`: the difference quotient of the energy.
* `differences_agree`: gradients.
-/

namespace EnergyStep

variable {α : Type} [Exact α]

section Axis

variable {i j k : ℕ}

/-- No component is two. -/
theorem axis_mul_axis (h : j ≠ k) : (axis i j * axis i k : α) = 0 := by
  unfold axis
  by_cases hj : j = i
  · have hk : k ≠ i := fun hk => h (hj.trans hk.symm)
    rw [if_neg hk, mul_zero]
  · rw [if_neg hj, zero_mul]

theorem axis_sq (i j : ℕ) : (axis i j ^ 2 : α) = axis i j := by
  unfold axis
  by_cases hj : j = i
  · rw [if_pos hj, one_pow]
  · rw [if_neg hj, zero_pow two_ne_zero]

/-- A component is met once among distinct ones, or not at all. -/
theorem sum_axis : ∀ {l : List ℕ}, l.Nodup → (l.map (axis i)).sum = (if i ∈ l then 1 else 0 : α) := by
  intro l
  induction l with
  | nil => intro _; rfl
  | cons j l ih =>
    intro hl
    obtain ⟨hj, hl⟩ := List.nodup_cons.1 hl
    rw [List.map_cons, List.sum_cons, ih hl, axis]
    by_cases hij : j = i
    · subst hij
      rw [if_pos rfl, if_neg hj, if_pos List.mem_cons_self, add_zero]
    · rw [if_neg hij, zero_add]
      simp [Ne.symm hij]

/-- Amounts at positions, with the first one set apart. -/
theorem total_entry (p : ℕ × α) (ps : List (ℕ × α)) :
    total (p :: ps) i = p.2 * axis i p.1 + total ps i := by
  rw [total_cons, axis, mul_ite, mul_one, mul_zero]

theorem total_map {β : Type} (l : List β) (f : β → ℕ × α) :
    total (l.map f) i = (l.map fun b => (f b).2 * axis i (f b).1).sum := by
  induction l with
  | nil => rfl
  | cons b l ih => rw [List.map_cons, total_entry, ih, List.map_cons, List.sum_cons]

/-- Amounts that are all multiplied. -/
theorem total_scaled (ps : List (ℕ × α)) (c : α) :
    total (ps.map fun p => (p.1, p.2 * c)) i = total ps i * c := by
  induction ps with
  | nil => rw [List.map_nil, total_nil, zero_mul]
  | cons p ps ih => rw [List.map_cons, total_entry, total_entry, ih]; ring

end Axis

/-- **A quadratic along component `i`**: how a function of the components changes with that one. -/
def Expands (g : (ℕ → α) → α) (σ : ℕ → α) (i : ℕ) (slope curve : α) : Prop :=
  ∀ h, g (fun j => σ j + h * axis i j) = g σ + slope * h + curve * h ^ 2

namespace Expands

variable {g g' : (ℕ → α) → α} {σ : ℕ → α} {i : ℕ} {a a' c c' : α}

theorem congr (hg : Expands g σ i a c) (ha : a = a') (hc : c = c') : Expands g σ i a' c' := by
  rw [← ha, ← hc]
  exact hg

theorem const (u : α) : Expands (fun _ => u) σ i 0 0 := by
  intro h
  ring

theorem coord (j : ℕ) : Expands (fun σ => σ j) σ i (axis i j) 0 := by
  intro h
  ring

theorem add (hg : Expands g σ i a c) (hg' : Expands g' σ i a' c') :
    Expands (fun σ => g σ + g' σ) σ i (a + a') (c + c') := by
  intro h
  dsimp only
  rw [hg h, hg' h]
  ring

theorem sub (hg : Expands g σ i a c) (hg' : Expands g' σ i a' c') :
    Expands (fun σ => g σ - g' σ) σ i (a - a') (c - c') := by
  intro h
  dsimp only
  rw [hg h, hg' h]
  ring

theorem const_mul (u : α) (hg : Expands g σ i a c) : Expands (fun σ => u * g σ) σ i (u * a) (u * c) := by
  intro h
  dsimp only
  rw [hg h]
  ring

theorem mul_const (hg : Expands g σ i a c) (u : α) : Expands (fun σ => g σ * u) σ i (a * u) (c * u) := by
  intro h
  dsimp only
  rw [hg h]
  ring

/-- The square of a linear function. -/
theorem sq (hg : Expands g σ i a 0) : Expands (fun σ => g σ ^ 2) σ i (2 * g σ * a) (a ^ 2) := by
  intro h
  dsimp only
  rw [hg h]
  ring

/-- A product of linear functions. -/
theorem mul (hg : Expands g σ i a 0) (hg' : Expands g' σ i a' 0) :
    Expands (fun σ => g σ * g' σ) σ i (a * g' σ + g σ * a') (a * a') := by
  intro h
  dsimp only
  rw [hg h, hg' h]
  ring

theorem sum {β : Type} {g : β → (ℕ → α) → α} {a c : β → α} (l : List β)
    (hg : ∀ b ∈ l, Expands (g b) σ i (a b) (c b)) :
    Expands (fun σ => (l.map fun b => g b σ).sum) σ i (l.map a).sum (l.map c).sum := by
  induction l with
  | nil => exact const 0
  | cons b l ih =>
    obtain ⟨hb, hl⟩ := List.forall_mem_cons.1 hg
    simp only [List.map_cons, List.sum_cons]
    exact hb.add (ih hl)

/-- A sum of linear functions. -/
theorem sum_linear {β : Type} {g : β → (ℕ → α) → α} {a : β → α} (l : List β)
    (hg : ∀ b ∈ l, Expands (g b) σ i (a b) 0) :
    Expands (fun σ => (l.map fun b => g b σ).sum) σ i (l.map a).sum 0 := by
  refine (sum l hg).congr rfl (List.sum_eq_zero fun u hu => ?_)
  obtain ⟨_, -, rfl⟩ := List.mem_map.1 hu
  rfl

/-- The central difference of a square. -/
theorem sq_sub_sq (hg : Expands g σ i a c) (h : α) :
    g (fun j => σ j + h * axis i j) ^ 2 - g (fun j => σ j + -h * axis i j) ^ 2 =
      (2 * g σ * a + 2 * a * c * h ^ 2) * (2 * h) := by
  rw [hg h, hg (-h)]
  ring

end Expands

section Laws

variable {σ₀ σ : ℕ → α} {dt : α} {i : ℕ}

theorem MassBalance.expands (b : MassBalance) :
    Expands (fun σ => b.violationAt σ₀ σ dt) σ i (total (b.partials dt) i) 0 := by
  have hin := Expands.sum_linear (σ := σ) (i := i) b.inflows fun s _ => .coord s.index
  have hout := Expands.sum_linear (σ := σ) (i := i) b.outflows fun s _ => .coord s.index
  have hrate : Expands b.rateAt σ i _ _ := hin.sub hout
  have hchange : Expands (fun σ => σ b.mass.index - σ₀ b.mass.index) σ i _ _ :=
    (Expands.coord b.mass.index).sub (.const _)
  refine (hchange.sub (((Expands.const (b.rateAt σ₀)).add hrate).const_mul (dt / 2))).congr ?_ (by ring)
  simp only [partials, total_entry, total_append, total_map, List.sum_map_mul_left]
  ring

/-- Streams with positions of their own have two each. -/
theorem Transfer.rate_ne_velocity {l : List Transfer}
    (hn : ((l.flatMap Transfer.slots).map Slot.index).Nodup) {t : Transfer} (ht : t ∈ l) :
    t.rate.index ≠ t.velocity.index := by
  rw [List.map_flatMap] at hn
  have hpair : [t.rate.index, t.velocity.index].Nodup := (List.nodup_flatMap.1 hn).1 t ht
  simpa using hpair

theorem MomentumBalance.expands (b : MomentumBalance) (hn : (b.slots.map Slot.index).Nodup) :
    Expands (fun σ => b.violationAt σ₀ σ dt) σ i (total (b.partials σ dt) i) 0 := by
  simp only [slots, List.map_append, List.nodup_append] at hn
  obtain ⟨⟨⟨hpair, -, -⟩, hin, -⟩, hout, -⟩ := hn
  have hbody : b.mass.index ≠ b.velocity.index := by simpa using hpair
  have hstream : ∀ l : List Transfer, ((l.flatMap Transfer.slots).map Slot.index).Nodup →
      Expands (fun σ => (l.map fun t => σ t.rate.index * σ t.velocity.index).sum) σ i
        (l.map fun t => axis i t.rate.index * σ t.velocity.index +
          σ t.rate.index * axis i t.velocity.index).sum 0 := fun l hl =>
    Expands.sum_linear l fun t ht => ((Expands.coord t.rate.index).mul (.coord t.velocity.index)).congr
      rfl (axis_mul_axis (Transfer.rate_ne_velocity hl ht))
  have hforce := Expands.sum_linear (σ := σ) (i := i) b.forces fun s _ => .coord s.index
  have hrate : Expands b.rateAt σ i _ _ := (hforce.add (hstream _ hin)).sub (hstream _ hout)
  have hmomentum : Expands (fun σ => σ b.mass.index * σ b.velocity.index -
      σ₀ b.mass.index * σ₀ b.velocity.index) σ i _ _ :=
    ((Expands.coord b.mass.index).mul (.coord b.velocity.index)).sub (.const _)
  refine (hmomentum.sub (((Expands.const (b.rateAt σ₀)).add hrate).const_mul (dt / 2))).congr ?_ ?_
  · have hamounts : ∀ (c : α) (t : Transfer),
        total [(t.rate.index, c * σ t.velocity.index), (t.velocity.index, c * σ t.rate.index)] i =
          c * (axis i t.rate.index * σ t.velocity.index + σ t.rate.index * axis i t.velocity.index) := by
      intro c t
      simp only [total_entry, total_nil]
      ring
    simp only [partials, total_append, total_map, total_flatMap, hamounts, List.sum_map_mul_left]
    simp only [total_entry, total_nil]
    ring
  · rw [axis_mul_axis hbody]
    ring

theorem NewtonBalance.expands (b : NewtonBalance) (hn : (b.slots.map Slot.index).Nodup) :
    Expands b.violationAt σ i (total (b.partials σ) i) 0 := by
  simp only [slots, List.map_append, List.nodup_append] at hn
  obtain ⟨⟨⟨hbody, -, -⟩, hin, hjoin⟩, hout, hleave⟩ := hn
  have hpush : b.mass.index ≠ b.acceleration.index := by
    intro h
    simp [h] at hbody
  -- a stream has the velocity of the body at no position of its own
  have hstream : ∀ l : List Transfer, ((l.flatMap Transfer.slots).map Slot.index).Nodup →
      (∀ t ∈ l, b.velocity.index ≠ t.rate.index) →
      Expands (fun σ => (l.map fun t => σ t.rate.index * (σ t.velocity.index - σ b.velocity.index)).sum)
        σ i (l.map fun t => axis i t.rate.index * (σ t.velocity.index - σ b.velocity.index) +
          σ t.rate.index * (axis i t.velocity.index - axis i b.velocity.index)).sum 0 := by
    intro l hl hfar
    refine Expands.sum_linear l fun t ht => ?_
    have hrelative : Expands (fun σ => σ t.velocity.index - σ b.velocity.index) σ i _ 0 :=
      ((Expands.coord t.velocity.index).sub (.coord b.velocity.index)).congr rfl (sub_zero 0)
    refine ((Expands.coord t.rate.index).mul hrelative).congr rfl ?_
    rw [mul_sub, axis_mul_axis (Transfer.rate_ne_velocity hl ht), axis_mul_axis (hfar t ht).symm,
      sub_zero]
  have hgained := hstream _ hin fun t ht =>
    hjoin _ (by simp) _ (List.mem_map_of_mem (Transfer.rate_mem_slots ht))
  have hlost := hstream _ hout fun t ht =>
    hleave _ (by simp) _ (List.mem_map_of_mem (Transfer.rate_mem_slots ht))
  have hforce := Expands.sum_linear (σ := σ) (i := i) b.forces fun s _ => .coord s.index
  have hmotion := (Expands.coord (σ := σ) (i := i) b.mass.index).mul (.coord b.acceleration.index)
  refine (((hmotion.sub hforce).sub hgained).add hlost).congr ?_ ?_
  · -- the velocity of the body occurs once for each stream
    have hin : ∀ t : Transfer, total [(t.rate.index, -(σ t.velocity.index - σ b.velocity.index)),
        (t.velocity.index, -σ t.rate.index), (b.velocity.index, σ t.rate.index)] i =
          -1 * (axis i t.rate.index * (σ t.velocity.index - σ b.velocity.index) +
            σ t.rate.index * (axis i t.velocity.index - axis i b.velocity.index)) := by
      intro t
      simp only [total_entry, total_nil]
      ring
    have hout : ∀ t : Transfer, total [(t.rate.index, σ t.velocity.index - σ b.velocity.index),
        (t.velocity.index, σ t.rate.index), (b.velocity.index, -σ t.rate.index)] i =
          axis i t.rate.index * (σ t.velocity.index - σ b.velocity.index) +
            σ t.rate.index * (axis i t.velocity.index - axis i b.velocity.index) := by
      intro t
      simp only [total_entry, total_nil]
      ring
    simp only [partials, total_append, total_map, total_flatMap, hin, hout, List.sum_map_mul_left]
    simp only [total_entry, total_nil]
    ring
  · rw [axis_mul_axis hpush]
    ring

theorem RateBalance.expands (b : RateBalance) :
    Expands (fun σ => b.violationAt σ₀ σ dt) σ i (total (b.partials dt) i) 0 := by
  have hchange : Expands (fun σ => σ b.quantity.index - σ₀ b.quantity.index) σ i _ _ :=
    (Expands.coord b.quantity.index).sub (.const _)
  have hrate : Expands (fun σ => dt / 2 * (σ₀ b.rate.index + σ b.rate.index)) σ i _ _ :=
    ((Expands.const (σ₀ b.rate.index)).add (.coord b.rate.index)).const_mul (dt / 2)
  refine (hchange.sub hrate).congr ?_ (by ring)
  simp only [partials, total_entry, total_nil]
  ring

theorem FieldForce.expands (c : FieldForce α) : Expands c.violationAt σ i (total c.partials i) 0 := by
  have hweight := (Expands.coord (σ := σ) (i := i) c.mass.index).mul_const c.acceleration
  refine ((Expands.coord c.force.index).sub hweight).congr ?_ (by ring)
  simp only [partials, total_entry, total_nil]
  ring

/-- The square of the norm has a square of each component. -/
theorem VersorConstraint.expands (c : VersorConstraint) (hn : (Placed.indices c.quat).Nodup) :
    Expands c.violationAt σ i (total (c.partials σ) i) (if i ∈ Placed.indices c.quat then 1 else 0) := by
  have hsq : ∀ j, Expands (fun σ => σ j ^ 2) σ i (2 * σ j * axis i j) (axis i j) := fun j =>
    (Expands.coord j).sq.congr rfl (axis_sq i j)
  refine (((((hsq c.quat.w).add (hsq c.quat.i)).add (hsq c.quat.j)).add (hsq c.quat.k)).sub
    (.const 1)).congr ?_ ?_
  · simp only [partials, Placed.indices, List.map_cons, List.map_nil, total_entry, total_nil]
    ring
  · rw [← sum_axis hn]
    simp only [Placed.indices, List.map_cons, List.map_nil, List.sum_cons, List.sum_nil]
    ring

namespace Law

/-- The law keeps the norm of a quaternion that has a component at position `i`. -/
def norms (i : ℕ) : Law α → Bool
  | versor c => decide (i ∈ Placed.indices c.quat)
  | _ => false

/-- **The violation of a law with distinct positions** is linear along each of them, but for a norm. -/
theorem expands {law : Law α} (hn : law.indices.Nodup) :
    Expands (fun σ => law.violationAt σ₀ σ dt) σ i (total (law.partials σ dt) i)
      (if law.norms i then 1 else 0) := by
  cases law with
  | mass b => exact b.expands
  | momentum b => exact b.expands hn
  | newton b => exact b.expands hn
  | position b => exact b.expands
  | velocity b => exact b.expands
  | versor c =>
    refine (c.expands hn).congr rfl ?_
    simp only [norms, decide_eq_true_eq]
  | field c => exact c.expands

/-- The weight of a norm, and its derivative. -/
theorem weight_of_norms {law : Law α} (hn : law.indices.Nodup) (h : law.norms i = true)
    (scales : Scales α) :
    law.weight scales = scales.rotationalEnergy ∧ total (law.partials σ dt) i = 2 * σ i := by
  cases law with
  | versor c =>
    have hi : i ∈ Placed.indices c.quat := of_decide_eq_true h
    refine ⟨rfl, total_of_mem ?_ (List.mem_map_of_mem (f := fun i => (i, 2 * σ i)) hi)⟩
    show ((c.partials σ).map Prod.fst).Nodup
    rw [VersorConstraint.partials, List.map_map]
    exact (List.map_id _).symm ▸ hn
  | _ => cases h

end Law

/-- **The central difference of the energy of a term** is its slope, and the rest of a norm. -/
theorem Term.energyAt_sub {t : Term α} (hn : t.law.indices.Nodup) (h : α) :
    t.energyAt σ₀ (fun j => σ j + h * axis i j) dt - t.energyAt σ₀ (fun j => σ j + -h * axis i j) dt =
      (total (t.slopes σ₀ σ dt) i +
        if t.law.norms i then 4 * t.scales.rotationalEnergy * σ i * h ^ 2 else 0) * (2 * h) := by
  unfold energyAt slopes
  rw [← mul_sub, (Law.expands hn).sq_sub_sq h, total_scaled]
  by_cases hnorm : t.law.norms i = true
  · obtain ⟨hweight, htotal⟩ : _ ∧ total (t.law.partials σ dt) i = 2 * σ i :=
      Law.weight_of_norms hn hnorm t.scales
    rw [if_pos hnorm, if_pos hnorm, htotal, hweight]
    ring
  · rw [if_neg hnorm, if_neg hnorm]
    ring

namespace StepEnergy

/-- What the fourth powers of norms leave over in the difference quotient of width `h` at position `i`. -/
def remainder (f : StepEnergy α) (σ : ℕ → α) (i : ℕ) (h : α) : α :=
  ((f.terms.filter fun t => t.law.norms i).map fun t =>
    4 * t.scales.rotationalEnergy * σ i * h ^ 2).sum

theorem remainder_eq_zero {f : StepEnergy α} (hf : ∀ t ∈ f.terms, ∀ c, t.law ≠ .versor c) (h : α) :
    f.remainder σ i h = 0 := by
  have hnone : f.terms.filter (fun t => t.law.norms i) = [] := by
    rw [List.filter_eq_nil_iff]
    intro t ht hnorm
    cases hlaw : t.law with
    | versor c => exact hf t ht c hlaw
    | _ => rw [hlaw] at hnorm; cases hnorm
  unfold remainder
  rw [hnone]
  rfl

/-- **The central difference of the energy** is its slope and the remainder. -/
theorem energyAt_sub {f : StepEnergy α} (hn : ∀ t ∈ f.terms, t.law.indices.Nodup) (h : α) :
    f.energyAt (fun j => σ j + h * axis i j) - f.energyAt (fun j => σ j + -h * axis i j) =
      (total (f.slopes σ) i + f.remainder σ i h) * (2 * h) := by
  obtain ⟨x₀, dt, ts⟩ := f
  unfold energyAt slopes remainder
  dsimp only at hn ⊢
  induction ts with
  | nil => simp
  | cons t ts ih =>
    obtain ⟨ht, hts⟩ := List.forall_mem_cons.1 hn
    have hterm : t.energyAt x₀.component (fun j => σ j + h * axis i j) dt -
        t.energyAt x₀.component (fun j => σ j + -h * axis i j) dt = _ := Term.energyAt_sub ht h
    simp only [List.map_cons, List.sum_cons, List.flatMap_cons, total_append]
    rw [add_sub_add_comm, ih hts, hterm, ← add_mul]
    congr 1
    by_cases hnorm : t.law.norms i = true
    · rw [List.filter_cons, if_pos hnorm, if_pos hnorm, List.map_cons, List.sum_cons]
      ring
    · rw [List.filter_cons, if_neg hnorm, if_neg hnorm]
      ring

/-- **The difference quotient of the energy** is its slope and the remainder. -/
theorem quotientAt_energyAt {f : StepEnergy α} (hn : ∀ t ∈ f.terms, t.law.indices.Nodup)
    {x : Components α} {step : α} (hstep : 0 < step) (i : ℕ) :
    Objective.quotientAt f.energyAt x step i =
      total (f.slopes x.component) i +
        f.remainder x.component i (differenceWidth step (x.component i)) := by
  have hwidth := differenceWidth_pos hstep (x.component i)
  unfold Objective.quotientAt
  dsimp only
  rw [Scalar.two_eq, energyAt_sub hn, mul_div_cancel_right₀ _ (mul_pos two_pos hwidth).ne']

end StepEnergy

end Laws

variable {initial x : Components α} {dt step : α} {terms : List (Term α)} {f : StepEnergy α}

/-- **Central differences and gradients agree.** Let every term of an energy that could be made have
distinct positions, which some state can have. At a state of its dimension there are both gradients, for
any positive step. A component of the difference gradient is that of the gradient and, for each quaternion
that has a component there and whose norm is kept, `4 w x h²`, where `w` is the weight of that norm and `h`
the distance of the evaluations from `x`. So without such terms the two gradients are equal. A probe that
is moved in place finds the same and is back at the state. -/
theorem differences_agree (hmake : StepEnergy.make initial dt terms = .ok f)
    (haddressable : ∀ t ∈ f.terms, Placed.Addressable t)
    (hdistinct : ∀ t ∈ f.terms, t.law.indices.Nodup) (hx : x.size = f.dimension) (hstep : 0 < step) :
    ∃ d e g, f.objective.differenceGradient x step = .ok d ∧
      f.objective.valueAndGradient x = .ok (e, g) ∧ d.size = x.size ∧ g.size = x.size ∧
      (∀ i < x.size, d.component i = g.component i +
        ((f.terms.filter fun t => t.law.norms i).map fun t =>
          4 * t.scales.rotationalEnergy * x.component i * (step * max |x.component i| 1) ^ 2).sum) ∧
      ((∀ t ∈ f.terms, ∀ c, t.law ≠ .versor c) → d = g) ∧
      (f.objective.differenceInPlace x step).ran x = (.ok d, x) := by
  have hfit := (StepEnergy.built_of_make hmake).fitsIn haddressable
  have hvalue : ∀ y : Components α, y.size = x.size →
      f.objective.value y = .ok (f.energyAt y.component) := by
    intro y hy
    exact map_eq_ok.2 ⟨_, StepEnergy.evaluate_of_fits (hy.trans hx) hfit, rfl⟩
  obtain ⟨d, hd, hdsize, hquotients⟩ := Objective.differences_of_values hx hstep hvalue
  have heval := StepEnergy.evaluate_of_fits hx hfit
  have hgsize : ((Components.zeros x.size).bumpAll (f.slopes x.component)).size = x.size := by simp
  have hcomponents : ∀ i < x.size, d.component i =
      ((Components.zeros x.size).bumpAll (f.slopes x.component)).component i +
        f.remainder x.component i (step * max |x.component i| 1) := by
    intro i hi
    rw [hquotients i hi, StepEnergy.quotientAt_energyAt hdistinct hstep, differenceWidth_eq,
      Components.component_bumpAll _ (by simpa using hi), Components.component_zeros, zero_add]
  refine ⟨d, _, _, hd, heval, hdsize, hgsize, hcomponents, fun hnone => ?_,
    Objective.ran_differenceInPlace hd⟩
  refine Components.ext_component (hdsize.trans hgsize.symm) fun i hi => ?_
  rw [hcomponents i (hdsize ▸ hi), StepEnergy.remainder_eq_zero hnone, add_zero]

/-- A quaternion, the scalar part of which is also the rate of a position. -/
def spin : StepEnergy ℚ :=
  ⟨#[1, 0, 0, 0, 0], 1, [⟨.versor ⟨⟨0, 1, 2, 3⟩⟩, Scales.unit⟩, ⟨.position ⟨⟨4⟩, ⟨0⟩⟩, Scales.unit⟩]⟩

/-- The position alone. -/
def glider : StepEnergy ℚ := ⟨#[1, 0, 0, 0, 0], 1, [⟨.position ⟨⟨4⟩, ⟨0⟩⟩, Scales.unit⟩]⟩

/-- At the shared component the difference is off by the remainder of the quaternion, elsewhere by none,
and without the quaternion nowhere. -/
theorem differences_agree_spin :
    (∃ d e g, spin.objective.differenceGradient #[2, 0, 0, 0, 3] (1 / 2) = .ok d ∧
      spin.objective.valueAndGradient #[2, 0, 0, 0, 3] = .ok (e, g) ∧
      d.component 0 = g.component 0 + 8 ∧ d.component 4 = g.component 4 ∧
      (spin.objective.differenceInPlace #[2, 0, 0, 0, 3] (1 / 2)).ran #[2, 0, 0, 0, 3] =
        (.ok d, #[2, 0, 0, 0, 3])) ∧
    ∃ d e, glider.objective.differenceGradient #[2, 0, 0, 0, 3] (1 / 2) = .ok d ∧
      glider.objective.valueAndGradient #[2, 0, 0, 0, 3] = .ok (e, d) := by
  have hspin : StepEnergy.make #[1, 0, 0, 0, 0] 1 spin.terms = .ok spin :=
    StepEnergy.make_eq_ok.2 ⟨one_pos, by decide +kernel, rfl⟩
  have hglider : StepEnergy.make #[1, 0, 0, 0, 0] 1 glider.terms = .ok glider :=
    StepEnergy.make_eq_ok.2 ⟨one_pos, by decide +kernel, rfl⟩
  obtain ⟨d, e, g, hd, hg, -, -, hcomponents, -, hprobe⟩ :=
    differences_agree (x := #[2, 0, 0, 0, 3]) hspin (by decide) (by decide) rfl one_half_pos
  obtain ⟨d', e', g', hd', hg', -, -, -, hequal, -⟩ :=
    differences_agree (x := #[2, 0, 0, 0, 3]) hglider (by decide) (by decide) rfl one_half_pos
  refine ⟨⟨d, e, g, hd, hg, ?_, ?_, hprobe⟩, d', e', hd', ?_⟩
  · rw [hcomponents 0 (by decide)]
    congr 1
    decide +kernel
  · rw [hcomponents 4 (by decide)]
    exact add_zero _
  · have hnone : ∀ t ∈ glider.terms, ∀ c, t.law ≠ .versor c := by
      intro t ht c hlaw
      obtain rfl := List.mem_singleton.1 ht
      cases hlaw
    rw [hequal hnone]
    exact hg'

/-- There is neither gradient of an energy that could be made and whose term has distinct positions: one of
them is beyond all states. -/
theorem differences_fail_beyond :
    StepEnergy.make #[0, 0] (1 / 2) [Term.beyond] = .ok StepEnergy.beyond ∧
    (∀ t ∈ StepEnergy.beyond.terms, t.law.indices.Nodup) ∧
    StepEnergy.beyond.objective.differenceGradient #[0, 0] (1 / 1000) =
      .error (.index (2 ^ 64 - 1) 2) ∧
    StepEnergy.beyond.objective.valueAndGradient #[0, 0] = .error (.index (2 ^ 64 - 1) 2) :=
  ⟨StepEnergy.make_beyond, by decide, by decide +kernel, by decide +kernel⟩

end EnergyStep
