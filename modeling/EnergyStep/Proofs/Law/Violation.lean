import EnergyStep.Proofs.Law.Reading

/-!
# Violations as polynomials

A law measures its violation `δ` by a candidate state as `w · δ²`. Written as a polynomial in the
components of the two states, `δ` no longer says how the components are read, and its derivatives are
a list of amounts at positions, one entry for each place where a component occurs.

* `violationAt`, `partials`: the violation of each law, and its derivatives.
* `Law.Holds`, `Law.violationAt_eq_zero_iff`: the equation of each law, and that it holds when the law
  is not violated.
* `Contribution.Measures`: energy and additions are those of a violation with a weight.
* `contribution_of_fits`, for each law: a law that has its positions gives the contribution of its
  violation.
-/

namespace EnergyStep

variable {α : Type} [Exact α]

theorem foldl_add {β : Type} (g : β → α) (l : List β) :
    ∀ a : α, l.foldl (fun s b => s + g b) a = a + (l.map g).sum := by
  induction l with
  | nil => intro a; simp
  | cons b l ih => intro a; simp only [List.foldl_cons, List.map_cons, List.sum_cons, ih, add_assoc]

theorem foldl_sub {β : Type} (g : β → α) (l : List β) :
    ∀ a : α, l.foldl (fun s b => s - g b) a = a - (l.map g).sum := by
  induction l with
  | nil => intro a; simp
  | cons b l ih => intro a; simp only [List.foldl_cons, List.map_cons, List.sum_cons, ih, sub_sub]

theorem Slot.mapM_read_eq_ok {x : Components α} {l : List Slot} {vs : List α} :
    l.mapM (fun s => s.read x) = .ok vs ↔ Fits x.size l ∧ l.map (fun s => x.component s.index) = vs :=
  mapM_eq_ok fun _ _ => Slot.read_eq_ok

theorem Transfer.mapM_read_eq_ok {x : Components α} {l : List Transfer} {ws : List (Flow α)} :
    l.mapM (fun t => t.read x) = .ok ws ↔
      Fits x.size (l.flatMap Transfer.slots) ∧ l.map (fun t => t.flow x) = ws := by
  rw [fits_transfers]
  exact mapM_eq_ok fun _ _ => Transfer.read_eq_ok

/-- **Energy and additions of a violation** `δ` with weight `w` and the derivatives `ps`. -/
structure Contribution.Measures (w δ : α) (ps : List (ℕ × α)) (c : Contribution α) : Prop where
  energy : c.energy = w * δ ^ 2
  additions : c.additions.flatten = ps.map fun p => (p.1, p.2 * (2 * w * δ))

theorem squaredError_eq (energyScale scale δ : α) :
    squaredError energyScale scale δ =
      ⟨energyScale / scale ^ 2 * δ ^ 2, 2 * (energyScale / scale ^ 2) * δ⟩ := by
  unfold squaredError
  simp only [Scalar.two_eq]
  rw [← sq, mul_assoc, ← sq]

omit [Exact α] in
/-- One amount at every slot. -/
theorem Slot.flatten_map_addition (l : List Slot) (a : α) :
    (l.map fun s => s.addition a).flatten = l.map fun s => (s.index, a) := by
  induction l with
  | nil => rfl
  | cons s l ih => rw [List.map_cons, List.flatten_cons, ih]; rfl

omit [Exact α] in
theorem flatten_flatMap {β : Type} (l : List β) (f : β → List (Addition α)) :
    (l.flatMap f).flatten = l.flatMap fun b => (f b).flatten := by
  induction l with
  | nil => rfl
  | cons b l ih => rw [List.flatMap_cons, List.flatten_append, ih, List.flatMap_cons]

namespace MassBalance

variable (b : MassBalance)

/-- The net rate at which mass enters. -/
def rateAt (σ : ℕ → α) : α :=
  (b.inflows.map fun s => σ s.index).sum - (b.outflows.map fun s => σ s.index).sum

/-- The change of mass less the mass transferred. -/
def violationAt (σ₀ σ : ℕ → α) (dt : α) : α :=
  σ b.mass.index - σ₀ b.mass.index - dt / 2 * (b.rateAt σ₀ + b.rateAt σ)

/-- The derivatives of the violation by the components of the candidate. -/
def partials (dt : α) : List (ℕ × α) :=
  (b.mass.index, 1) :: (b.inflows.map (fun s => (s.index, -(dt / 2))) ++
    b.outflows.map (fun s => (s.index, dt / 2)))

variable {b} {x₀ x : Components α} {dt : α} {scales : Scales α}

theorem netRate_eq_ok {r : α} :
    b.netRate x = .ok r ↔ Fits x.size (b.inflows ++ b.outflows) ∧ b.rateAt x.component = r := by
  -- the program starts from the inflows and takes the outflows off one by one
  have hsum : (b.outflows.map fun s => x.component s.index).foldl (· - ·)
      ((b.inflows.map fun s => x.component s.index).foldl (· + ·) 0) = b.rateAt x.component := by
    rw [List.foldl_map, List.foldl_map, foldl_add fun s : Slot => x.component s.index,
      foldl_sub fun s : Slot => x.component s.index, zero_add]
    rfl
  unfold netRate
  simp only [bind_eq_ok, Slot.mapM_read_eq_ok, fits_append]
  constructor
  · rintro ⟨_, ⟨h1, rfl⟩, _, ⟨h2, rfl⟩, h3⟩
    exact ⟨⟨h1, h2⟩, hsum.symm.trans (Except.ok.inj h3)⟩
  · rintro ⟨⟨h1, h2⟩, rfl⟩
    exact ⟨_, ⟨h1, rfl⟩, _, ⟨h2, rfl⟩, congrArg _ hsum⟩

theorem violation_eq_ok {δ : α} :
    b.violation x₀ x dt = .ok δ ↔ (Fits x₀.size b.slots ∧ Fits x.size b.slots) ∧
      b.violationAt x₀.component x.component dt = δ := by
  unfold violation slots violationAt
  simp only [bind_eq_ok, Slot.readPair_eq_ok, netRate_eq_ok, fits_cons, Scalar.half_eq,
    one_div_mul_eq_div]
  constructor
  · rintro ⟨_, ⟨⟨h1, h2⟩, rfl⟩, _, ⟨h3, rfl⟩, _, ⟨h4, rfl⟩, h5⟩
    exact ⟨⟨⟨h1, h3⟩, h2, h4⟩, Except.ok.inj h5⟩
  · rintro ⟨⟨⟨h1, h3⟩, h2, h4⟩, rfl⟩
    exact ⟨_, ⟨⟨h1, h2⟩, rfl⟩, _, ⟨h3, rfl⟩, _, ⟨h4, rfl⟩, rfl⟩

theorem flatten_additions (s : α) :
    (b.additions dt s).flatten = (b.partials dt).map fun p => (p.1, p.2 * s) := by
  simp only [additions, List.flatten_cons, List.flatten_append, Slot.flatten_map_addition]
  simp only [partials, Slot.addition, List.map_cons, List.map_append, List.map_map,
    List.singleton_append, Function.comp_def, Scalar.half_eq, one_div_mul_eq_div, neg_mul, one_mul]

theorem contribution_of_fits (h₀ : Fits x₀.size b.slots) (h : Fits x.size b.slots) :
    ∃ c, b.contribution scales x₀ x dt = .ok c ∧
      c.Measures (scales.energy / scales.mass ^ 2) (b.violationAt x₀.component x.component dt)
        (b.partials dt) := by
  refine ⟨_, bind_eq_ok.2 ⟨_, violation_eq_ok.2 ⟨⟨h₀, h⟩, rfl⟩, rfl⟩, ?_, ?_⟩
  · rw [squaredError_eq]
  · rw [squaredError_eq]
    exact flatten_additions _

end MassBalance

namespace MomentumBalance

variable (b : MomentumBalance)

/-- The rate at which momentum enters, by forces and by streams of mass. -/
def rateAt (σ : ℕ → α) : α :=
  (b.forces.map fun s => σ s.index).sum +
    (b.inflows.map fun t => σ t.rate.index * σ t.velocity.index).sum -
    (b.outflows.map fun t => σ t.rate.index * σ t.velocity.index).sum

/-- The change of momentum less the impulse. -/
def violationAt (σ₀ σ : ℕ → α) (dt : α) : α :=
  σ b.mass.index * σ b.velocity.index - σ₀ b.mass.index * σ₀ b.velocity.index -
    dt / 2 * (b.rateAt σ₀ + b.rateAt σ)

/-- The derivatives of the violation by the components of the candidate. -/
def partials (σ : ℕ → α) (dt : α) : List (ℕ × α) :=
  [(b.mass.index, σ b.velocity.index), (b.velocity.index, σ b.mass.index)] ++
    b.forces.map (fun s => (s.index, -(dt / 2))) ++
    b.inflows.flatMap (fun t => [(t.rate.index, -(dt / 2) * σ t.velocity.index),
      (t.velocity.index, -(dt / 2) * σ t.rate.index)]) ++
    b.outflows.flatMap (fun t => [(t.rate.index, dt / 2 * σ t.velocity.index),
      (t.velocity.index, dt / 2 * σ t.rate.index)])

variable {b} {x₀ x : Components α} {dt : α} {scales : Scales α}

theorem rate_eq_ok {p : α} :
    b.rate x = .ok p ↔ Fits x.size (b.forces ++ b.inflows.flatMap Transfer.slots ++
      b.outflows.flatMap Transfer.slots) ∧ b.rateAt x.component = p := by
  have hsum : (b.forces.map fun s => x.component s.index).foldl (· + ·)
      ((b.outflows.map fun t => t.flow x).foldl (fun s t => s - t.rate * t.velocity)
        ((b.inflows.map fun t => t.flow x).foldl (fun s t => s + t.rate * t.velocity) 0)) =
      b.rateAt x.component := by
    rw [List.foldl_map, List.foldl_map, List.foldl_map, foldl_add fun s : Slot => x.component s.index,
      foldl_add fun t : Transfer => (t.flow x).rate * (t.flow x).velocity,
      foldl_sub fun t : Transfer => (t.flow x).rate * (t.flow x).velocity]
    unfold rateAt Transfer.flow
    ring
  unfold rate
  simp only [bind_eq_ok, Slot.mapM_read_eq_ok, Transfer.mapM_read_eq_ok, fits_append]
  constructor
  · rintro ⟨_, ⟨h1, rfl⟩, _, ⟨h2, rfl⟩, _, ⟨h3, rfl⟩, h4⟩
    exact ⟨⟨⟨h3, h1⟩, h2⟩, hsum.symm.trans (Except.ok.inj h4)⟩
  · rintro ⟨⟨⟨h3, h1⟩, h2⟩, rfl⟩
    exact ⟨_, ⟨h1, rfl⟩, _, ⟨h2, rfl⟩, _, ⟨h3, rfl⟩, congrArg _ hsum⟩

theorem flatten_additions (s : α) :
    (b.additions dt s (x.component b.mass.index) (x.component b.velocity.index)
      (b.inflows.map fun t => t.flow x) (b.outflows.map fun t => t.flow x)).flatten =
      (b.partials x.component dt).map fun p => (p.1, p.2 * s) := by
  simp only [additions, List.flatten_append, List.flatten_cons, List.flatten_nil,
    Slot.flatten_map_addition, flatten_flatMap, List.flatMap_map]
  simp only [partials, Slot.addition, Transfer.flow, List.map_append, List.map_cons, List.map_nil,
    List.map_map, List.map_flatMap, List.singleton_append, List.append_nil, Function.comp_def,
    Scalar.half_eq, one_div_mul_eq_div, neg_mul, mul_right_comm (dt / 2) _ s]

theorem contribution_of_fits (h₀ : Fits x₀.size b.slots) (h : Fits x.size b.slots) :
    ∃ c, b.contribution scales x₀ x dt = .ok c ∧
      c.Measures (scales.energy / scales.momentum ^ 2)
        (b.violationAt x₀.component x.component dt) (b.partials x.component dt) := by
  obtain ⟨hm₀, hv₀, hr₀⟩ := fits_slots.1 h₀
  obtain ⟨hm, hv, hr⟩ := fits_slots.1 h
  obtain ⟨⟨-, hi⟩, ho⟩ := (fits_append.1 hr).imp_left fits_append.1
  unfold contribution
  simp only [bind_eq_ok]
  refine ⟨_, ⟨_, Slot.readPair_eq_ok.2 ⟨⟨hm₀, hm⟩, rfl⟩, _, Slot.readPair_eq_ok.2 ⟨⟨hv₀, hv⟩, rfl⟩,
    _, rate_eq_ok.2 ⟨hr₀, rfl⟩, _, rate_eq_ok.2 ⟨hr, rfl⟩,
    _, Transfer.mapM_read_eq_ok.2 ⟨hi, rfl⟩, _, Transfer.mapM_read_eq_ok.2 ⟨ho, rfl⟩, rfl⟩, ?_, ?_⟩
  · simp only [squaredError_eq, violationAt, Scalar.half_eq, one_div_mul_eq_div]
  · simp only [squaredError_eq, violationAt, Scalar.half_eq, one_div_mul_eq_div]
    exact flatten_additions _

end MomentumBalance

namespace NewtonBalance

variable (b : NewtonBalance)

/-- Mass times acceleration less forces and thrust. -/
def violationAt (σ : ℕ → α) : α :=
  σ b.mass.index * σ b.acceleration.index - (b.forces.map fun s => σ s.index).sum -
    (b.inflows.map fun t => σ t.rate.index * (σ t.velocity.index - σ b.velocity.index)).sum +
    (b.outflows.map fun t => σ t.rate.index * (σ t.velocity.index - σ b.velocity.index)).sum

/-- The derivatives of the violation by the components of the candidate. -/
def partials (σ : ℕ → α) : List (ℕ × α) :=
  [(b.mass.index, σ b.acceleration.index), (b.acceleration.index, σ b.mass.index)] ++
    b.forces.map (fun s => (s.index, -1)) ++
    b.inflows.flatMap (fun t => [(t.rate.index, -(σ t.velocity.index - σ b.velocity.index)),
      (t.velocity.index, -σ t.rate.index), (b.velocity.index, σ t.rate.index)]) ++
    b.outflows.flatMap (fun t => [(t.rate.index, σ t.velocity.index - σ b.velocity.index),
      (t.velocity.index, σ t.rate.index), (b.velocity.index, -σ t.rate.index)])

variable {b} {x : Components α} {scales : Scales α}

theorem flatten_additions (s : α) :
    (b.additions s (x.component b.mass.index) (x.component b.velocity.index)
      (x.component b.acceleration.index) (b.inflows.map fun t => t.flow x)
      (b.outflows.map fun t => t.flow x)).flatten =
      (b.partials x.component).map fun p => (p.1, p.2 * s) := by
  simp only [additions, List.flatten_append, List.flatten_cons, List.flatten_nil,
    Slot.flatten_map_addition, flatten_flatMap, List.flatMap_map]
  simp only [partials, Slot.addition, Transfer.flow, List.map_append, List.map_cons, List.map_nil,
    List.map_map, List.map_flatMap, List.singleton_append, List.append_nil, Function.comp_def,
    neg_mul, one_mul]

theorem contribution_of_fits (h : Fits x.size b.slots) :
    ∃ c, b.contribution scales x = .ok c ∧
      c.Measures (scales.energy / scales.force ^ 2) (b.violationAt x.component)
        (b.partials x.component) := by
  obtain ⟨hm, hv, ha, hf, hi, ho⟩ := fits_slots.1 h
  have hδ : (b.outflows.map fun t => t.flow x).foldl
      (fun s t => s + t.rate * (t.velocity - x.component b.velocity.index))
      ((b.inflows.map fun t => t.flow x).foldl
        (fun s t => s - t.rate * (t.velocity - x.component b.velocity.index))
        ((b.forces.map fun s => x.component s.index).foldl (· - ·)
          (x.component b.mass.index * x.component b.acceleration.index))) =
      b.violationAt x.component := by
    rw [List.foldl_map, List.foldl_map, List.foldl_map, foldl_sub fun s : Slot => x.component s.index,
      foldl_add fun t : Transfer => (t.flow x).rate * ((t.flow x).velocity - x.component b.velocity.index),
      foldl_sub fun t : Transfer => (t.flow x).rate * ((t.flow x).velocity - x.component b.velocity.index)]
    rfl
  unfold contribution
  simp only [bind_eq_ok]
  refine ⟨_, ⟨_, Slot.read_eq_ok.2 ⟨hm, rfl⟩, _, Slot.read_eq_ok.2 ⟨hv, rfl⟩,
    _, Slot.read_eq_ok.2 ⟨ha, rfl⟩, _, Slot.mapM_read_eq_ok.2 ⟨hf, rfl⟩,
    _, Transfer.mapM_read_eq_ok.2 ⟨hi, rfl⟩, _, Transfer.mapM_read_eq_ok.2 ⟨ho, rfl⟩, rfl⟩, ?_, ?_⟩
  · rw [hδ, squaredError_eq]
  · rw [hδ, squaredError_eq]
    exact flatten_additions _

end NewtonBalance

namespace RateBalance

variable (b : RateBalance)

/-- The change of the quantity less the mean rate times the time. -/
def violationAt (σ₀ σ : ℕ → α) (dt : α) : α :=
  σ b.quantity.index - σ₀ b.quantity.index - dt / 2 * (σ₀ b.rate.index + σ b.rate.index)

/-- The derivatives of the violation by the components of the candidate. -/
def partials (dt : α) : List (ℕ × α) := [(b.quantity.index, 1), (b.rate.index, -(dt / 2))]

variable {b} {x₀ x : Components α} {dt : α}

theorem violation_eq_ok {δ : α} :
    b.violation x₀ x dt = .ok δ ↔ (Fits x₀.size b.slots ∧ Fits x.size b.slots) ∧
      b.violationAt x₀.component x.component dt = δ := by
  unfold violation slots violationAt
  simp only [bind_eq_ok, Slot.readPair_eq_ok, fits_cons, Scalar.half_eq, one_div_mul_eq_div]
  constructor
  · rintro ⟨_, ⟨⟨h1, h2⟩, rfl⟩, _, ⟨⟨h3, h4⟩, rfl⟩, h5⟩
    exact ⟨⟨⟨h1, h3, fits_nil⟩, h2, h4, fits_nil⟩, Except.ok.inj h5⟩
  · rintro ⟨⟨⟨h1, h3, -⟩, h2, h4, -⟩, rfl⟩
    exact ⟨_, ⟨⟨h1, h2⟩, rfl⟩, _, ⟨⟨h3, h4⟩, rfl⟩, rfl⟩

theorem contribution_of_fits (energyScale scale : α) (h₀ : Fits x₀.size b.slots)
    (h : Fits x.size b.slots) : ∃ c, b.contribution energyScale scale x₀ x dt = .ok c ∧
      c.Measures (energyScale / scale ^ 2) (b.violationAt x₀.component x.component dt)
        (b.partials dt) := by
  refine ⟨_, bind_eq_ok.2 ⟨_, violation_eq_ok.2 ⟨⟨h₀, h⟩, rfl⟩, rfl⟩, ?_, ?_⟩ <;> rw [squaredError_eq]
  simp only [partials, Slot.addition, List.flatten_cons, List.flatten_nil, List.map_cons,
    List.map_nil, List.singleton_append, List.append_nil, Scalar.half_eq, one_div_mul_eq_div, neg_mul,
    one_mul]

end RateBalance

namespace VersorConstraint

variable (c : VersorConstraint)

/-- The square of the norm less one. -/
def violationAt (σ : ℕ → α) : α :=
  σ c.quat.w ^ 2 + σ c.quat.i ^ 2 + σ c.quat.j ^ 2 + σ c.quat.k ^ 2 - 1

/-- The derivatives of the violation by the components of the candidate. -/
def partials (σ : ℕ → α) : List (ℕ × α) :=
  (Placed.indices c.quat).map fun i => (i, 2 * σ i)

variable {c} {x : Components α} {scales : Scales α}

theorem contribution_of_fits (h : ∀ i ∈ Placed.indices c.quat, i < x.size) :
    ∃ r, c.contribution scales x = .ok r ∧
      r.Measures scales.rotationalEnergy (c.violationAt x.component) (c.partials x.component) := by
  have hδ : Quat.normSq ⟨x.component c.quat.w, x.component c.quat.i, x.component c.quat.j,
      x.component c.quat.k⟩ - 1 = c.violationAt x.component := by
    unfold Quat.normSq violationAt; ring
  refine ⟨_, bind_eq_ok.2 ⟨_, QuatSlots.read_eq_ok.2 ⟨h, rfl⟩, rfl⟩, ?_, ?_⟩
  · rw [hδ, mul_assoc, ← sq]
  · have h4 : ∀ a : α, a * (4 * scales.rotationalEnergy * c.violationAt x.component) =
        2 * a * (2 * scales.rotationalEnergy * c.violationAt x.component) := fun a => by ring
    rw [hδ]
    simp only [partials, Placed.indices, QuatSlots.entries, Quat.scale, Scalar.four_eq, h4,
      List.flatten_cons, List.flatten_nil, List.map_cons, List.map_nil, List.append_nil]

end VersorConstraint

namespace FieldForce

variable (c : FieldForce α)

/-- The force less mass times acceleration. -/
def violationAt (σ : ℕ → α) : α := σ c.force.index - σ c.mass.index * c.acceleration

/-- The derivatives of the violation by the components of the candidate. -/
def partials : List (ℕ × α) := [(c.force.index, 1), (c.mass.index, -c.acceleration)]

variable {c} {x : Components α} {scales : Scales α}

theorem contribution_of_fits (h : Fits x.size c.slots) :
    ∃ r, c.contribution scales x = .ok r ∧
      r.Measures (scales.energy / scales.force ^ 2) (c.violationAt x.component) c.partials := by
  obtain ⟨hf, hm, -⟩ := (fits_cons.1 h).imp_right fits_cons.1
  unfold contribution
  simp only [bind_eq_ok]
  refine ⟨_, ⟨_, Slot.read_eq_ok.2 ⟨hf, rfl⟩, _, Slot.read_eq_ok.2 ⟨hm, rfl⟩, rfl⟩, ?_, ?_⟩ <;>
    rw [squaredError_eq]
  · rfl
  · simp only [partials, violationAt, Slot.addition, List.flatten_cons, List.flatten_nil,
      List.map_cons, List.map_nil, List.singleton_append, List.append_nil, one_mul]

end FieldForce

namespace Law

/-- The weight of the squared violation. -/
def weight (scales : Scales α) : Law α → α
  | mass _ => scales.energy / scales.mass ^ 2
  | momentum _ => scales.energy / scales.momentum ^ 2
  | newton _ => scales.energy / scales.force ^ 2
  | position _ => scales.energy / scales.length ^ 2
  | velocity _ => scales.energy / scales.velocity ^ 2
  | versor _ => scales.rotationalEnergy
  | field _ => scales.energy / scales.force ^ 2

/-- **The violation of a law**, from the components of the initial and the candidate state. -/
def violationAt (σ₀ σ : ℕ → α) (dt : α) : Law α → α
  | mass b => b.violationAt σ₀ σ dt
  | momentum b => b.violationAt σ₀ σ dt
  | newton b => b.violationAt σ
  | position b => b.violationAt σ₀ σ dt
  | velocity b => b.violationAt σ₀ σ dt
  | versor c => c.violationAt σ
  | field c => c.violationAt σ

/-- **The equation of each law**, between the components of the states before and after a step of `dt`.
What flows during the step is the mean of the rates at its ends, times its length. -/
def Holds (σ₀ σ : ℕ → α) (dt : α) : Law α → Prop
  | mass b => σ b.mass.index - σ₀ b.mass.index = dt / 2 * (b.rateAt σ₀ + b.rateAt σ)
  | momentum b =>
    σ b.mass.index * σ b.velocity.index - σ₀ b.mass.index * σ₀ b.velocity.index =
      dt / 2 * (b.rateAt σ₀ + b.rateAt σ)
  | newton b =>
    σ b.mass.index * σ b.acceleration.index =
      (b.forces.map fun s => σ s.index).sum +
        (b.inflows.map fun t => σ t.rate.index * (σ t.velocity.index - σ b.velocity.index)).sum -
        (b.outflows.map fun t => σ t.rate.index * (σ t.velocity.index - σ b.velocity.index)).sum
  | position b | velocity b =>
    σ b.quantity.index - σ₀ b.quantity.index = dt / 2 * (σ₀ b.rate.index + σ b.rate.index)
  | versor c => σ c.quat.w ^ 2 + σ c.quat.i ^ 2 + σ c.quat.j ^ 2 + σ c.quat.k ^ 2 = 1
  | field c => σ c.force.index = σ c.mass.index * c.acceleration

/-- **A law is not violated when its equation holds.** -/
theorem violationAt_eq_zero_iff {law : Law α} {σ₀ σ : ℕ → α} {dt : α} :
    law.violationAt σ₀ σ dt = 0 ↔ law.Holds σ₀ σ dt := by
  cases law with
  | mass b => exact sub_eq_zero
  | momentum b => exact sub_eq_zero
  | newton b =>
    -- the violation has the forces and the thrust on the side of the acceleration
    have hsides : b.violationAt σ = σ b.mass.index * σ b.acceleration.index -
        ((b.forces.map fun s => σ s.index).sum +
          (b.inflows.map fun t => σ t.rate.index * (σ t.velocity.index - σ b.velocity.index)).sum -
          (b.outflows.map fun t => σ t.rate.index * (σ t.velocity.index - σ b.velocity.index)).sum) := by
      unfold NewtonBalance.violationAt
      ring
    show b.violationAt σ = 0 ↔ _
    rw [hsides]
    exact sub_eq_zero
  | position b => exact sub_eq_zero
  | velocity b => exact sub_eq_zero
  | versor c => exact sub_eq_zero
  | field c => exact sub_eq_zero

/-- The derivatives of the violation by the components of the candidate, one for each place where a
component occurs. -/
def partials (σ : ℕ → α) (dt : α) : Law α → List (ℕ × α)
  | mass b => b.partials dt
  | momentum b => b.partials σ dt
  | newton b => b.partials σ
  | position b => b.partials dt
  | velocity b => b.partials dt
  | versor c => c.partials σ
  | field c => c.partials

end Law

namespace Term

variable (t : Term α)

/-- The energy of the term, from the components of the initial and the candidate state. -/
def energyAt (σ₀ σ : ℕ → α) (dt : α) : α := t.law.weight t.scales * t.law.violationAt σ₀ σ dt ^ 2

/-- What the term adds to the gradient, and where. -/
def slopes (σ₀ σ : ℕ → α) (dt : α) : List (ℕ × α) :=
  (t.law.partials σ dt).map fun p =>
    (p.1, p.2 * (2 * t.law.weight t.scales * t.law.violationAt σ₀ σ dt))

variable {t} {x₀ x : Components α} {dt : α}

/-- **A law that has all its positions gives a contribution**, that of its violation. -/
theorem contribution_of_fits (h₀ : ∀ i ∈ t.law.indices, i < x₀.size)
    (h : ∀ i ∈ t.law.indices, i < x.size) : ∃ c, t.contribution x₀ x dt = .ok c ∧
      c.Measures (t.law.weight t.scales) (t.law.violationAt x₀.component x.component dt)
        (t.law.partials x.component dt) := by
  obtain ⟨law, scales⟩ := t
  cases law with
  | mass b => exact MassBalance.contribution_of_fits (forall_indices.1 h₀) (forall_indices.1 h)
  | momentum b => exact MomentumBalance.contribution_of_fits (forall_indices.1 h₀) (forall_indices.1 h)
  | newton b => exact NewtonBalance.contribution_of_fits (forall_indices.1 h)
  | position b => exact RateBalance.contribution_of_fits _ _ (forall_indices.1 h₀) (forall_indices.1 h)
  | velocity b => exact RateBalance.contribution_of_fits _ _ (forall_indices.1 h₀) (forall_indices.1 h)
  | versor c => exact VersorConstraint.contribution_of_fits h
  | field c => exact FieldForce.contribution_of_fits (forall_indices.1 h)

end Term
end EnergyStep
