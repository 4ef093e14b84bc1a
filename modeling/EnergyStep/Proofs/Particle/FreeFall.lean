import EnergyStep.Proofs.Law.Zero
import EnergyStep.Proofs.Particle.State
import EnergyStep.System.AxisBody

/-!
# Free fall

The laws of a particle in a field are a system of polynomial equations for the state after a step. They
fall apart into those along the axes, and along one axis they can be solved one after the other: the
mass, the force, the acceleration, the velocity, the position. The law of momentum says nothing new. So
the state is determined, and it is the one that free fall leads to.

* `AxisBody.solved_of_laws`: what the laws of a body on one axis determine.
* `AxisBody.Falls`, `AxisBody.Falls.laws_iff`: the body in free fall, before and after.
* `Particle.afterFall`, `ParticleSlots.laws_iff`: a particle in space.
* `ParticleSlots.forall_mem_indices_laws`: its laws and its layout have the same positions.
* `ParticleSlots.Normed`: the only thing that the laws say about an orientation.
* `energy_eq_zero_iff_free_fall`: the energy of a step from an encoded state.
-/

namespace EnergyStep

variable {α : Type} [Exact α]

namespace AxisBody

variable {b : AxisBody} {σ₀ σ : ℕ → α} {m x v g dt : α}

/-- **A body in free fall**: its mass, position and velocity are as given, and its acceleration and
force are those of the field. -/
structure Falls (b : AxisBody) (σ : ℕ → α) (m x v g : α) : Prop where
  mass : σ b.mass.index = m
  position : σ b.position.index = x
  velocity : σ b.velocity.index = v
  acceleration : σ b.acceleration.index = g
  force : σ b.force.index = m * g

/-- What the laws of a body say about its components. -/
theorem laws_iff : (∀ law ∈ b.laws g, law.violationAt σ₀ σ dt = 0) ↔
    σ b.mass.index - σ₀ b.mass.index = 0 ∧
    σ b.mass.index * σ b.velocity.index - σ₀ b.mass.index * σ₀ b.velocity.index -
      dt / 2 * (σ₀ b.force.index + σ b.force.index) = 0 ∧
    σ b.mass.index * σ b.acceleration.index - σ b.force.index = 0 ∧
    σ b.position.index - σ₀ b.position.index -
      dt / 2 * (σ₀ b.velocity.index + σ b.velocity.index) = 0 ∧
    σ b.velocity.index - σ₀ b.velocity.index -
      dt / 2 * (σ₀ b.acceleration.index + σ b.acceleration.index) = 0 ∧
    σ b.force.index - σ b.mass.index * g = 0 := by
  simp only [laws, List.forall_mem_cons, Law.violationAt, MassBalance.violationAt, MassBalance.rateAt,
    MassBalance.closed, MomentumBalance.violationAt, MomentumBalance.rateAt,
    NewtonBalance.violationAt, RateBalance.violationAt, FieldForce.violationAt, List.map_nil,
    List.map_cons, List.sum_nil, List.sum_cons, List.not_mem_nil, sub_zero, add_zero, mul_zero,
    false_imp_iff, implies_true, and_true]

/-- **The laws of a body with a mass determine it**, quantity by quantity: the mass, the force of the
field, the acceleration, the velocity, the position. -/
theorem solved_of_laws (h : ∀ law ∈ b.laws g, law.violationAt σ₀ σ dt = 0) (hm : σ₀ b.mass.index ≠ 0) :
    σ b.mass.index = σ₀ b.mass.index ∧ σ b.force.index = σ₀ b.mass.index * g ∧
      σ b.acceleration.index = g ∧
      σ b.velocity.index = σ₀ b.velocity.index + dt / 2 * (σ₀ b.acceleration.index + g) ∧
      σ b.position.index = σ₀ b.position.index + dt / 2 * (σ₀ b.velocity.index +
        (σ₀ b.velocity.index + dt / 2 * (σ₀ b.acceleration.index + g))) := by
  obtain ⟨hmass, -, hnewton, hposition, hvelocity, hfield⟩ := laws_iff.1 h
  have hm₁ : σ b.mass.index = σ₀ b.mass.index := sub_eq_zero.1 hmass
  rw [hm₁] at hnewton hfield
  have hf₁ : σ b.force.index = σ₀ b.mass.index * g := sub_eq_zero.1 hfield
  rw [hf₁] at hnewton
  have ha₁ : σ b.acceleration.index = g := mul_left_cancel₀ hm (sub_eq_zero.1 hnewton)
  rw [ha₁] at hvelocity
  have hv₁ : σ b.velocity.index = σ₀ b.velocity.index + dt / 2 * (σ₀ b.acceleration.index + g) := by
    linear_combination hvelocity
  rw [hv₁] at hposition
  exact ⟨hm₁, hf₁, ha₁, hv₁, by linear_combination hposition⟩

/-- **The laws of a body in free fall leave it one way to go.** The mass stays, so the force does; a
mass that is not zero then has the acceleration of the field, and the mean rates are those of free
fall. -/
theorem Falls.laws_iff (h₀ : b.Falls σ₀ m x v g) (hm : m ≠ 0) :
    (∀ law ∈ b.laws g, law.violationAt σ₀ σ dt = 0) ↔
      b.Falls σ m (x + dt * v + 0.5 * dt ^ 2 * g) (v + dt * g) g := by
  obtain ⟨hm₀, hx₀, hv₀, ha₀, hf₀⟩ := h₀
  constructor
  · intro hlaws
    obtain ⟨hm₁, hf₁, ha₁, hv₁, hx₁⟩ := solved_of_laws hlaws (by rwa [hm₀])
    rw [hm₀] at hm₁ hf₁
    rw [hv₀, ha₀] at hv₁ hx₁
    rw [hx₀] at hx₁
    exact ⟨hm₁, by linear_combination hx₁, by linear_combination hv₁, ha₁, hf₁⟩
  · rintro ⟨hm₁, hx₁, hv₁, ha₁, hf₁⟩
    rw [AxisBody.laws_iff, hm₀, hx₀, hv₀, ha₀, hf₀, hm₁, hx₁, hv₁, ha₁, hf₁]
    refine ⟨?_, ?_, ?_, ?_, ?_, ?_⟩ <;> ring

/-- All positions of the body. -/
def indices (b : AxisBody) : List ℕ :=
  [b.mass.index, b.position.index, b.velocity.index, b.acceleration.index, b.force.index]

theorem indices_allocate (l : Layout) :
    (allocate.run l).1.indices = List.range' l.dimension 5 := rfl

theorem nodup_allocate (l : Layout) : (allocate.run l).1.indices.Nodup := by
  rw [indices_allocate]
  exact List.nodup_range'

theorem indices_allocate_lt {l : Layout} {n : ℕ} (hn : (allocate.run l).2.dimension ≤ n) :
    ∀ i ∈ (allocate.run l).1.indices, i < n := by
  intro i hi
  have hdim : (allocate.run l).2.dimension = l.dimension + 5 := rfl
  rw [indices_allocate, List.mem_range'_1] at hi
  omega

omit [Exact α] in
/-- The positions of the laws of a body are all its positions. -/
theorem forall_mem_indices_laws {P : ℕ → Prop} :
    (∀ law ∈ b.laws g, ∀ i ∈ law.indices, P i) ↔ ∀ i ∈ b.indices, P i := by
  simp only [laws, Law.indices, MassBalance.slots, MassBalance.closed, MomentumBalance.slots,
    NewtonBalance.slots, RateBalance.slots, FieldForce.slots, indices, List.forall_mem_cons,
    List.map_cons, List.map_append, List.map_nil, List.flatMap_nil, List.append_nil, List.nil_append,
    List.cons_append, List.not_mem_nil, false_imp_iff, implies_true, and_true]
  tauto

omit [Exact α] in
theorem index_mem_of_mem_laws {law : Law α} (h : law ∈ b.laws g) : ∀ i ∈ law.indices, i ∈ b.indices :=
  forall_mem_indices_laws.2 (fun _ hi => hi) law h

/-- **The state with a body encoded** is one in which it falls, if every quantity has a position of
its own. -/
theorem falls_encode (hn : b.indices.Nodup) {n : ℕ} (hfit : ∀ i ∈ b.indices, i < n) (m x v g : α) :
    b.Falls (b.encode n m x v g).component m x v g := by
  simp only [indices, List.nodup_cons, List.mem_cons, List.not_mem_nil, or_false, not_or] at hn
  obtain ⟨⟨hmx, hmv, hma, hmf⟩, ⟨hxv, hxa, hxf⟩, ⟨hva, hvf⟩, haf, -⟩ := hn
  simp only [indices, List.forall_mem_cons] at hfit
  obtain ⟨hm, hx, hv, ha, hf, -⟩ := hfit
  unfold encode
  -- what is put later leaves the other positions as they are
  constructor <;>
    simp [Components.component_setIfInBounds, hm, hx, hv, ha, hf, hmx, hmv, hma, hmf, hxv, hxa, hxf,
      hva, hvf, haf]

end AxisBody

/-- **The particle after free fall** in the field for the time `t`, from a position and a velocity. -/
def Particle.afterFall (mass : α) (position velocity : Vec3 α) (field : Gravity α) (t : α) :
    Particle α :=
  inField mass (position + t • velocity + (0.5 * t ^ 2) • field.acceleration)
    (velocity + t • field.acceleration) field

namespace ParticleSlots

variable {slots : ParticleSlots} {σ₀ σ : ℕ → α} {m dt : α} {position velocity : Vec3 α}
  {field : Gravity α}

/-- What a particle is along one axis. -/
def axis (slots : ParticleSlots) (k : Fin 3) : AxisBody where
  mass := slots.mass
  position := slots.position.components.get k
  velocity := slots.velocity.components.get k
  acceleration := slots.acceleration.components.get k
  force := slots.force.components.get k

/-- A particle falls freely when it does so along every axis. -/
theorem particleAt_eq_inField_iff : slots.particleAt σ = Particle.inField m position velocity field ↔
    ∀ k : Fin 3, (slots.axis k).Falls σ m (position.get k) (velocity.get k)
      (field.acceleration.get k) := by
  have hvec : ∀ {s : Slots 3} {v : Vec3 α}, s.positions.map σ = v ↔
      ∀ k : Fin 3, σ (s.components.get k).index = v.get k := by
    intro s v
    constructor
    · rintro rfl k
      simp [Slots.components, Vector.get_eq_getElem]
    · intro h
      apply Vector.ext
      intro i hi
      simpa [Slots.components, Vector.get_eq_getElem] using h ⟨i, hi⟩
  have hforce : ∀ k : Fin 3, (field.forceOn m).get k = m * field.acceleration.get k := by
    intro k
    simp [Gravity.forceOn, Vec3.scale, Vector.get_eq_getElem, mul_comm]
  simp only [particleAt, Particle.inField, Particle.mk.injEq, hvec, hforce, and_true]
  constructor
  · rintro ⟨hm, hx, hv, ha, hf⟩ k
    exact ⟨hm, hx k, hv k, ha k, hf k⟩
  · intro h
    exact ⟨(h 0).mass, fun k => (h k).position, fun k => (h k).velocity, fun k => (h k).acceleration,
      fun k => (h k).force⟩

omit [Exact α] in
theorem forall_mem_perAxis {β : Type} {P : β → Prop} {law : Fin 3 → β} :
    (∀ b ∈ perAxis law, P b) ↔ ∀ k, P (law k) := by
  rw [Fin.forall_fin_succ, Fin.forall_fin_two]
  simp only [perAxis, List.forall_mem_cons, List.not_mem_nil, false_imp_iff, implies_true, and_true]
  exact Iff.rfl

omit [Exact α] in
theorem forall_mem_rates {n : ℕ} {quantity rate : Slots n} {P : RateBalance → Prop} :
    (∀ b ∈ RateBalance.perAxis quantity rate, P b) ↔
      ∀ k : Fin n, P ⟨quantity.components.get k, rate.components.get k⟩ := List.forall_mem_ofFn_iff

omit [Exact α] in
/-- **The laws of a particle** are those along the axes, and that of its orientation. -/
theorem forall_mem_laws {P : Law α → Prop} : (∀ law ∈ slots.laws field, P law) ↔
    (∀ k : Fin 3, ∀ law ∈ (slots.axis k).laws (field.acceleration.get k), P law) ∧
      ∀ quat, slots.orientation = some quat → P (.versor ⟨quat⟩) := by
  have hquat : (∀ law ∈ slots.orientation.elim [] fun quat => [Law.versor ⟨quat⟩], P law) ↔
      ∀ quat, slots.orientation = some quat → P (.versor ⟨quat⟩) := by
    cases slots.orientation <;> simp
  have haxes : (∀ law ∈ (perAxis slots.axisLaws).flatten, P law) ↔
      ∀ k : Fin 3, ∀ law ∈ slots.axisLaws k, P law := by
    rw [List.forall_mem_flatten, forall_mem_perAxis]
  simp only [laws, fieldLaws, List.forall_mem_cons, List.forall_mem_append, List.forall_mem_map, hquat,
    haxes, forall_mem_perAxis, forall_mem_rates]
  -- along each axis the law of mass occurs again
  simp only [axisLaws, AxisBody.laws, axis, Vector.get_eq_getElem, Fin.getElem_fin,
    List.forall_mem_cons, List.not_mem_nil, false_imp_iff, implies_true, and_true, forall_and,
    forall_const]
  tauto

/-- **The laws of a particle in free fall leave it one way to go**, but for the orientation, which
only has to have norm one. -/
theorem laws_iff (h₀ : slots.particleAt σ₀ = Particle.inField m position velocity field) (hm : m ≠ 0) :
    (∀ law ∈ slots.laws field, law.violationAt σ₀ σ dt = 0) ↔
      slots.particleAt σ = Particle.afterFall m position velocity field dt ∧
        ∀ quat, slots.orientation = some quat → (VersorConstraint.mk quat).violationAt σ = 0 := by
  have haxis : ∀ k : Fin 3, (∀ law ∈ (slots.axis k).laws (field.acceleration.get k),
      law.violationAt σ₀ σ dt = 0) ↔ (slots.axis k).Falls σ m
        ((position + dt • velocity + (0.5 * dt ^ 2) • field.acceleration).get k)
        ((velocity + dt • field.acceleration).get k) (field.acceleration.get k) := by
    intro k
    rw [(particleAt_eq_inField_iff.1 h₀ k).laws_iff hm]
    simp [Vector.get_eq_getElem]
  rw [forall_mem_laws, Particle.afterFall, particleAt_eq_inField_iff]
  exact and_congr_left' (forall_congr' haxis)

/-- **A stored orientation has norm one.** -/
def Normed (slots : ParticleSlots) (x : Components α) : Prop :=
  ∀ quat, slots.orientation = some quat → ∃ q, quat.read x = .ok q ∧ q.normSq = 1

variable {x : Components α}

theorem normed_iff (h : slots.FitsIn x.size) : slots.Normed x ↔
    ∀ quat, slots.orientation = some quat → (VersorConstraint.mk quat).violationAt x.component = 0 := by
  refine forall_congr' fun quat => forall_congr' fun hquat => ?_
  have hread : ∀ {q : Quat α}, quat.read x = .ok q ↔ (⟨x.component quat.w, x.component quat.i,
      x.component quat.j, x.component quat.k⟩ : Quat α) = q :=
    QuatSlots.read_eq_ok.trans (and_iff_right (h.orientation quat hquat))
  have hnorm : Quat.normSq ⟨x.component quat.w, x.component quat.i, x.component quat.j,
      x.component quat.k⟩ = (VersorConstraint.mk quat).violationAt x.component + 1 := by
    unfold Quat.normSq VersorConstraint.violationAt
    ring
  simp only [hread, exists_eq_left', hnorm, add_eq_right]

/-- An orientation of norm one can be read. -/
theorem Normed.decodeOrientation_eq (h : slots.Normed x) :
    ∃ orientation, Particle.decodeOrientation slots x = .ok orientation := by
  unfold Particle.decodeOrientation
  cases hquat : slots.orientation with
  | none => exact ⟨none, rfl⟩
  | some quat =>
    obtain ⟨q, hq, hone⟩ := h quat hquat
    exact ⟨some q.normalized, map_eq_ok.2 ⟨q.normalized, RotationSlots.read_of_normSq_eq_one hq hone, rfl⟩⟩

/-- **What a state holds is the given particle**, whatever the orientation. -/
theorem decode_iff (hfit : slots.FitsIn x.size) (hn : slots.Normed x) {p : Particle α}
    (hp : p.orientation = none) : (∃ q, Particle.decode slots x = .ok q ∧
      { q with orientation := none } = p) ↔ slots.particleAt x.component = p := by
  obtain ⟨orientation, ho⟩ := hn.decodeOrientation_eq
  rw [Particle.decode_eq hfit, ho]
  constructor
  · rintro ⟨q, hq, rfl⟩
    cases hq
    rfl
  · rintro rfl
    exact ⟨_, rfl, rfl⟩

omit [Exact α] in
/-- **The positions of the laws of a particle** are all its positions. -/
theorem forall_mem_indices_laws {P : ℕ → Prop} :
    (∀ law ∈ slots.laws field, ∀ i ∈ law.indices, P i) ↔ ∀ i ∈ Placed.indices slots, P i := by
  have haxis : ∀ k : Fin 3, (∀ i ∈ (slots.axis k).indices, P i) ↔ P slots.mass.index ∧
      P (slots.position.components.get k).index ∧ P (slots.velocity.components.get k).index ∧
      P (slots.acceleration.components.get k).index ∧ P (slots.force.components.get k).index := by
    intro k
    simp only [AxisBody.indices, axis, List.forall_mem_cons, List.not_mem_nil, false_imp_iff,
      implies_true, and_true]
  rw [forall_mem_laws, forall_mem_indices]
  simp only [AxisBody.forall_mem_indices_laws, haxis, Slots.forall_mem_indices, forall_and,
    forall_const, and_assoc]
  exact Iff.rfl

omit [Exact α] in
theorem FitsIn.index_lt {n : ℕ} (h : slots.FitsIn n) {law : Law α} (hlaw : law ∈ slots.laws field) :
    ∀ i ∈ law.indices, i < n := forall_mem_indices_laws.2 (fitsIn_iff.1 h) law hlaw

end ParticleSlots

/-- **The steps without energy are those of free fall.** Let a particle of some mass fall in a field
from a place with a velocity, encoded in a state in which nothing stands at its positions, as
`Particle.encode` does it. Then the energy of a step vanishes at those candidates that hold the
particle after free fall, with a stored orientation of norm one if it has one, and at no others; at
them the gradient vanishes too. A body on one axis has the same steps. -/
theorem energy_eq_zero_iff_free_fall {scales : Scales α} {m dt : α} (hs : scales.check = .ok ())
    (hm : m ≠ 0) (hdt : 0 < dt) (l : Layout) :
    (∀ (slots : ParticleSlots) (field : Gravity α) (position velocity : Vec3 α) (base : Components α),
      slots.NextIn l → slots.Vacant base → ∃ initial f,
        (Particle.inField m position velocity field).encodeInto slots base = .ok initial ∧
        StepEnergy.make initial dt (slots.terms scales field) = .ok f ∧ f.dimension = base.size ∧
        ∀ x, x.size = f.dimension → ∃ e g, f.evaluate x = .ok (e, g) ∧ 0 ≤ e ∧
          (e = 0 ↔ (∃ p, Particle.decode slots x = .ok p ∧ { p with orientation := none } =
            Particle.afterFall m position velocity field dt) ∧ slots.Normed x) ∧
          (e = 0 → g = Components.zeros x.size)) ∧
    (∀ (g position velocity : α) (n : ℕ), (AxisBody.allocate.run l).2.dimension ≤ n → ∃ f,
      StepEnergy.make ((AxisBody.allocate.run l).1.encode n m position velocity g) dt
        ((AxisBody.allocate.run l).1.terms g scales) = .ok f ∧ f.dimension = n ∧
      ∀ x, x.size = f.dimension → ∃ e d, f.evaluate x = .ok (e, d) ∧ 0 ≤ e ∧
        (e = 0 ↔ (AxisBody.allocate.run l).1.Falls x.component m
          (position + dt * velocity + 0.5 * dt ^ 2 * g) (velocity + dt * g) g) ∧
        (e = 0 → d = Components.zeros x.size)) := by
  refine ⟨?_, ?_⟩
  · intro slots field position velocity base hnext hb
    have hencode := Particle.encodeInto_eq (p := Particle.inField m position velocity field)
      (fun _ => rfl) hb.fits
    have h₀ := ParticleSlots.particleAt_bumpAll hnext.nodup hb
      (Particle.inField m position velocity field)
    have hsize := Components.size_bumpAll (slots.entries (Particle.inField m position velocity field)) base
    obtain ⟨f, hmake, hdim, heval⟩ := StepEnergy.make_laws hs hdt (slots.laws field)
      (by rw [hsize]; exact fun law => hb.fits.index_lt)
    refine ⟨_, f, hencode, hmake, hdim.trans hsize, fun x hx => ?_⟩
    obtain ⟨e, g, he, hnonneg, hzero, hgradient⟩ := heval x hx
    refine ⟨e, g, he, hnonneg, hzero.trans ?_, hgradient⟩
    have hfit : slots.FitsIn x.size := by
      rw [hx, hdim, hsize]
      exact hb.fits
    rw [ParticleSlots.laws_iff h₀ hm, ← ParticleSlots.normed_iff hfit]
    exact and_congr_left fun hn => (ParticleSlots.decode_iff hfit hn rfl).symm
  · intro g position velocity n hn
    have hfit := AxisBody.indices_allocate_lt hn
    have h₀ := AxisBody.falls_encode (AxisBody.nodup_allocate l) hfit m position velocity g
    have hsize : ((AxisBody.allocate.run l).1.encode n m position velocity g).size = n := by
      simp [AxisBody.encode]
    obtain ⟨f, hmake, hdim, heval⟩ := StepEnergy.make_laws hs hdt ((AxisBody.allocate.run l).1.laws g)
      (by rw [hsize]; exact fun law hlaw i hi => hfit i (AxisBody.index_mem_of_mem_laws hlaw i hi))
    refine ⟨f, hmake, hdim.trans hsize, fun x hx => ?_⟩
    obtain ⟨e, d, he, hnonneg, hzero, hgradient⟩ := heval x hx
    exact ⟨e, d, he, hnonneg, hzero.trans (h₀.laws_iff hm), hgradient⟩

/-- Three other quantities come first, and the positions of a particle behind them are empty. -/
def shared : Components ℚ := #[5, 6, 7] ++ Components.zeros 17

/-- The pull of the field on the ground. -/
def pull : Gravity ℚ := ⟨#v[0, 0, -981 / 100]⟩

/-- A particle of mass two has fallen for a tenth, and has been turned. -/
def fallen : Components ℚ :=
  #[5, 6, 7, 2, 1 / 10, 0, 10 - 981 / 20000, 1, 0, -981 / 1000, 0, 0, -981 / 100, 0, 0, -981 / 50,
    0, 3 / 5, 0, 4 / 5]

/-- A particle behind other quantities, and a body on one axis, after a tenth. -/
theorem energy_eq_zero_iff_free_fall_shared :
    (∃ initial f, (Particle.inField 2 #v[0, 0, 10] #v[1, 0, 0] pull).encodeInto
        (ParticleSlots.oriented.run ⟨3⟩).1 shared = .ok initial ∧
      StepEnergy.make initial (1 / 10) ((ParticleSlots.oriented.run ⟨3⟩).1.terms Scales.unit pull) =
        .ok f ∧ f.evaluate fallen = .ok (0, Components.zeros 20)) ∧
    (∃ f : StepEnergy ℚ, StepEnergy.make ((AxisBody.allocate.run ⟨3⟩).1.encode 8 2 10 0 (-10)) (1 / 10)
        ((AxisBody.allocate.run ⟨3⟩).1.terms (-10) Scales.unit) = .ok f ∧
      f.evaluate #[0, 0, 0, 2, 199 / 20, -1, -10, -20] = .ok (0, Components.zeros 8)) := by
  have hscales : (Scales.unit : Scales ℚ).check = .ok () := by decide +kernel
  have hmass : (2 : ℚ) ≠ 0 := by norm_num
  have htime : (0 : ℚ) < 1 / 10 := by norm_num
  obtain ⟨hparticle, hbody⟩ := energy_eq_zero_iff_free_fall hscales hmass htime ⟨3⟩
  refine ⟨?_, ?_⟩
  · have hvacant : (ParticleSlots.oriented.run ⟨3⟩).1.Vacant shared :=
      ⟨ParticleSlots.fitsIn_iff.2 (by decide), by decide +kernel⟩
    obtain ⟨initial, f, hencode, hmake, hdim, heval⟩ :=
      hparticle _ pull #v[0, 0, 10] #v[1, 0, 0] shared (Or.inr rfl) hvacant
    obtain ⟨e, g, he, -, hzero, hgradient⟩ := heval fallen hdim.symm
    have hfit : (ParticleSlots.oriented.run ⟨3⟩).1.FitsIn fallen.size := hvacant.fits
    have hnormed : (ParticleSlots.oriented.run ⟨3⟩).1.Normed fallen := by
      refine (ParticleSlots.normed_iff hfit).2 fun quat hquat => ?_
      cases hquat
      decide +kernel
    have hat : (ParticleSlots.oriented.run ⟨3⟩).1.particleAt fallen.component =
        Particle.afterFall 2 #v[0, 0, 10] #v[1, 0, 0] pull (1 / 10) := by
      simp only [ParticleSlots.particleAt, Particle.afterFall, Particle.inField, Particle.mk.injEq]
      decide +kernel
    obtain rfl := hzero.2 ⟨(ParticleSlots.decode_iff hfit hnormed rfl).2 hat, hnormed⟩
    obtain rfl := hgradient rfl
    exact ⟨initial, f, hencode, hmake, he⟩
  · obtain ⟨f, hmake, hdim, heval⟩ := hbody (-10) 10 0 8 (by decide)
    obtain ⟨e, d, he, -, hzero, hgradient⟩ :=
      heval #[0, 0, 0, 2, 199 / 20, -1, -10, -20] hdim.symm
    obtain rfl := hzero.2 ⟨by decide +kernel, by decide +kernel, by decide +kernel, by decide +kernel,
      by decide +kernel⟩
    obtain rfl := hgradient rfl
    exact ⟨f, hmake, he⟩

end EnergyStep
