import EnergyStep.Proofs.Particle.FreeFall
import EnergyStep.Proofs.Stepper.Assembly
import EnergyStep.Proofs.Store.InPlace

/-!
# The dimension of a particle

Three computations say how many components a particle needs: that of its layout, from the positions; that
of its laws, each from the positions it reads; and the checks that are made when it is added to a state.
They are written down independently, and agree for every choice of the positions, also where some coincide.
So a layout that a solver accepts is one that particles can be added at, and an addition that begins does
not stop half way.

* `ParticleSlots.make_terms_iff`: when a solver is made of the laws.
* `Particle.encodeInPlace`: adding a particle to a state that is kept in one place.
* `Particle.encode_adds`, `Particle.ran_encodeInPlace`: what it leaves behind.
* `layout_dimension_exact`: solvers and states need the dimension of the layout.
-/

namespace EnergyStep

variable {α : Type}

namespace ParticleSlots

variable {slots : ParticleSlots} {field : Gravity α} {scales : Scales α}

/-- The laws find their positions in the states that have those of the particle. -/
theorem forall_mem_terms_fitsIn {n : ℕ} :
    (∀ t ∈ slots.terms scales field, t.FitsIn n) ↔ slots.FitsIn n := by
  have hlaws : (∀ law ∈ slots.laws field, ∀ i ∈ law.indices, i < n) ↔
      ∀ i ∈ Placed.indices slots, i < n := forall_mem_indices_laws
  rw [fitsIn_iff, ← hlaws]
  exact List.forall_mem_map

/-- **The laws of an addressable particle** require its dimension, the most that one of them requires. -/
theorem forall_mem_terms_required (hs : Placed.Addressable slots) {n : ℕ} :
    (∀ t ∈ slots.terms scales field, t.requiredDimension ≤ n) ↔ slots.dimension ≤ n := by
  have haddressable : ∀ t ∈ slots.terms scales field, t.FitsIn (2 ^ 64 - 1) :=
    forall_mem_terms_fitsIn.2 (fitsIn_iff.2 hs)
  rw [forall₂_congr fun t ht => Term.requiredDimension_le_iff (haddressable t ht), dimension_le_iff hs]
  exact forall_mem_terms_fitsIn

/-- **A solver is made of the laws** where settings and scales pass their checks, and its states hold the
particle. -/
theorem make_terms_iff [Scalar α] (hs : Placed.Addressable slots) {n : ℕ} {settings : Settings α} :
    (∃ solver, Solver.make n (slots.terms scales field) settings = .ok solver) ↔
      settings.check = .ok () ∧ scales.check = .ok () ∧ slots.dimension ≤ n := by
  have hscales : (∀ t ∈ slots.terms scales field, t.scales.check = .ok ()) ↔ scales.check = .ok () := by
    constructor
    · -- there is a law for every particle, that of its mass
      exact fun h => h ⟨.mass (MassBalance.closed slots.mass), scales⟩ List.mem_cons_self
    · intro h t ht
      obtain ⟨law, -, rfl⟩ := List.mem_map.1 ht
      exact h
  simp only [Solver.make_eq_ok, checkTerms_eq_ok, forall₂_and, forall_mem_terms_required hs, hscales,
    exists_and_left, exists_eq', and_true]
  exact and_congr_right' and_comm

end ParticleSlots

namespace Particle

variable [Scalar α] {p : Particle α} {slots : ParticleSlots} {x : Components α}

/-- Adds the quantities of the particle one after the other. -/
def quantitiesInPlace (p : Particle α) (slots : ParticleSlots)
    (orientation : Option (RotationSlots × Quat α)) : Components.InPlace α PUnit := do
  slots.mass.addInPlace p.mass
  slots.position.addInPlace p.position
  slots.velocity.addInPlace p.velocity
  slots.acceleration.addInPlace p.acceleration
  slots.force.addInPlace p.force
  match orientation with
  | some (rotation, q) => rotation.addInPlace q
  | none => pure ⟨⟩

/-- The dimension is checked before the first quantity is added. -/
def encodeInPlace (p : Particle α) (slots : ParticleSlots) : Components.InPlace α PUnit := do
  let orientation ← liftExcept (p.storedOrientation slots)
  let x ← get
  if x.size < slots.dimension then throw (.index (slots.dimension - 1) x.size)
  else p.quantitiesInPlace slots orientation

/-- A layout without a place for an orientation stores only particles without one. -/
theorem storedOrientation_eq_ok {orientation : Option (RotationSlots × Quat α)} :
    p.storedOrientation slots = .ok orientation ↔
      (slots.orientation = none → p.orientation = none) ∧
        slots.orientation.map (fun quat => (⟨quat⟩, p.orientation.getD Quat.identity)) = orientation := by
  constructor
  · intro h
    have ho : slots.orientation = none → p.orientation = none := by
      intro hs
      unfold storedOrientation at h
      rw [hs] at h
      cases hp : p.orientation with
      | none => rfl
      | some q => rw [hp] at h; cases h
    exact ⟨ho, Except.ok.inj ((storedOrientation_eq ho).symm.trans h)⟩
  · rintro ⟨ho, rfl⟩
    exact storedOrientation_eq ho

/-- **Quantity by quantity** a particle is added where its positions exist. -/
theorem quantities_add {orientation : Option (RotationSlots × Quat α)}
    (ho : p.storedOrientation slots = .ok orientation) (h : slots.FitsIn x.size) :
    Components.Adds (Placed.indices slots) x (p.quantitiesInPlace slots orientation)
      (p.encodeInto slots x) := by
  have hadd : ∀ {y : Components α} {es : List (ℕ × α)}, y.size = x.size →
      (∀ e ∈ es, e.1 ∈ Placed.indices slots) → Components.Adds (Placed.indices slots) y
        (Components.depositInPlace es) (y.deposit es) := by
    intro y es hy hes
    refine Components.Adds.deposit (fun e he => ?_) hes
    rw [hy]
    exact ParticleSlots.fitsIn_iff.1 h _ (hes e he)
  obtain ⟨hmass, hposition, hvelocity, hacceleration, hforce, hquat⟩ :=
    ParticleSlots.forall_mem_indices.1 fun i (hi : i ∈ Placed.indices slots) => hi
  have hzip : ∀ {s : Slots 3} (v : Vec3 α), (∀ i ∈ Placed.indices s, i ∈ Placed.indices slots) →
      ∀ e ∈ s.positions.toList.zip v.toList, e.1 ∈ Placed.indices slots :=
    fun v hs e he => hs _ (List.of_mem_zip he).1
  unfold encodeInto
  rw [ho]
  show Components.Adds _ x _ (ite (x.size < slots.dimension) _ _)
  rw [if_neg (not_lt.2 h.dimension_le)]
  refine .bind (hadd rfl (List.forall_mem_singleton.2 hmass)) fun y₁ h₁ => ?_
  refine .bind (hadd h₁ (hzip _ hposition)) fun y₂ h₂ => ?_
  refine .bind (hadd (h₂.trans h₁) (hzip _ hvelocity)) fun y₃ h₃ => ?_
  have h₃ := h₃.trans (h₂.trans h₁)
  refine .bind (hadd h₃ (hzip _ hacceleration)) fun y₄ h₄ => ?_
  refine .bind (hadd (h₄.trans h₃) (hzip _ hforce)) fun y₅ h₅ => ?_
  obtain ⟨-, rfl⟩ := storedOrientation_eq_ok.1 ho
  cases hq : slots.orientation with
  | none => exact .refl
  | some quat =>
    refine hadd (h₅.trans (h₄.trans h₃)) fun e he => hquat quat hq _ ?_
    exact List.mem_map_of_mem (f := Prod.fst) he

/-- **A particle is encoded where its positions exist**, and only there. -/
theorem encodeInto_ok_iff (hs : Placed.Addressable slots) : (∃ y, p.encodeInto slots x = .ok y) ↔
    (slots.orientation = none → p.orientation = none) ∧ slots.dimension ≤ x.size := by
  constructor
  · rintro ⟨y, h⟩
    obtain ⟨orientation, ho, h⟩ := bind_eq_ok.1 h
    refine ⟨(storedOrientation_eq_ok.1 ho).1, ?_⟩
    by_contra hlt
    change ite (x.size < slots.dimension) _ _ = _ at h
    rw [if_pos (not_le.1 hlt)] at h
    cases h
  · rintro ⟨ho, h⟩
    have hfit := (ParticleSlots.dimension_le_iff hs).1 h
    obtain ⟨y, hy, -⟩ := quantities_add (storedOrientation_eq ho) hfit
    exact ⟨y, hy⟩

/-- **Encoding in place** leaves the state as it was unless it adds the whole particle. -/
theorem ran_encodeInPlace (hs : Placed.Addressable slots) (p : Particle α) (x : Components α) :
    (p.encodeInPlace slots).ran x = settled x (p.encodeInto slots x) := by
  unfold encodeInPlace
  rw [Recording.ran_bind, Recording.ran_liftExcept]
  cases ho : p.storedOrientation slots with
  | error fault =>
    unfold encodeInto
    rw [ho]
    rfl
  | ok orientation =>
    dsimp only
    rw [Recording.ran_bind, Recording.ran_get]
    dsimp only
    split_ifs with h
    · unfold encodeInto
      rw [ho]
      show _ = settled x (ite (x.size < slots.dimension) _ _)
      rw [if_pos h]
      rfl
    · have hfit := (ParticleSlots.dimension_le_iff hs).1 (not_lt.1 h)
      obtain ⟨y, hy, hran, -⟩ := quantities_add ho hfit
      rw [hran, hy]
      rfl

end Particle

/-- **One dimension for layout, laws and states.** Let a layout place the quantities of a particle at any
positions that some state can have, some of them perhaps at the same. A solver of its laws is made for
states of dimension `n` if settings and scales pass their checks and `n` is at least the dimension of the
layout, and in no other case. A particle can be encoded in a state of at least that dimension, unless it has
an orientation that the layout has no place for, and in no other case. Only components at positions of the
layout change then, and no component changes where encoding fails. -/
theorem layout_dimension_exact [Scalar α] (slots : ParticleSlots) (hs : Placed.Addressable slots)
    (field : Gravity α) (scales : Scales α) (settings : Settings α) :
    (∀ n, (∃ solver, Solver.make n (slots.terms scales field) settings = .ok solver) ↔
      settings.check = .ok () ∧ scales.check = .ok () ∧ slots.dimension ≤ n) ∧
    ∀ (p : Particle α) (x : Components α),
      (p.encodeInPlace slots).ran x = settled x (p.encodeInto slots x) ∧
      ((∃ y, p.encodeInto slots x = .ok y) ↔
        (slots.orientation = none → p.orientation = none) ∧ slots.dimension ≤ x.size) ∧
      ∀ y, p.encodeInto slots x = .ok y →
        y.size = x.size ∧ ∀ i ∉ Placed.indices slots, y[i]? = x[i]? := by
  refine ⟨fun n => ParticleSlots.make_terms_iff hs, fun p x => ⟨Particle.ran_encodeInPlace hs p x,
    Particle.encodeInto_ok_iff hs, fun y hy => ?_⟩⟩
  obtain ⟨ho, hdim⟩ := (Particle.encodeInto_ok_iff hs).1 ⟨y, hy⟩
  have hfit := (ParticleSlots.dimension_le_iff hs).1 hdim
  obtain ⟨z, hz, -, hframe⟩ := Particle.quantities_add (Particle.storedOrientation_eq ho) hfit
  obtain rfl : y = z := Except.ok.inj (hy.symm.trans hz)
  exact hframe

/-- Velocity and position share their components, and the orientation stands across other quantities. -/
def entangled : ParticleSlots :=
  ⟨⟨0⟩, ⟨#v[1, 2, 3]⟩, ⟨#v[3, 1, 2]⟩, ⟨#v[4, 4, 4]⟩, ⟨#v[5, 0, 6]⟩, some ⟨6, 8, 1, 9⟩⟩

/-- A particle of mass two at rest. -/
def resting : Particle ℚ := .atRest 2 #v[4, 2, 1]

/-- The layout needs ten components, and nothing stands at position seven. -/
theorem layout_dimension_exact_entangled :
    (∃ solver, Solver.make 10 (entangled.terms Scales.unit ⟨#v[0, 0, -10]⟩)
      (⟨.powell, 1, 1, 2, 5⟩ : Settings ℚ) = .ok solver) ∧
    (∃ y, resting.encodeInto entangled (.zeros 11) = .ok y ∧ y[7]? = some 0 ∧ y[10]? = some 0) ∧
    (resting.encodeInPlace entangled).ran (.zeros 9) = (.error (.index 9 9), .zeros 9) := by
  obtain ⟨hsolver, hencode⟩ := layout_dimension_exact entangled (by decide) ⟨#v[0, 0, -10]⟩
    Scales.unit (⟨.powell, 1, 1, 2, 5⟩ : Settings ℚ)
  refine ⟨(hsolver 10).2 ⟨by decide +kernel, by decide +kernel, by decide⟩, ?_, ?_⟩
  · obtain ⟨-, hok, hframe⟩ := hencode resting (.zeros 11)
    obtain ⟨y, hy⟩ := hok.2 ⟨by decide, by decide⟩
    exact ⟨y, hy, (hframe y hy).2 7 (by decide), (hframe y hy).2 10 (by decide)⟩
  · exact (hencode resting (.zeros 9)).1

end EnergyStep
