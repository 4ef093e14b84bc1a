import EnergyStep.Proofs.Law.Evaluation
import EnergyStep.Particle.State

/-!
# A particle in a state

A state that has the positions of a particle holds one: reading gives what stands there, and a
particle that is added where nothing stands is there afterwards, because a layout gives every quantity
positions of its own.

* `ParticleSlots.particleAt`: the particle that the components at its positions make up.
* `ParticleSlots.Holds`, `ParticleSlots.holds_iff`: a particle stands at its positions.
* `Particle.encodeInto_eq`, `Particle.decode_eq`: adding and reading, where the positions exist.
* `ParticleSlots.Vacant`: states in which nothing stands at the positions of the particle.
* `ParticleSlots.holds_bumpAll`: a particle added to such a state.
-/

namespace EnergyStep

variable {α : Type} [Exact α]

/-- The quaternion that the components at its positions make up. -/
def QuatSlots.quatAt (s : QuatSlots) (σ : ℕ → α) : Quat α := ⟨σ s.w, σ s.i, σ s.j, σ s.k⟩

omit [Exact α] in
theorem QuatSlots.entries_at_iff {s : QuatSlots} {σ : ℕ → α} {q : Quat α} :
    (∀ e ∈ s.entries q, σ e.1 = e.2) ↔ s.quatAt σ = q := by
  cases q
  simp [entries, quatAt]

omit [Exact α] in
theorem Slots.zip_at_iff {n : ℕ} {s : Slots n} {σ : ℕ → α} {v : Vector α n} :
    (∀ e ∈ s.positions.toList.zip v.toList, σ e.1 = e.2) ↔ s.positions.map σ = v := by
  constructor
  · intro h
    apply Vector.ext
    intro i hi
    rw [Vector.getElem_map]
    refine h (s.positions[i], v[i]) (List.mem_iff_getElem.2 ⟨i, by simpa using hi, by simp⟩)
  · rintro rfl e he
    rw [Vector.toList_map, ← List.map_prod_left_eq_zip] at he
    obtain ⟨i, -, rfl⟩ := List.mem_map.1 he
    rfl

theorem Slots.forall_mem_indices {n : ℕ} {s : Slots n} {P : ℕ → Prop} :
    (∀ i ∈ Placed.indices s, P i) ↔ ∀ k : Fin n, P (s.components.get k).index := by
  have hmem : ∀ i, i ∈ Placed.indices s ↔ ∃ k : Fin n, (s.components.get k).index = i := by
    intro i
    simp [Placed.indices, components, Vector.get_eq_getElem, Vector.mem_iff_getElem, Fin.exists_iff]
  simp only [hmem, forall_exists_index, forall_apply_eq_imp_iff]

namespace ParticleSlots

/-- **The particle at the positions**, its orientation left out, from the components of a state. -/
def particleAt (slots : ParticleSlots) (σ : ℕ → α) : Particle α where
  mass := σ slots.mass.index
  position := slots.position.positions.map σ
  velocity := slots.velocity.positions.map σ
  acceleration := slots.acceleration.positions.map σ
  force := slots.force.positions.map σ
  orientation := none

/-- What to add, and where, to add a particle. -/
def entries (slots : ParticleSlots) (p : Particle α) : List (ℕ × α) :=
  (slots.mass.index, p.mass) ::
    (slots.position.positions.toList.zip p.position.toList ++
      slots.velocity.positions.toList.zip p.velocity.toList ++
      slots.acceleration.positions.toList.zip p.acceleration.toList ++
      slots.force.positions.toList.zip p.force.toList ++
      slots.orientation.elim [] fun quat => quat.entries (p.orientation.getD Quat.identity))

theorem map_fst_entries (slots : ParticleSlots) (p : Particle α) :
    (slots.entries p).map Prod.fst = Placed.indices slots := by
  have hzip : ∀ (s : Slots 3) (v : Vec3 α),
      (s.positions.toList.zip v.toList).map Prod.fst = Placed.indices s :=
    fun s v => List.map_fst_zip (by simp)
  have hquat : (slots.orientation.elim [] fun quat =>
      quat.entries (p.orientation.getD Quat.identity)).map Prod.fst =
        slots.orientation.elim [] Placed.indices := by
    cases slots.orientation <;> rfl
  simp only [entries, List.map_cons, List.map_append, hzip, hquat]
  rfl

/-- **The particle stands at the positions**: each component is the one to add, of a particle without
orientation that of the identity. -/
def Holds (slots : ParticleSlots) (σ : ℕ → α) (p : Particle α) : Prop :=
  ∀ e ∈ slots.entries p, σ e.1 = e.2

/-- What stands at the positions of a particle is this particle, quantity by quantity. -/
theorem holds_iff {slots : ParticleSlots} {σ : ℕ → α} {p : Particle α} : slots.Holds σ p ↔
    slots.particleAt σ = { p with orientation := none } ∧
      ∀ quat, slots.orientation = some quat → quat.quatAt σ = p.orientation.getD Quat.identity := by
  have hquat : (∀ e ∈ slots.orientation.elim [] fun quat =>
      quat.entries (p.orientation.getD Quat.identity), σ e.1 = e.2) ↔
        ∀ quat, slots.orientation = some quat →
          quat.quatAt σ = p.orientation.getD Quat.identity := by
    cases slots.orientation with
    | none => simp
    | some quat => simpa using QuatSlots.entries_at_iff
  unfold Holds entries particleAt
  simp only [List.forall_mem_cons, List.forall_mem_append, Slots.zip_at_iff, hquat,
    Particle.mk.injEq, and_true, and_assoc]

/-- A statement about all positions, quantity by quantity. -/
theorem forall_mem_indices {slots : ParticleSlots} {P : ℕ → Prop} :
    (∀ i ∈ Placed.indices slots, P i) ↔ P slots.mass.index ∧
      (∀ i ∈ Placed.indices slots.position, P i) ∧ (∀ i ∈ Placed.indices slots.velocity, P i) ∧
      (∀ i ∈ Placed.indices slots.acceleration, P i) ∧ (∀ i ∈ Placed.indices slots.force, P i) ∧
      ∀ quat, slots.orientation = some quat → ∀ i ∈ Placed.indices quat, P i := by
  have hquat : (∀ i ∈ slots.orientation.elim [] Placed.indices, P i) ↔
      ∀ quat, slots.orientation = some quat → ∀ i ∈ Placed.indices quat, P i := by
    cases slots.orientation <;> simp
  have hmass : (∀ i ∈ Placed.indices slots.mass, P i) ↔ P slots.mass.index := by
    simp [Placed.indices]
  have hall : (∀ i ∈ Placed.indices slots, P i) ↔
      ∀ i ∈ Placed.indices slots.mass ++ Placed.indices slots.position ++
        Placed.indices slots.velocity ++ Placed.indices slots.acceleration ++
        Placed.indices slots.force ++ slots.orientation.elim [] Placed.indices, P i := Iff.rfl
  rw [hall]
  simp only [List.forall_mem_append, hquat, hmass, and_assoc]

/-- States with `n` components have all positions of the particle. -/
structure FitsIn (slots : ParticleSlots) (n : ℕ) : Prop where
  mass : slots.mass.index < n
  position : ∀ i ∈ Placed.indices slots.position, i < n
  velocity : ∀ i ∈ Placed.indices slots.velocity, i < n
  acceleration : ∀ i ∈ Placed.indices slots.acceleration, i < n
  force : ∀ i ∈ Placed.indices slots.force, i < n
  orientation : ∀ quat, slots.orientation = some quat → ∀ i ∈ Placed.indices quat, i < n

theorem fitsIn_iff {slots : ParticleSlots} {n : ℕ} :
    slots.FitsIn n ↔ ∀ i ∈ Placed.indices slots, i < n := by
  rw [forall_mem_indices]
  constructor
  · rintro ⟨hm, hx, hv, ha, hf, hq⟩
    exact ⟨hm, hx, hv, ha, hf, hq⟩
  · rintro ⟨hm, hx, hv, ha, hf, hq⟩
    exact ⟨hm, hx, hv, ha, hf, hq⟩

/-- States that have the positions have the dimension of the particle. -/
theorem FitsIn.dimension_le {slots : ParticleSlots} {n : ℕ} (h : slots.FitsIn n) : slots.dimension ≤ n :=
  Placed.FitsIn.requiredDimension_le (fitsIn_iff.1 h)

/-- **The dimension of an addressable particle** is that of the states that have its positions. -/
theorem dimension_le_iff {slots : ParticleSlots} {n : ℕ} (hs : Placed.Addressable slots) :
    slots.dimension ≤ n ↔ slots.FitsIn n := by
  rw [fitsIn_iff]
  exact hs.requiredDimension_le

end ParticleSlots

/-- A stored quaternion of norm one is read as a rotation. -/
theorem RotationSlots.read_of_normSq_eq_one {s : QuatSlots} {x : Components α} {q : Quat α}
    (h : s.read x = .ok q) (hq : q.normSq = 1) :
    RotationSlots.read ⟨s⟩ x = .ok q.normalized := by
  have hleast : q.normSq > Scalar.epsilon * Scalar.epsilon := by
    rw [hq]
    norm_num [Scalar.epsilon]
  have hversor : q.versor? Scalar.epsilon = some q.normalized := if_pos hleast
  refine bind_eq_ok.2 ⟨q, h, ?_⟩
  rw [hversor]
  rfl

namespace Particle

variable {slots : ParticleSlots} {p : Particle α} {x : Components α}

omit [Exact α] in
theorem storedOrientation_eq [Scalar α] (ho : slots.orientation = none → p.orientation = none) :
    p.storedOrientation slots =
      .ok (slots.orientation.map fun quat => (⟨quat⟩, p.orientation.getD Quat.identity)) := by
  unfold storedOrientation
  cases hs : slots.orientation with
  | some quat => rfl
  | none => rw [ho hs]; rfl

/-- **A particle is added where its positions exist.** -/
theorem encodeInto_eq (ho : slots.orientation = none → p.orientation = none)
    (h : slots.FitsIn x.size) : p.encodeInto slots x = .ok (x.bumpAll (slots.entries p)) := by
  have hsize : ¬ x.size < slots.dimension := not_lt.2 h.dimension_le
  unfold encodeInto
  refine bind_eq_ok.2 ⟨_, storedOrientation_eq ho, ?_⟩
  rw [if_neg hsize]
  -- one quantity after the other, in a state that keeps its size
  refine bind_eq_ok.2 ⟨_, Slot.add_eq _ h.mass, ?_⟩
  refine bind_eq_ok.2 ⟨_, Slots.add_eq _ (by simpa using h.position), ?_⟩
  refine bind_eq_ok.2 ⟨_, Slots.add_eq _ (by simpa using h.velocity), ?_⟩
  refine bind_eq_ok.2 ⟨_, Slots.add_eq _ (by simpa using h.acceleration), ?_⟩
  refine bind_eq_ok.2 ⟨_, Slots.add_eq _ (by simpa using h.force), ?_⟩
  simp only [← Components.bumpAll_append]
  cases hq : slots.orientation with
  | some quat =>
    have hfit := h.orientation quat hq
    refine (QuatSlots.add_eq _ (by simpa using hfit)).trans ?_
    simp only [← Components.bumpAll_append, ParticleSlots.entries, hq]
    rfl
  | none =>
    simp only [ParticleSlots.entries, hq]
    show Except.ok _ = _
    simp

/-- **What a state holds that has the positions of a particle.** -/
theorem decode_eq (h : slots.FitsIn x.size) : decode slots x = (decodeOrientation slots x).map
    fun orientation => { slots.particleAt x.component with orientation := orientation } := by
  have hread : ∀ {s : Slots 3}, (∀ i ∈ Placed.indices s, i < x.size) →
      s.read x = .ok (s.positions.map x.component) := fun hs => Slots.read_eq_ok.2 ⟨hs, rfl⟩
  unfold decode
  rw [Slot.read_eq_ok.2 ⟨h.mass, rfl⟩, hread h.position, hread h.velocity, hread h.acceleration,
    hread h.force]
  cases decodeOrientation slots x <;> rfl

end Particle

namespace ParticleSlots

variable {slots : ParticleSlots} {base : Components α}

/-- **Nothing stands at the positions** of the particle, but they are there. -/
structure Vacant (slots : ParticleSlots) (base : Components α) : Prop where
  fits : slots.FitsIn base.size
  zero : ∀ i ∈ Placed.indices slots, base.component i = 0

theorem vacant_zeros {n : ℕ} (h : slots.FitsIn n) :
    slots.Vacant (Components.zeros n : Components α) where
  fits := by rwa [Components.size_zeros]
  zero i _ := Components.component_zeros n i

/-- **A particle that is added where nothing stands is there afterwards**, if it has positions of its
own for every quantity. -/
theorem holds_bumpAll (hn : (Placed.indices slots).Nodup) (hb : slots.Vacant base) (p : Particle α) :
    slots.Holds (base.bumpAll (slots.entries p)).component p := by
  have hmem : ∀ e ∈ slots.entries p, e.1 ∈ Placed.indices slots := by
    intro e he
    rw [← map_fst_entries slots p]
    exact List.mem_map_of_mem he
  exact Components.component_of_mem (by rw [map_fst_entries]; exact hn)
    (fun e he => fitsIn_iff.1 hb.fits _ (hmem e he)) fun e he => hb.zero _ (hmem e he)

theorem particleAt_bumpAll (hn : (Placed.indices slots).Nodup) (hb : slots.Vacant base)
    (p : Particle α) : slots.particleAt (base.bumpAll (slots.entries p)).component =
      { p with orientation := none } := (holds_iff.1 (holds_bumpAll hn hb p)).1

omit [Exact α] in
/-- Without an orientation the particle determines the components at its positions. -/
theorem component_eq_of_particleAt_eq {σ τ : ℕ → α} (ho : slots.orientation = none)
    (h : slots.particleAt σ = slots.particleAt τ) : ∀ i ∈ Placed.indices slots, σ i = τ i := by
  simp only [particleAt, Particle.mk.injEq, and_true] at h
  obtain ⟨hm, hx, hv, ha, hf⟩ := h
  have hvec : ∀ {s : Slots 3}, s.positions.map σ = s.positions.map τ →
      ∀ i ∈ Placed.indices s, σ i = τ i := by
    intro s hs
    have hlist := congrArg Vector.toList hs
    rw [Vector.toList_map, Vector.toList_map] at hlist
    exact List.map_inj_left.1 hlist
  refine forall_mem_indices.2 ⟨hm, hvec hx, hvec hv, hvec ha, hvec hf, fun quat hquat => ?_⟩
  rw [ho] at hquat
  cases hquat

/-- The particle has the next positions of the layout, with or without those of an orientation. -/
def NextIn (l : Layout) (slots : ParticleSlots) : Prop :=
  slots = (plain.run l).1 ∨ slots = (oriented.run l).1

theorem indices_plain (l : Layout) : Placed.indices (plain.run l).1 = List.range' l.dimension 13 := by
  rfl

theorem indices_oriented (l : Layout) :
    Placed.indices (oriented.run l).1 = List.range' l.dimension 17 := by
  rfl

theorem NextIn.nodup {l : Layout} (h : slots.NextIn l) : (Placed.indices slots).Nodup := by
  rcases h with rfl | rfl
  · rw [indices_plain]; exact List.nodup_range'
  · rw [indices_oriented]; exact List.nodup_range'

end ParticleSlots
end EnergyStep
