import EnergyStep.Proofs.Store.Disjoint
import EnergyStep.Particle.Slots
import EnergyStep.System.AxisBody

/-!
# Layouts

Whatever a layout is asked for, it grants the next positions and takes them. How many it takes and which
positions it writes into the slots is said in two different places, so that they agree is a statement
about each kind of request; for any sequence of requests it follows that all positions together are the
first ones of the state, one after the other, each of them once.

* `Request`, `Grant`, `allot`: a sequence of requests, and what they are granted.
* `Layout.Takes`, `Request.takes_grant`, `takes_allot`: the positions of a grant, and of many.
* `layouts_never_alias`: all positions that a layout has granted.
-/

namespace EnergyStep

/-- What a layout can be asked for. -/
inductive Request
  | scalar
  | vector (n : ℕ)
  | list (length : ℕ)
  | quat
  | rotation
  | axisAngle
  | particle
  | orientedParticle
  | axisBody

/-- Where a quantity of any kind lives. -/
inductive Place
  | scalar (s : Slot)
  | vector (n : ℕ) (s : Slots n)
  | list (s : SlotList)
  | quat (s : QuatSlots)
  | rotation (s : RotationSlots)
  | axisAngle (s : AxisAngleSlots)
deriving DecidableEq

instance : Placed Place where
  indices
    | .scalar s => Placed.indices s
    | .vector _ s => Placed.indices s
    | .list s => Placed.indices s
    | .quat s => Placed.indices s
    | .rotation s => Placed.indices s
    | .axisAngle s => Placed.indices s

/-- What a request is granted. -/
inductive Grant
  | place (p : Place)
  | particle (slots : ParticleSlots)
  | axisBody (b : AxisBody)

/-- The places of the quantities of a particle. -/
def ParticleSlots.places (slots : ParticleSlots) : List Place :=
  [.scalar slots.mass, .vector 3 slots.position, .vector 3 slots.velocity,
    .vector 3 slots.acceleration, .vector 3 slots.force] ++
    slots.orientation.elim [] fun quat => [.quat quat]

/-- The places of the quantities of a body on one axis. -/
def AxisBody.places (b : AxisBody) : List Place :=
  [.scalar b.mass, .scalar b.position, .scalar b.velocity, .scalar b.acceleration, .scalar b.force]

namespace Grant

/-- All places that have been handed out, in order. -/
def places : Grant → List Place
  | .place p => [p]
  | .particle slots => slots.places
  | .axisBody b => b.places

end Grant

instance : Placed Grant where
  indices g := g.places.flatMap Placed.indices

/-- The layout is asked for one quantity, or for those of a particle or a body. -/
def Request.grant : Request → Allocation Grant
  | .scalar => do pure (.place (.scalar (← Layout.scalar)))
  | .vector n => do pure (.place (.vector n (← Layout.vector n)))
  | .list length => do pure (.place (.list (← Layout.list length)))
  | .quat => do pure (.place (.quat (← Layout.quat)))
  | .rotation => do pure (.place (.rotation (← Layout.rotation)))
  | .axisAngle => do pure (.place (.axisAngle (← Layout.axisAngle)))
  | .particle => do pure (.particle (← ParticleSlots.plain))
  | .orientedParticle => do pure (.particle (← ParticleSlots.oriented))
  | .axisBody => do pure (.axisBody (← AxisBody.allocate))

/-- Requests one after the other. -/
def allot (requests : List Request) : Allocation (List Grant) := requests.mapM Request.grant

namespace Layout

/-- **From one layout to a later one** the next positions have been taken, in order. -/
def Takes (l : Layout) (indices : List ℕ) (l' : Layout) : Prop :=
  ∃ length, indices = List.range' l.dimension length ∧ l'.dimension = l.dimension + length

variable {l l' l'' : Layout} {is js : List ℕ}

theorem Takes.trans (h : l.Takes is l') (h' : l'.Takes js l'') : l.Takes (is ++ js) l'' := by
  obtain ⟨m, rfl, hm⟩ := h
  obtain ⟨n, rfl, hn⟩ := h'
  refine ⟨m + n, ?_, by omega⟩
  rw [hm, List.range'_append_1]

/-- What has been taken since nothing was, is everything. -/
theorem Takes.eq_range (h : empty.Takes is l) : is = List.range l.dimension := by
  obtain ⟨n, rfl, hn⟩ := h
  rw [hn, List.range_eq_range']
  simp [empty]

end Layout

theorem Slots.indices_consecutive (n start : ℕ) :
    Placed.indices (Slots.consecutive start : Slots n) = List.range' start n := by
  show (Vector.ofFn fun i : Fin n => start + i.val).toList = _
  apply List.ext_getElem
  · simp
  · intro i h₁ h₂
    simp

/-- **A request is granted the next positions**, as many as are taken for it. -/
theorem Request.takes_grant (r : Request) (l : Layout) :
    l.Takes (Placed.indices (r.grant.run l).1) (r.grant.run l).2 := by
  cases r with
  | scalar => exact ⟨1, rfl, rfl⟩
  | vector n => exact ⟨n, (List.append_nil _).trans (Slots.indices_consecutive n l.dimension), rfl⟩
  | list length => exact ⟨length, List.append_nil _, rfl⟩
  | quat => exact ⟨4, rfl, rfl⟩
  | rotation => exact ⟨4, rfl, rfl⟩
  | axisAngle => exact ⟨4, rfl, rfl⟩
  | particle => exact ⟨13, rfl, rfl⟩
  | orientedParticle => exact ⟨17, rfl, rfl⟩
  | axisBody => exact ⟨5, rfl, rfl⟩

/-- **Requests are granted the next positions**, one request after the other. -/
theorem takes_allot : ∀ (requests : List Request) (l : Layout),
    l.Takes (((allot requests).run l).1.flatMap Placed.indices) ((allot requests).run l).2 := by
  intro requests
  induction requests with
  | nil => intro l; exact ⟨0, rfl, rfl⟩
  | cons r requests ih =>
    intro l
    have hrun : (allot (r :: requests)).run l =
        ((r.grant.run l).1 :: ((allot requests).run (r.grant.run l).2).1,
          ((allot requests).run (r.grant.run l).2).2) := by
      unfold allot
      rw [List.mapM_cons]
      rfl
    rw [hrun, List.flatMap_cons]
    exact (r.takes_grant l).trans (ih _)

/-- In a list that grows all numbers are below a bound when the last one is. -/
theorem forall_lt_iff_getLast {l : List ℕ} (h : l.Pairwise (· < ·)) {n : ℕ} :
    (∀ i ∈ l, i < n) ↔ ∀ last ∈ l.getLast?, last + 1 ≤ n := by
  rcases List.eq_nil_or_concat l with rfl | ⟨init, last, rfl⟩
  · simp
  · rw [List.concat_eq_append] at h ⊢
    rw [List.pairwise_append] at h
    simp only [List.getLast?_append, List.getLast?_singleton, Option.some_or, Option.mem_def,
      Option.some.injEq, forall_eq', List.forall_mem_append, List.forall_mem_singleton]
    constructor
    · rintro ⟨-, hlast⟩
      exact hlast
    · intro hlast
      exact ⟨fun i hi => (h.2.2 i hi last (List.mem_singleton.2 rfl)).trans hlast, hlast⟩

/-- **Quantities of one layout never share a component.** After any sequence of requests to a layout from
which nothing has been taken, the positions of all places that it has handed out, in order, are `0`, `1`
and so on up to the dimension of the layout. So the places are accepted as disjoint; if the dimension is a
machine word, a place fits into the states that have a component at its last position, and into no others;
and all fit into the zero state. -/
theorem layouts_never_alias {α : Type} [Scalar α] (requests : List Request) {grants : List Grant}
    {l : Layout} (h : (allot requests).run Layout.empty = (grants, l)) :
    (grants.flatMap Grant.places).flatMap Placed.indices = List.range l.dimension ∧
    (checkDisjoint ((grants.flatMap Grant.places).map Placed.indices) l.dimension :
      Except (Fault α) Unit) = .ok () ∧
    (∀ p ∈ grants.flatMap Grant.places,
      (l.dimension < 2 ^ 64 →
        ∀ n, Placed.fits p n = true ↔ ∀ last ∈ (Placed.indices p).getLast?, last + 1 ≤ n) ∧
      Placed.fits p (l.zeroState : Components α).size = true) := by
  have htakes := takes_allot requests Layout.empty
  rw [h] at htakes
  have hrange : (grants.flatMap Grant.places).flatMap Placed.indices = List.range l.dimension := by
    rw [List.flatMap_assoc]
    exact htakes.eq_range
  have hfit : ∀ p ∈ grants.flatMap Grant.places, Placed.FitsIn p l.dimension := by
    intro p hp i hi
    refine List.mem_range.1 ?_
    rw [← hrange]
    exact List.mem_flatMap.2 ⟨p, hp, hi⟩
  refine ⟨hrange, ?_, fun p hp => ⟨fun hword n => ?_, ?_⟩⟩
  · rw [checkDisjoint_eq_ok, ← List.flatMap_def, hrange]
    exact ⟨fun i hi => List.mem_range.1 hi, List.nodup_range⟩
  · -- the positions of a place stand together among all positions, which grow
    have hsub : (Placed.indices p).Sublist (List.range l.dimension) := by
      rw [← hrange, List.flatMap_def]
      exact List.sublist_flatten_of_mem (List.mem_map_of_mem hp)
    have haddressable : Placed.Addressable p :=
      fun i hi => (hfit p hp i hi).trans_le (Nat.le_sub_one_of_lt hword)
    rw [haddressable.fits_iff]
    exact forall_lt_iff_getLast (List.pairwise_lt_range.sublist hsub)
  · have hsize : (l.zeroState : Components α).size = l.dimension := by
      simp [Layout.zeroState, Components.zeros]
    rw [hsize]
    exact Placed.fits_iff.2 (hfit p hp).requiredDimension_le

/-- Quantities of several kinds, two of them without components. -/
def mixed : List Request :=
  [.scalar, .vector 2, .list 0, .rotation, .axisBody, .orientedParticle, .vector 0, .list 3]

/-- The last quantity stands at the end of thirty-two components. -/
theorem layouts_never_alias_mixed :
    (checkDisjoint ((((allot mixed).run Layout.empty).1.flatMap Grant.places).map Placed.indices) 32 :
      Except (Fault ℚ) Unit) = .ok () ∧
    (∀ n, Placed.fits (Place.list ⟨[29, 30, 31]⟩) n = true ↔ 32 ≤ n) := by
  have hrun : (allot mixed).run Layout.empty = (((allot mixed).run Layout.empty).1, ⟨32⟩) := rfl
  obtain ⟨-, hdisjoint, hplaces⟩ := layouts_never_alias (α := ℚ) mixed hrun
  have hlast : Place.list ⟨[29, 30, 31]⟩ ∈ ((allot mixed).run Layout.empty).1.flatMap Grant.places := by
    decide
  refine ⟨hdisjoint, fun n => ?_⟩
  rw [(hplaces _ hlast).1 (by decide) n]
  exact ⟨fun h => h 31 rfl, by rintro h _ ⟨⟩; exact h⟩

end EnergyStep
