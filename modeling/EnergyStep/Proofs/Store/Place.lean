import EnergyStep.Proofs.Store.InPlace
import EnergyStep.Proofs.Store.Layout

/-!
# Quantities in a state

A value of any kind is a list of components, for the positions of a place of this kind. Adding, reading and
the checks before them are written once for every kind, and an axis with an angle puts two kinds together.
In terms of positions and components they all do the same: what is added is added position by position, so
that in exact arithmetic the order never matters, and what is read is what stands at the positions.

* `Place.Value`, `Place.parts`: the values of a place, and their components.
* `Place.add`, `Place.addInPlace`, `Place.read`: adding and reading at any place.
* `Place.valueAt`, `Place.interpret`: what stands at a place, and what it stands for.
* `Place.add_eq_ok`, `Place.read_of_fits`: adding and reading in terms of positions.
* `place_laws`: the laws that places of every kind obey.
-/

namespace EnergyStep

variable {α : Type}

theorem Quat.eq_of_components {q r : Quat α} (h : [q.w, q.i, q.j, q.k] = [r.w, r.i, r.j, r.k]) :
    q = r := by
  cases q; cases r
  simpa using h

namespace Place

/-- The values that a place is for. -/
def Value (α : Type) : Place → Type
  | .scalar _ => α
  | .vector n _ => Vector α n
  | .list _ => Components α
  | .quat _ => Quat α
  | .rotation _ => Quat α
  | .axisAngle _ => AxisAngle α

/-- The components of a value, in the order of the positions. -/
def parts : (p : Place) → p.Value α → List α
  | .scalar _, a => [a]
  | .vector _ _, v => Vector.toList v
  | .list _, v => Array.toList v
  | .quat _, q => [q.w, q.i, q.j, q.k]
  | .rotation _, q => [q.w, q.i, q.j, q.k]
  | .axisAngle _, r => r.axis.toList ++ [r.angle]

/-- There are as many components as positions. Only the length of a list is not fixed by its kind. -/
def Matches (p : Place) (v : p.Value α) : Prop := (p.parts v).length = (Placed.indices p).length

/-- What to add, and where, to add a value. -/
def entries (p : Place) (v : p.Value α) : List (ℕ × α) := (Placed.indices p).zip (p.parts v)

/-- The value that the components at the positions make up. -/
def valueAt (σ : ℕ → α) : (p : Place) → p.Value α
  | .scalar s => σ s.index
  | .vector _ s => s.positions.map σ
  | .list s => (s.positions.map σ).toArray
  | .quat s => (⟨σ s.w, σ s.i, σ s.j, σ s.k⟩ : Quat α)
  | .rotation s => (⟨σ s.quat.w, σ s.quat.i, σ s.quat.j, σ s.quat.k⟩ : Quat α)
  | .axisAngle s => (⟨s.axis.positions.map σ, σ s.angle.index⟩ : AxisAngle α)

theorem parts_valueAt (σ : ℕ → α) (p : Place) : p.parts (p.valueAt σ) = (Placed.indices p).map σ := by
  cases p with
  | scalar s => rfl
  | vector n s => exact Vector.toList_map
  | list s => rfl
  | quat s => rfl
  | rotation s => rfl
  | axisAngle s =>
    show (s.axis.positions.map σ).toList ++ [σ s.angle.index] =
      (s.axis.positions.toList ++ [s.angle.index]).map σ
    rw [Vector.toList_map, List.map_append]
    rfl

/-- A value is determined by its components. -/
theorem parts_injective (p : Place) : Function.Injective (p.parts (α := α)) := by
  intro v w h
  cases p with
  | scalar s => exact List.singleton_injective h
  | vector n s => exact Vector.toList_inj.1 h
  | list s => exact Array.toList_inj.1 h
  | quat s => exact Quat.eq_of_components h
  | rotation s => exact Quat.eq_of_components h
  | axisAngle s =>
    cases v; cases w
    obtain ⟨haxis, hangle⟩ := List.append_inj' h rfl
    obtain rfl := Vector.toList_inj.1 haxis
    obtain rfl := List.singleton_injective hangle
    rfl

theorem map_fst_entries {p : Place} {v : p.Value α} (hv : p.Matches v) :
    (p.entries v).map Prod.fst = Placed.indices p := List.map_fst_zip (le_of_eq hv.symm)

theorem forall_mem_entries {p : Place} {v : p.Value α} (hv : p.Matches v) {n : ℕ} :
    (∀ e ∈ p.entries v, e.1 < n) ↔ Placed.FitsIn p n := by
  unfold Placed.FitsIn
  rw [← map_fst_entries hv, List.forall_mem_map]

section

variable [Scalar α]

/-- The state with the value added. -/
def add : (p : Place) → Components α → p.Value α → Except (Fault α) (Components α)
  | .scalar s, x, a => s.add x a
  | .vector _ s, x, v => s.add x v
  | .list s, x, v => s.add x v
  | .quat s, x, q => s.add x q
  | .rotation s, x, q => s.add x q
  | .axisAngle s, x, r => s.add x r

/-- Adds the value to a state that is kept in one place. -/
def addInPlace : (p : Place) → p.Value α → Components.InPlace α PUnit
  | .scalar s, a => s.addInPlace a
  | .vector _ s, v => s.addInPlace v
  | .list s, v => s.addInPlace v
  | .quat s, q => s.addInPlace q
  | .rotation s, q => s.addInPlace q
  | .axisAngle s, r => s.addInPlace r

theorem ran_addInPlace (p : Place) (x : Components α) (v : p.Value α) :
    (p.addInPlace v).ran x = settled x (p.add x v) := by
  cases p with
  | scalar s => exact s.ran_addInPlace x v
  | vector n s => exact s.ran_addInPlace x v
  | list s => exact s.ran_addInPlace x v
  | quat s => exact s.ran_addInPlace x v
  | rotation s => exact s.ran_addInPlace x v
  | axisAngle s => exact s.ran_addInPlace x v

/-- **A value is added position by position**, where all the positions exist. -/
theorem add_eq_ok {p : Place} {v : p.Value α} (hv : p.Matches v) {x y : Components α} :
    p.add x v = .ok y ↔ Placed.FitsIn p x.size ∧ x.bumpAll (p.entries v) = y := by
  have hdeposit : x.deposit (p.entries v) = .ok y ↔
      Placed.FitsIn p x.size ∧ x.bumpAll (p.entries v) = y := by
    rw [Components.deposit_eq_ok, forall_mem_entries hv]
  cases p with
  | scalar s => exact hdeposit
  | vector n s => exact hdeposit
  | list s =>
    have hlength : (checkDimension (α := α) .mappedVector s.length v.size) = .ok () :=
      checkDimension_eq_ok.2 hv.symm
    rw [← hdeposit]
    show SlotList.add s x v = _ ↔ _
    unfold SlotList.add
    rw [hlength]
    exact Iff.rfl
  | quat s => exact hdeposit
  | rotation s => exact hdeposit
  | axisAngle s =>
    have hentries : (Place.axisAngle s).entries v =
        s.axis.positions.toList.zip v.axis.toList ++ [(s.angle.index, v.angle)] :=
      List.zip_append (Vector.length_toList.trans Vector.length_toList.symm)
    rw [← hdeposit, hentries, Components.deposit_eq_ok, List.forall_mem_append,
      List.forall_mem_singleton, Components.bumpAll_append]
    show AxisAngleSlots.add s x v = _ ↔ _
    unfold AxisAngleSlots.add
    simp only [bind_eq_ok]
    constructor
    · rintro ⟨_, hangle, y, haxis, h⟩
      obtain ⟨hfit, rfl⟩ := Components.deposit_eq_ok.1 haxis
      exact ⟨⟨hfit, checkIndex_eq_ok.1 hangle⟩, (Components.deposit_eq_ok.1 h).2⟩
    · rintro ⟨⟨haxis, hangle⟩, h⟩
      refine ⟨(), checkIndex_eq_ok.2 hangle, _, Components.deposit_eq haxis, ?_⟩
      refine Components.deposit_eq_ok.2 ⟨List.forall_mem_singleton.2 ?_, h⟩
      rw [Components.size_bumpAll]
      exact hangle

/-- **Two additions** are made where both have all their positions. -/
theorem add_add_eq_ok {p q : Place} {v : p.Value α} {w : q.Value α} (hv : p.Matches v)
    (hw : q.Matches w) {x z : Components α} : (p.add x v >>= (q.add · w)) = .ok z ↔
      (Placed.FitsIn p x.size ∧ Placed.FitsIn q x.size) ∧
        x.bumpAll (p.entries v ++ q.entries w) = z := by
  simp only [bind_eq_ok, add_eq_ok hv, add_eq_ok hw, Components.bumpAll_append]
  constructor
  · rintro ⟨_, ⟨hp, rfl⟩, hq, rfl⟩
    rw [Components.size_bumpAll] at hq
    exact ⟨⟨hp, hq⟩, rfl⟩
  · rintro ⟨⟨hp, hq⟩, rfl⟩
    refine ⟨_, ⟨hp, rfl⟩, ?_, rfl⟩
    rwa [Components.size_bumpAll]

end

section

variable [Angular α]

/-- What stored components stand for: a rotation is the unit quaternion along them, if they have a norm, or
the rotation about the axis that they give, and any other value is what is stored. -/
def interpret : (p : Place) → p.Value α → Except (Fault α) (p.Value α)
  | .scalar _, a => .ok a
  | .vector _ _, v => .ok v
  | .list _, v => .ok v
  | .quat _, q => .ok q
  | .rotation _, q => match Quat.versor? q Scalar.epsilon with
    | some versor => .ok versor
    | none => .error (.argument .zeroRotation)
  | .axisAngle _, r => .ok (AxisAngle.ofAxis r.axis r.angle)

/-- Reads the value. -/
def read : (p : Place) → Components α → Except (Fault α) (p.Value α)
  | .scalar s, x => s.read x
  | .vector _ s, x => s.read x
  | .list s, x => s.read x
  | .quat s, x => s.read x
  | .rotation s, x => s.read x
  | .axisAngle s, x => s.read x

/-- **What is read is what the components at the positions stand for**, after all positions have been
found in order. -/
theorem read_eq (p : Place) (x : Components α) : p.read x =
    (checkIndices x.size (Placed.indices p) >>= fun _ => p.interpret (p.valueAt x.component)) := by
  have hone : ∀ t : Slot, (checkIndices x.size (Placed.indices t) : Except (Fault α) Unit) =
      checkIndex x.size t.index := fun _ => bind_pure_unit
  cases p with
  | scalar s =>
    show _ = (checkIndices x.size (Placed.indices s) >>= _)
    rw [hone]
    rfl
  | vector n s => rfl
  | list s =>
    show ((checkIndices x.size s.positions >>= _) >>= _) = (checkIndices x.size s.positions >>= _)
    cases (checkIndices x.size s.positions : Except (Fault α) Unit) <;> rfl
  | quat s => rfl
  | rotation s =>
    show ((checkIndices x.size (Placed.indices s.quat) >>= _) >>= _) =
      (checkIndices x.size (Placed.indices s.quat) >>= _)
    cases (checkIndices x.size (Placed.indices s.quat) : Except (Fault α) Unit) <;> rfl
  | axisAngle s =>
    -- the positions of the axis are looked for first, then that of the angle
    have happend : (checkIndices x.size (Placed.indices (Place.axisAngle s)) : Except (Fault α) Unit) =
        checkIndices x.size (Placed.indices s.axis) >>= fun _ =>
          checkIndices x.size (Placed.indices s.angle) := List.forM_append
    rw [happend, hone]
    show ((checkIndices x.size (Placed.indices s.axis) >>= _) >>= _) = _
    cases (checkIndices x.size (Placed.indices s.axis) : Except (Fault α) Unit) with
    | error fault => rfl
    | ok _ =>
      show ((checkIndex x.size s.angle.index >>= _) >>= _) = (checkIndex x.size s.angle.index >>= _)
      cases (checkIndex x.size s.angle.index : Except (Fault α) Unit) <;> rfl

/-- Only a rotation can be stored that is none. -/
theorem interpret_eq_ok {p : Place} (hp : ∀ s, p ≠ .rotation s) (v : p.Value α) :
    ∃ w, p.interpret v = .ok w := by
  cases p with
  | rotation s => exact absurd rfl (hp s)
  | _ => exact ⟨_, rfl⟩

/-- A value that can be read stands at positions that exist. -/
theorem read_eq_ok {p : Place} {x : Components α} {w : p.Value α} : p.read x = .ok w ↔
    Placed.FitsIn p x.size ∧ p.interpret (p.valueAt x.component) = .ok w := by
  rw [read_eq, bind_eq_ok]
  constructor
  · rintro ⟨_, hfit, h⟩
    exact ⟨checkIndices_eq_ok.1 hfit, h⟩
  · rintro ⟨hfit, h⟩
    exact ⟨(), checkIndices_eq_ok.2 hfit, h⟩

theorem read_of_fits {p : Place} {x : Components α} (h : Placed.FitsIn p x.size) :
    p.read x = p.interpret (p.valueAt x.component) := by
  rw [read_eq, checkIndices_eq_ok.2 h]
  rfl

theorem read_ok_iff {p : Place} (hp : ∀ s, p ≠ .rotation s) {x : Components α} :
    (∃ w, p.read x = .ok w) ↔ Placed.FitsIn p x.size := by
  simp only [read_eq_ok, exists_and_left, interpret_eq_ok hp, and_true]

/-- **Reading sees the components at the positions** and the length of the state. -/
theorem read_congr {p : Place} {x y : Components α} (hsize : y.size = x.size)
    (h : ∀ i ∈ Placed.indices p, y[i]? = x[i]?) : p.read y = p.read x := by
  have hvalue : p.valueAt y.component = p.valueAt x.component := by
    refine parts_injective p ?_
    rw [parts_valueAt, parts_valueAt]
    exact List.map_congr_left fun i hi => Components.component_congr (h i hi)
  rw [read_eq, read_eq, hsize, hvalue]

end
end Place

section Exact

variable [Exact α]

/-- **What stands at positions of their own** is added to component by component. -/
theorem Components.map_component_bumpAll {x : Components α} {is : List ℕ} (hn : is.Nodup)
    (hfit : ∀ i ∈ is, i < x.size) {l : List α} (hl : l.length = is.length) :
    is.map (x.bumpAll (is.zip l)).component = List.zipWith (· + ·) (is.map x.component) l := by
  have hfst : (is.zip l).map Prod.fst = is := List.map_fst_zip (le_of_eq hl.symm)
  have hadded : ∀ e ∈ is.zip l, (x.bumpAll (is.zip l)).component e.1 = x.component e.1 + e.2 :=
    component_bumpAll_of_mem (by rwa [hfst]) fun e he => hfit _ (List.of_mem_zip he).1
  calc is.map (x.bumpAll (is.zip l)).component
      = ((is.zip l).map Prod.fst).map (x.bumpAll (is.zip l)).component := by rw [hfst]
    _ = (is.zip l).map fun e => x.component e.1 + e.2 := by
      rw [List.map_map]
      exact List.map_congr_left hadded
    _ = List.zipWith (fun i a => x.component i + a) is l := List.map_zip_eq_zipWith
    _ = List.zipWith (· + ·) (is.map x.component) l := List.zipWith_map_left.symm

/-- Amounts that are added to zeros. -/
theorem zipWith_zero_add {is : List ℕ} {l : List α} (hl : l.length = is.length) :
    List.zipWith (· + ·) (is.map fun _ => 0) l = l := by
  refine List.ext_getElem (by simp [hl]) fun k h₁ h₂ => ?_
  simp

end Exact

/-- **The laws of places.** Let `p` be the place of a number, of a vector of fixed or of any length, of a
quaternion, or of an axis with an angle, at positions that may repeat. A value with as many components as
there are positions can be added to a state, and one can be read, exactly if the state has all the
positions; if some state can have them, that is what the check on its dimension says. In place, an addition
that fails leaves the state as it was. One that is made adds to each component the sum of the amounts for it
and changes no other, so the order of additions does not matter. At positions that do not repeat the
components that are read add up one by one, and are those of the value where there were zeros. What stands
at a place with other positions is read as before. -/
theorem place_laws [Circular α] (p : Place) (x : Components α) {v : p.Value α} (hv : p.Matches v) :
    ((∃ y, p.add x v = .ok y) ↔ Placed.FitsIn p x.size) ∧
    ((∀ s, p ≠ .rotation s) → ((∃ w, p.read x = .ok w) ↔ Placed.FitsIn p x.size)) ∧
    (Placed.Addressable p → (Placed.fits p x.size = true ↔ Placed.FitsIn p x.size)) ∧
    (p.addInPlace v).ran x = settled x (p.add x v) ∧
    (∀ (q : Place) (w : q.Value α) (z : Components α), q.Matches w →
      ((p.add x v >>= (q.add · w)) = .ok z ↔ (q.add x w >>= (p.add · v)) = .ok z)) ∧
    ∀ y, p.add x v = .ok y → y.size = x.size ∧
      (∀ i < x.size, y.component i = x.component i + total (p.entries v) i) ∧
      (∀ i ∉ Placed.indices p, y[i]? = x[i]?) ∧
      p.read x = p.interpret (p.valueAt x.component) ∧
      p.read y = p.interpret (p.valueAt y.component) ∧
      ((Placed.indices p).Nodup →
        p.parts (p.valueAt y.component) =
          List.zipWith (· + ·) (p.parts (p.valueAt x.component)) (p.parts v) ∧
        ((∀ i ∈ Placed.indices p, x.component i = 0) → p.valueAt y.component = v)) ∧
      ∀ q : Place, (Placed.indices p).Disjoint (Placed.indices q) → q.read y = q.read x := by
  refine ⟨?_, fun hp => Place.read_ok_iff hp, fun hp => hp.fits_iff, p.ran_addInPlace x v,
    fun q w z hw => ?_, fun y hy => ?_⟩
  · simp only [Place.add_eq_ok hv, exists_and_left, exists_eq', and_true]
  · rw [Place.add_add_eq_ok hv hw, Place.add_add_eq_ok hw hv,
      Components.bumpAll_perm List.perm_append_comm]
    exact and_congr_left' and_comm
  · obtain ⟨hfit, rfl⟩ := (Place.add_eq_ok hv).1 hy
    have hsize := Components.size_bumpAll (p.entries v) x
    have hframe : ∀ i ∉ Placed.indices p, (x.bumpAll (p.entries v))[i]? = x[i]? :=
      fun i hi => Components.getElem?_bumpAll _ (by rwa [Place.map_fst_entries hv])
    refine ⟨hsize, fun i hi => Components.component_bumpAll _ hi, hframe, Place.read_of_fits hfit,
      Place.read_of_fits (by rwa [hsize]), fun hn => ?_, fun q hq => Place.read_congr hsize fun i hi =>
        hframe i fun hip => hq hip hi⟩
    have hparts : p.parts (p.valueAt (x.bumpAll (p.entries v)).component) =
        List.zipWith (· + ·) (p.parts (p.valueAt x.component)) (p.parts v) := by
      rw [Place.parts_valueAt, Place.parts_valueAt]
      exact Components.map_component_bumpAll hn hfit hv
    refine ⟨hparts, fun hzero => p.parts_injective (hparts.trans ?_)⟩
    rw [Place.parts_valueAt, List.map_congr_left hzero]
    exact zipWith_zero_add hv

/-- An axis and an angle at positions out of order. -/
def turning : Place := .axisAngle ⟨⟨#v[3, 0, 2]⟩, ⟨5⟩⟩

/-- A vector whose components stand at one position. -/
def heap : Place := .vector 2 ⟨#v[1, 1]⟩

/-- Adding where all positions are there, where the last is not, and twice at one position. -/
theorem place_laws_turning :
    (∃ y : Components ℝ, turning.add (.zeros 6) (⟨#v[0, 0, 1], 2⟩ : AxisAngle ℝ) = .ok y ∧
      turning.valueAt y.component = (⟨#v[0, 0, 1], 2⟩ : AxisAngle ℝ) ∧
      heap.read y = heap.read (.zeros 6)) ∧
    (turning.addInPlace (⟨#v[0, 0, 1], 2⟩ : AxisAngle ℝ)).ran (.zeros 5) =
      (.error (.index 5 5), .zeros 5) ∧
    ∃ y : Components ℝ, heap.add #[0, 1] (#v[2, 3] : Vector ℝ 2) = .ok y ∧ y.component 1 = 6 := by
  refine ⟨?_, ?_, ?_⟩
  · obtain ⟨hadd, -, hvalid, -, -, hlaws⟩ := place_laws turning (.zeros 6)
      (v := (⟨#v[0, 0, 1], 2⟩ : AxisAngle ℝ)) rfl
    have hfits : Placed.fits turning (Components.zeros 6 : Components ℝ).size = true := by
      rw [Components.size_zeros]
      decide
    obtain ⟨y, hy⟩ := hadd.2 ((hvalid (by decide)).1 hfits)
    obtain ⟨-, -, -, -, -, hown, hother⟩ := hlaws y hy
    have hdisjoint : (Placed.indices turning).Disjoint (Placed.indices heap) := by
      unfold List.Disjoint
      decide
    exact ⟨y, hy, (hown (by decide)).2 fun i _ => Components.component_zeros 6 i, hother heap hdisjoint⟩
  · obtain ⟨-, -, -, hran, -⟩ := place_laws turning (.zeros 5) (v := (⟨#v[0, 0, 1], 2⟩ : AxisAngle ℝ)) rfl
    exact hran
  · obtain ⟨hadd, -, -, -, -, hlaws⟩ := place_laws heap #[0, 1] (v := (#v[2, 3] : Vector ℝ 2)) rfl
    obtain ⟨y, hy⟩ := hadd.2 (by decide)
    obtain ⟨-, hsum, -⟩ := hlaws y hy
    have htotal : total (heap.entries (#v[2, 3] : Vector ℝ 2)) 1 = 2 + (3 + 0) := rfl
    refine ⟨y, hy, (hsum 1 Nat.one_lt_two).trans ?_⟩
    rw [htotal]
    show (1 : ℝ) + _ = 6
    norm_num

end EnergyStep
