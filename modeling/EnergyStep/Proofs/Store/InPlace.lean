import EnergyStep.Proofs.Recording
import EnergyStep.Proofs.Store.Access

/-!
# Adding to a state in place

A state can be kept in one place and written there. Then an addition is a search for all of its positions
followed by one write for each of them, and a quantity in several parts is several such additions. What a
fault leaves behind is no longer part of the result, so it has to be said: nothing has been written.

* `Components.depositInPlace`: a check of all positions, then single writes.
* `Slot.addInPlace` and its kin: the quantities of every kind.
* `settled`: the state that is left, and with it `Components.ran_depositInPlace` and its kin.
* `Components.Adds`: an addition that is made; `Components.Adds.bind`: several of them in a row.
* `ran_deliverInPlace`: additions one after the other, up to the first that has no place.
-/

namespace EnergyStep

variable {α : Type}

/-- **All or nothing**: the new state in place of `x`, or a fault and `x` as it was. -/
def settled {ρ : Type} (x : ρ) : Except (Fault α) ρ → Except (Fault α) PUnit × ρ
  | .ok y => (.ok ⟨⟩, y)
  | .error fault => (.error fault, x)

/-- An evaluation that keeps a state in one place. -/
abbrev Components.InPlace (α β : Type) := Recording (Components α) α β

variable [Scalar α]

namespace Components

/-- Adds the amounts one by one, after all their positions have been found. -/
def depositInPlace (entries : List (ℕ × α)) : InPlace α PUnit := do
  let x ← get
  liftExcept (checkIndices (α := α) x.size (entries.map Prod.fst))
  entries.forM fun entry => modify (·.bump entry.1 entry.2)

/-- Single writes one after the other. -/
theorem ran_writes (es : List (ℕ × α)) : ∀ x : Components α,
    (es.forM fun e => (modify (·.bump e.1 e.2) : InPlace α PUnit)).ran x = (.ok ⟨⟩, x.bumpAll es) := by
  induction es with
  | nil => intro x; rfl
  | cons e es ih => intro x; exact ih (x.bump e.1 e.2)

/-- **An addition in place** is made as a whole or not at all. -/
theorem ran_depositInPlace (es : List (ℕ × α)) (x : Components α) :
    (depositInPlace es).ran x = settled x (x.deposit es) := by
  unfold depositInPlace deposit
  rw [Recording.ran_bind, Recording.ran_get]
  dsimp only
  rw [Recording.ran_bind, Recording.ran_liftExcept]
  cases checkIndices x.size (es.map Prod.fst) with
  | error fault => rfl
  | ok _ => exact ran_writes es x

end Components

/-- **An addition that is made**, in place as well as not. It is made at some of the given positions, and
everywhere else the state stays as it was. -/
def Components.Adds (positions : List ℕ) (x : Components α) (inPlace : InPlace α PUnit)
    (sum : Except (Fault α) (Components α)) : Prop :=
  ∃ y, sum = .ok y ∧ inPlace.ran x = (.ok ⟨⟩, y) ∧ y.size = x.size ∧ ∀ i ∉ positions, y[i]? = x[i]?

namespace Components.Adds

variable {is : List ℕ} {x : Components α}

theorem deposit {es : List (ℕ × α)} (hfit : ∀ e ∈ es, e.1 < x.size) (hmem : ∀ e ∈ es, e.1 ∈ is) :
    Adds is x (depositInPlace es) (x.deposit es) := by
  refine ⟨_, deposit_eq hfit, ?_, size_bumpAll es x, fun i hi => getElem?_bumpAll es fun hes => ?_⟩
  · rw [ran_depositInPlace, deposit_eq hfit]
    rfl
  · obtain ⟨e, he, rfl⟩ := List.mem_map.1 hes
    exact hi (hmem e he)

omit [Scalar α] in
/-- Nothing to add is added. -/
theorem refl : Adds is x (pure ⟨⟩) (pure x) := ⟨x, rfl, rfl, rfl, fun _ _ => rfl⟩

omit [Scalar α] in
/-- **One addition after another.** The state keeps its size, so what has a place in it keeps it. -/
theorem bind {r r' : InPlace α PUnit} {s : Except (Fault α) (Components α)}
    {f : Components α → Except (Fault α) (Components α)} (h : Adds is x r s)
    (h' : ∀ y, y.size = x.size → Adds is y r' (f y)) :
    Adds is x (r >>= fun _ => r') (s >>= f) := by
  obtain ⟨y, rfl, hr, hsize, hrest⟩ := h
  obtain ⟨z, hz, hr', hsize', hrest'⟩ := h' y hsize
  refine ⟨z, hz, ?_, hsize'.trans hsize, fun i hi => (hrest' i hi).trans (hrest i hi)⟩
  rw [Recording.ran_bind, hr]
  exact hr'

end Components.Adds

def Slot.addInPlace (s : Slot) (amount : α) : Components.InPlace α PUnit :=
  Components.depositInPlace [(s.index, amount)]

def Slots.addInPlace {n : ℕ} (s : Slots n) (v : Vector α n) : Components.InPlace α PUnit :=
  Components.depositInPlace (s.positions.toList.zip v.toList)

def SlotList.addInPlace (s : SlotList) (v : Components α) : Components.InPlace α PUnit := do
  liftExcept (checkDimension (α := α) .mappedVector s.length v.size)
  Components.depositInPlace (s.positions.zip v.toList)

def QuatSlots.addInPlace (s : QuatSlots) (q : Quat α) : Components.InPlace α PUnit :=
  Components.depositInPlace (s.entries q)

def RotationSlots.addInPlace (s : RotationSlots) (rotation : Quat α) : Components.InPlace α PUnit :=
  s.quat.addInPlace rotation

/-- The axis is written before the angle, so the place of the angle is looked for first. -/
def AxisAngleSlots.addInPlace (s : AxisAngleSlots) (rotation : AxisAngle α) :
    Components.InPlace α PUnit := do
  let x ← get
  liftExcept (checkIndex (α := α) x.size s.angle.index)
  s.axis.addInPlace rotation.axis
  s.angle.addInPlace rotation.angle

section

variable (x : Components α)

theorem Slot.ran_addInPlace (s : Slot) (a : α) : (s.addInPlace a).ran x = settled x (s.add x a) :=
  Components.ran_depositInPlace _ x

theorem Slots.ran_addInPlace {n : ℕ} (s : Slots n) (v : Vector α n) :
    (s.addInPlace v).ran x = settled x (s.add x v) :=
  Components.ran_depositInPlace _ x

theorem SlotList.ran_addInPlace (s : SlotList) (v : Components α) :
    (s.addInPlace v).ran x = settled x (s.add x v) := by
  unfold addInPlace add
  rw [Recording.ran_bind, Recording.ran_liftExcept]
  cases checkDimension Subject.mappedVector s.length v.size with
  | error fault => rfl
  | ok _ => exact Components.ran_depositInPlace _ x

theorem QuatSlots.ran_addInPlace (s : QuatSlots) (q : Quat α) :
    (s.addInPlace q).ran x = settled x (s.add x q) :=
  Components.ran_depositInPlace _ x

theorem RotationSlots.ran_addInPlace (s : RotationSlots) (q : Quat α) :
    (s.addInPlace q).ran x = settled x (s.add x q) :=
  Components.ran_depositInPlace _ x

/-- **Both parts or none**: where the angle has a place before the axis is written, it has one
afterwards. -/
theorem AxisAngleSlots.ran_addInPlace (s : AxisAngleSlots) (r : AxisAngle α) :
    (s.addInPlace r).ran x = settled x (s.add x r) := by
  unfold addInPlace add
  rw [Recording.ran_bind, Recording.ran_get]
  dsimp only
  rw [Recording.ran_bind, Recording.ran_liftExcept]
  cases hcheck : (checkIndex x.size s.angle.index : Except (Fault α) Unit) with
  | error fault => rfl
  | ok _ =>
    have hangle : s.angle.index < x.size := checkIndex_eq_ok.1 hcheck
    dsimp only
    rw [Recording.ran_bind, Slots.ran_addInPlace]
    cases haxis : s.axis.add x r.axis with
    | error fault => rfl
    | ok y =>
      have hsize : y.size = x.size := by
        obtain ⟨-, rfl⟩ := Components.deposit_eq_ok.1 haxis
        exact Components.size_bumpAll ..
      have hadd := Slot.add_eq r.angle (by rw [hsize]; exact hangle)
      show (s.angle.addInPlace r.angle).ran y = settled x (s.angle.add y r.angle)
      rw [Slot.ran_addInPlace, hadd]
      rfl

end

/-- Makes additions one after the other. -/
def deliverInPlace (additions : List (Addition α)) : Components.InPlace α PUnit :=
  additions.forM Components.depositInPlace

/-- **Additions in place** stop at the first that has no place. -/
theorem ran_deliverInPlace (as : List (Addition α)) : ∀ g : Components α,
    (deliverInPlace as).ran g = deliver as g := by
  induction as with
  | nil => intro g; rfl
  | cons a as ih =>
    intro g
    show (Components.depositInPlace a >>= fun _ => deliverInPlace as).ran g = _
    rw [Recording.ran_bind, Components.ran_depositInPlace]
    unfold deliver
    cases g.deposit a with
    | error fault => rfl
    | ok g' => exact ih g'

theorem deliverInPlace_singleton (a : Addition α) :
    deliverInPlace [a] = Components.depositInPlace a := bind_pure_unit

theorem deliverInPlace_pair (a b : Addition α) : deliverInPlace [a, b] =
    Components.depositInPlace a >>= fun _ => Components.depositInPlace b :=
  congrArg (Components.depositInPlace a >>= ·) (funext fun _ => deliverInPlace_singleton b)

theorem deliverInPlace_append (as bs : List (Addition α)) :
    deliverInPlace (as ++ bs) = deliverInPlace as >>= fun _ => deliverInPlace bs :=
  List.forM_append

end EnergyStep
