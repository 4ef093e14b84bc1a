import EnergyStep.Proofs.Law.Holds

/-!
# Changing the units

Mass, length and time can be measured in other units. Every component of a state then changes by the
factor of what it stands for, and so do the length of a step, the acceleration of a field and the
reference scales. Each law measures its violation in a scale of the matching unit, so the energies of
all laws change by the factor of an energy, and a component of the gradient by that of an energy per
unit of the component.

* `UnitChange`, `UnitChange.factor`: the factors of all quantities, from those of mass, length and time.
* `Law.roles`, `Law.Measured`: what each position of a law stands for.
* `Law.violationAt_rescale`, `Law.partials_rescale`, `Law.weight_rescale`: violations, derivatives and
  weights, one case for each kind of law.
* `StepEnergy.homogeneous`: energies and gradients of terms and steps.
-/

namespace EnergyStep

variable {α : Type} [Exact α]

/-- What a component of a state or the violation of a law stands for. -/
inductive Quantity
  | mass
  | flow
  | length
  | velocity
  | acceleration
  | momentum
  | force
  | number
deriving DecidableEq, Repr

/-- **A change of units**: by which factors the numbers of masses, lengths and times change. -/
structure UnitChange (α : Type) [Exact α] where
  mass : α
  length : α
  time : α
  mass_pos : 0 < mass
  length_pos : 0 < length
  time_pos : 0 < time

namespace UnitChange

variable (u : UnitChange α)

/-- By which factor the number of a quantity changes. -/
def factor : Quantity → α
  | .mass => u.mass
  | .flow => u.mass / u.time
  | .length => u.length
  | .velocity => u.length / u.time
  | .acceleration => u.length / u.time ^ 2
  | .momentum => u.mass * u.length / u.time
  | .force => u.mass * u.length / u.time ^ 2
  | .number => 1

/-- The factor of an energy. -/
def energy : α := u.mass * u.length ^ 2 / u.time ^ 2

/-- The factor of an energy per mass. -/
def specificEnergy : α := u.length ^ 2 / u.time ^ 2

theorem factor_pos (q : Quantity) : 0 < u.factor q := by
  have hm := u.mass_pos
  have hl := u.length_pos
  have ht := u.time_pos
  cases q with
  | mass => exact hm
  | flow => exact div_pos hm ht
  | length => exact hl
  | velocity => exact div_pos hl ht
  | acceleration => exact div_pos hl (pow_pos ht 2)
  | momentum => exact div_pos (mul_pos hm hl) ht
  | force => exact div_pos (mul_pos hm hl) (pow_pos ht 2)
  | number => exact one_pos

theorem flow_mul_time : u.factor .flow * u.time = u.factor .mass :=
  div_mul_cancel₀ _ u.time_pos.ne'

theorem velocity_mul_time : u.factor .velocity * u.time = u.factor .length :=
  div_mul_cancel₀ _ u.time_pos.ne'

theorem acceleration_mul_time : u.factor .acceleration * u.time = u.factor .velocity := by
  have ht := u.time_pos.ne'
  unfold factor
  field_simp

theorem force_mul_time : u.factor .force * u.time = u.factor .momentum := by
  have ht := u.time_pos.ne'
  unfold factor
  field_simp

theorem mass_mul_velocity : u.factor .mass * u.factor .velocity = u.factor .momentum := by
  unfold factor
  ring

theorem mass_mul_acceleration : u.factor .mass * u.factor .acceleration = u.factor .force := by
  unfold factor
  ring

theorem flow_mul_velocity : u.factor .flow * u.factor .velocity = u.factor .force := by
  unfold factor
  ring

end UnitChange

/-- The scales in the new units. -/
def Scales.rescale (u : UnitChange α) (s : Scales α) : Scales α :=
  ⟨u.mass * s.mass, u.length * s.length, u.time * s.time, u.specificEnergy * s.specificEnergy⟩

/-- The state with each component multiplied by its factor. -/
def Components.rescale (w : ℕ → α) (x : Components α) : Components α := x.mapIdx fun i a => w i * a

def Transfer.roles (t : Transfer) : List (ℕ × Quantity) :=
  [(t.rate.index, .flow), (t.velocity.index, .velocity)]

/-- The field in the new units. -/
def FieldForce.rescale (u : UnitChange α) (c : FieldForce α) : FieldForce α :=
  { c with acceleration := u.factor .acceleration * c.acceleration }

namespace Law

/-- The law in the new units. Only a field has a number of its own. -/
def rescale (u : UnitChange α) : Law α → Law α
  | mass b => mass b
  | momentum b => momentum b
  | newton b => newton b
  | position b => position b
  | velocity b => velocity b
  | versor c => versor c
  | field c => field (c.rescale u)

/-- **What the positions of a law stand for.** -/
def roles : Law α → List (ℕ × Quantity)
  | mass b => (b.mass.index, .mass) :: (b.inflows ++ b.outflows).map fun s => (s.index, .flow)
  | momentum b => [(b.mass.index, .mass), (b.velocity.index, .velocity)] ++
      b.forces.map (fun s => (s.index, .force)) ++ b.inflows.flatMap Transfer.roles ++
      b.outflows.flatMap Transfer.roles
  | newton b => [(b.mass.index, .mass), (b.velocity.index, .velocity),
      (b.acceleration.index, .acceleration)] ++ b.forces.map (fun s => (s.index, .force)) ++
      b.inflows.flatMap Transfer.roles ++ b.outflows.flatMap Transfer.roles
  | position b => [(b.quantity.index, .length), (b.rate.index, .velocity)]
  | velocity b => [(b.quantity.index, .velocity), (b.rate.index, .acceleration)]
  | versor c => (Placed.indices c.quat).map fun i => (i, .number)
  | field c => [(c.force.index, .force), (c.mass.index, .mass)]

/-- What the violation of a law stands for. -/
def quantity : Law α → Quantity
  | mass _ => .mass
  | momentum _ => .momentum
  | newton _ => .force
  | position _ => .length
  | velocity _ => .velocity
  | versor _ => .number
  | field _ => .force

/-- **The factors of the components agree with what the law takes them for.** -/
def Measured (u : UnitChange α) (w : ℕ → α) (law : Law α) : Prop :=
  ∀ p ∈ law.roles, w p.1 = u.factor p.2

end Law

/-- An amount per component, where the whole changes by the factor `c`. -/
def converted (w : ℕ → α) (c : α) (p : ℕ × α) : ℕ × α := (p.1, c / w p.1 * p.2)

section

variable {u : UnitChange α} {w : ℕ → α} {c : α} {q : Quantity}

/-- The factors of what a stream carries. -/
structure Transfer.Measured (u : UnitChange α) (w : ℕ → α) (t : Transfer) : Prop where
  rate : w t.rate.index = u.factor .flow
  velocity : w t.velocity.index = u.factor .velocity

theorem measured_pair {i j : ℕ} {r : Quantity} (h : ∀ p ∈ [(i, q), (j, r)], w p.1 = u.factor p.2) :
    w i = u.factor q ∧ w j = u.factor r := by
  obtain ⟨hi, h⟩ := List.forall_mem_cons.1 h
  exact ⟨hi, (List.forall_mem_cons.1 h).1⟩

theorem measured_transfers {l : List Transfer}
    (h : ∀ p ∈ l.flatMap Transfer.roles, w p.1 = u.factor p.2) : ∀ t ∈ l, t.Measured u w := by
  intro t ht
  obtain ⟨hr, hv⟩ := measured_pair (List.forall_mem_flatMap.1 h t ht)
  exact ⟨hr, hv⟩

theorem measured_slots {l : List Slot} (h : ∀ p ∈ l.map fun s => (s.index, q), w p.1 = u.factor p.2) :
    ∀ s ∈ l, w s.index = u.factor q := List.forall_mem_map.1 h

theorem converted_eq {i : ℕ} {a a' : α} (hw : w i = u.factor q) (h : u.factor q * a' = c * a) :
    (i, a') = converted w c (i, a) := by
  have hq := (u.factor_pos q).ne'
  unfold converted
  rw [hw, div_mul_eq_mul_div, ← h, mul_div_cancel_left₀ _ hq]

theorem sum_map_scaled {β : Type} {l : List β} {F G : β → α} (h : ∀ b ∈ l, F b = c * G b) :
    (l.map F).sum = c * (l.map G).sum := by
  rw [List.map_congr_left h, List.sum_map_mul_left]

theorem map_converted {β : Type} {l : List β} {F G : β → ℕ × α} (h : ∀ b ∈ l, F b = converted w c (G b)) :
    l.map F = (l.map G).map (converted w c) := by
  rw [List.map_map]
  exact List.map_congr_left h

theorem flatMap_converted {β : Type} {l : List β} {F G : β → List (ℕ × α)}
    (h : ∀ b ∈ l, F b = (G b).map (converted w c)) :
    l.flatMap F = (l.flatMap G).map (converted w c) := by
  rw [List.map_flatMap]
  exact List.flatMap_congr h

/-- Components that stand for one quantity. -/
theorem sum_slots {l : List Slot} (h : ∀ s ∈ l, w s.index = c) (σ : ℕ → α) :
    (l.map fun s => (w * σ) s.index).sum = c * (l.map fun s => σ s.index).sum :=
  sum_map_scaled fun s hs => congrArg (· * σ s.index) (h s hs)

/-- What streams carry, relative to a velocity in the new units. -/
theorem sum_streams {l : List Transfer} (h : ∀ t ∈ l, t.Measured u w) (σ : ℕ → α) (v : α) :
    (l.map fun t => (w * σ) t.rate.index * ((w * σ) t.velocity.index - u.factor .velocity * v)).sum =
      u.factor .force * (l.map fun t => σ t.rate.index * (σ t.velocity.index - v)).sum := by
  refine sum_map_scaled fun t ht => ?_
  obtain ⟨hr, hv⟩ := h t ht
  rw [Pi.mul_apply, Pi.mul_apply, hr, hv]
  linear_combination σ t.rate.index * (σ t.velocity.index - v) * u.flow_mul_velocity

namespace MassBalance

variable {b : MassBalance} (h : (Law.mass b : Law α).Measured u w)
include h

theorem measured : w b.mass.index = u.factor .mass ∧ (∀ s ∈ b.inflows, w s.index = u.factor .flow) ∧
    ∀ s ∈ b.outflows, w s.index = u.factor .flow := by
  obtain ⟨hm, hflows⟩ := List.forall_mem_cons.1 h
  exact ⟨hm, List.forall_mem_append.1 (measured_slots hflows)⟩

theorem rateAt_rescale (σ : ℕ → α) : b.rateAt (w * σ) = u.factor .flow * b.rateAt σ := by
  obtain ⟨-, hin, hout⟩ := measured h
  unfold rateAt
  rw [sum_slots hin, sum_slots hout, mul_sub]

theorem violationAt_rescale (σ₀ σ : ℕ → α) (dt : α) :
    b.violationAt (w * σ₀) (w * σ) (u.time * dt) = u.factor .mass * b.violationAt σ₀ σ dt := by
  obtain ⟨hm, -, -⟩ := measured h
  unfold violationAt
  rw [rateAt_rescale h, rateAt_rescale h, Pi.mul_apply, Pi.mul_apply, hm]
  linear_combination (-(dt / 2) * (b.rateAt σ₀ + b.rateAt σ)) * u.flow_mul_time

theorem partials_rescale (dt : α) :
    b.partials (u.time * dt) = (b.partials dt).map (converted w (u.factor .mass)) := by
  obtain ⟨hm, hin, hout⟩ := measured h
  unfold partials
  rw [List.map_cons, List.map_append]
  refine congrArg₂ _ (converted_eq hm rfl) (congrArg₂ _ ?_ ?_)
  · refine map_converted fun s hs => converted_eq (hin s hs) ?_
    linear_combination (-(dt / 2)) * u.flow_mul_time
  · refine map_converted fun s hs => converted_eq (hout s hs) ?_
    linear_combination (dt / 2) * u.flow_mul_time

end MassBalance

namespace MomentumBalance

variable {b : MomentumBalance} (h : (Law.momentum b : Law α).Measured u w)
include h

theorem measured : w b.mass.index = u.factor .mass ∧ w b.velocity.index = u.factor .velocity ∧
    (∀ s ∈ b.forces, w s.index = u.factor .force) ∧
    (∀ t ∈ b.inflows, t.Measured u w) ∧ ∀ t ∈ b.outflows, t.Measured u w := by
  obtain ⟨h, hout⟩ := List.forall_mem_append.1 h
  obtain ⟨h, hin⟩ := List.forall_mem_append.1 h
  obtain ⟨h, hf⟩ := List.forall_mem_append.1 h
  obtain ⟨hm, h⟩ := List.forall_mem_cons.1 h
  obtain ⟨hv, -⟩ := List.forall_mem_cons.1 h
  exact ⟨hm, hv, measured_slots hf, measured_transfers hin, measured_transfers hout⟩

theorem rateAt_rescale (σ : ℕ → α) : b.rateAt (w * σ) = u.factor .force * b.rateAt σ := by
  obtain ⟨-, -, hf, hin, hout⟩ := measured h
  -- here the velocities of the streams are not relative to anything
  have hgained := sum_streams hin σ 0
  have hlost := sum_streams hout σ 0
  simp only [mul_zero, sub_zero] at hgained hlost
  unfold rateAt
  rw [sum_slots hf, hgained, hlost, ← mul_add, ← mul_sub]

theorem violationAt_rescale (σ₀ σ : ℕ → α) (dt : α) :
    b.violationAt (w * σ₀) (w * σ) (u.time * dt) = u.factor .momentum * b.violationAt σ₀ σ dt := by
  obtain ⟨hm, hv, -⟩ := measured h
  unfold violationAt
  rw [rateAt_rescale h, rateAt_rescale h]
  simp only [Pi.mul_apply, hm, hv]
  linear_combination
    (σ b.mass.index * σ b.velocity.index - σ₀ b.mass.index * σ₀ b.velocity.index) * u.mass_mul_velocity -
      dt / 2 * (b.rateAt σ₀ + b.rateAt σ) * u.force_mul_time

theorem partials_rescale (σ : ℕ → α) (dt : α) : b.partials (w * σ) (u.time * dt) =
    (b.partials σ dt).map (converted w (u.factor .momentum)) := by
  obtain ⟨hm, hv, hf, hin, hout⟩ := measured h
  have hflow : u.factor .flow * (u.time * u.factor .velocity) = u.factor .momentum := by
    linear_combination u.factor .velocity * u.flow_mul_time + u.mass_mul_velocity
  -- streams in and out differ in the sign of `k`
  have hstreams : ∀ {l : List Transfer} {k k' : α}, (∀ t ∈ l, t.Measured u w) → k' = u.time * k →
      l.flatMap (fun t => [(t.rate.index, k' * (w t.velocity.index * σ t.velocity.index)),
          (t.velocity.index, k' * (w t.rate.index * σ t.rate.index))]) =
        (l.flatMap fun t => [(t.rate.index, k * σ t.velocity.index),
          (t.velocity.index, k * σ t.rate.index)]).map (converted w (u.factor .momentum)) := by
    intro l k k' hl hk
    refine flatMap_converted fun t ht => ?_
    obtain ⟨hr, hv⟩ := hl t ht
    rw [hr, hv, hk]
    refine congrArg₂ _ (converted_eq hr ?_) (congrArg₂ _ (converted_eq hv ?_) rfl)
    · linear_combination (k * σ t.velocity.index) * hflow
    · linear_combination (k * σ t.rate.index) * hflow
  unfold partials
  simp only [List.map_append, Pi.mul_apply]
  refine congrArg₂ _ (congrArg₂ _ (congrArg₂ _ ?_ ?_) ?_) ?_
  · rw [hv, hm]
    refine congrArg₂ _ (converted_eq hm ?_) (congrArg₂ _ (converted_eq hv ?_) rfl)
    · linear_combination σ b.velocity.index * u.mass_mul_velocity
    · linear_combination σ b.mass.index * u.mass_mul_velocity
  · refine map_converted fun s hs => converted_eq (hf s hs) ?_
    linear_combination (-(dt / 2)) * u.force_mul_time
  · refine hstreams hin ?_
    ring
  · refine hstreams hout ?_
    ring

end MomentumBalance

namespace NewtonBalance

variable {b : NewtonBalance} (h : (Law.newton b : Law α).Measured u w)
include h

theorem measured : w b.mass.index = u.factor .mass ∧ w b.velocity.index = u.factor .velocity ∧
    w b.acceleration.index = u.factor .acceleration ∧ (∀ s ∈ b.forces, w s.index = u.factor .force) ∧
    (∀ t ∈ b.inflows, t.Measured u w) ∧ ∀ t ∈ b.outflows, t.Measured u w := by
  obtain ⟨h, hout⟩ := List.forall_mem_append.1 h
  obtain ⟨h, hin⟩ := List.forall_mem_append.1 h
  obtain ⟨h, hf⟩ := List.forall_mem_append.1 h
  obtain ⟨hm, h⟩ := List.forall_mem_cons.1 h
  obtain ⟨hv, h⟩ := List.forall_mem_cons.1 h
  obtain ⟨ha, -⟩ := List.forall_mem_cons.1 h
  exact ⟨hm, hv, ha, measured_slots hf, measured_transfers hin, measured_transfers hout⟩

theorem violationAt_rescale (σ : ℕ → α) :
    b.violationAt (w * σ) = u.factor .force * b.violationAt σ := by
  obtain ⟨hm, hv, ha, hf, hin, hout⟩ := measured h
  have hbody : (w * σ) b.velocity.index = u.factor .velocity * σ b.velocity.index :=
    congrArg (· * σ b.velocity.index) hv
  unfold violationAt
  rw [hbody, sum_slots hf, sum_streams hin, sum_streams hout, Pi.mul_apply, Pi.mul_apply, hm, ha]
  linear_combination σ b.mass.index * σ b.acceleration.index * u.mass_mul_acceleration

theorem partials_rescale (σ : ℕ → α) :
    b.partials (w * σ) = (b.partials σ).map (converted w (u.factor .force)) := by
  obtain ⟨hm, hv, ha, hf, hin, hout⟩ := measured h
  unfold partials
  simp only [List.map_append, Pi.mul_apply, hv]
  refine congrArg₂ _ (congrArg₂ _ (congrArg₂ _ ?_ ?_) ?_) ?_
  · rw [ha, hm]
    refine congrArg₂ _ (converted_eq hm ?_) (congrArg₂ _ (converted_eq ha ?_) rfl)
    · linear_combination σ b.acceleration.index * u.mass_mul_acceleration
    · linear_combination σ b.mass.index * u.mass_mul_acceleration
  · exact map_converted fun s hs => converted_eq (hf s hs) rfl
  · refine flatMap_converted fun t ht => ?_
    obtain ⟨hr, hu⟩ := hin t ht
    rw [hr, hu]
    refine congrArg₂ _ (converted_eq hr ?_)
      (congrArg₂ _ (converted_eq hu ?_) (congrArg₂ _ (converted_eq hv ?_) rfl))
    · linear_combination (-(σ t.velocity.index - σ b.velocity.index)) * u.flow_mul_velocity
    · linear_combination (-σ t.rate.index) * u.flow_mul_velocity
    · linear_combination σ t.rate.index * u.flow_mul_velocity
  · refine flatMap_converted fun t ht => ?_
    obtain ⟨hr, hu⟩ := hout t ht
    rw [hr, hu]
    refine congrArg₂ _ (converted_eq hr ?_)
      (congrArg₂ _ (converted_eq hu ?_) (congrArg₂ _ (converted_eq hv ?_) rfl))
    · linear_combination (σ t.velocity.index - σ b.velocity.index) * u.flow_mul_velocity
    · linear_combination σ t.rate.index * u.flow_mul_velocity
    · linear_combination (-σ t.rate.index) * u.flow_mul_velocity

end NewtonBalance

namespace RateBalance

variable {b : RateBalance} {r : Quantity} (hq : w b.quantity.index = u.factor q)
  (hr : w b.rate.index = u.factor r) (htime : u.factor r * u.time = u.factor q)
include hq hr htime

theorem violationAt_rescale (σ₀ σ : ℕ → α) (dt : α) :
    b.violationAt (w * σ₀) (w * σ) (u.time * dt) = u.factor q * b.violationAt σ₀ σ dt := by
  unfold violationAt
  simp only [Pi.mul_apply, hq, hr]
  linear_combination (-(dt / 2) * (σ₀ b.rate.index + σ b.rate.index)) * htime

theorem partials_rescale (dt : α) :
    b.partials (u.time * dt) = (b.partials dt).map (converted w (u.factor q)) := by
  refine congrArg₂ _ (converted_eq hq rfl) (congrArg₂ _ (converted_eq hr ?_) rfl)
  linear_combination (-(dt / 2)) * htime

end RateBalance

namespace VersorConstraint

variable {c : VersorConstraint} (h : (Law.versor c : Law α).Measured u w)
include h

theorem measured : ∀ i ∈ Placed.indices c.quat, w i = u.factor .number := by
  intro i hi
  exact h _ (List.mem_map_of_mem hi)

theorem violationAt_rescale (σ : ℕ → α) :
    c.violationAt (w * σ) = u.factor .number * c.violationAt σ := by
  have hone : ∀ i ∈ Placed.indices c.quat, (w * σ) i = σ i := by
    intro i hi
    rw [Pi.mul_apply, measured h i hi]
    exact one_mul _
  simp only [Placed.indices, List.forall_mem_cons] at hone
  obtain ⟨hw, hi, hj, hk, -⟩ := hone
  unfold violationAt
  -- a number is the same in all units
  rw [hw, hi, hj, hk]
  exact (one_mul _).symm

theorem partials_rescale (σ : ℕ → α) :
    c.partials (w * σ) = (c.partials σ).map (converted w (u.factor .number)) := by
  refine map_converted fun i hi => converted_eq (measured h i hi) ?_
  rw [Pi.mul_apply, measured h i hi]
  unfold UnitChange.factor
  ring

end VersorConstraint

namespace FieldForce

variable {c : FieldForce α} (h : (Law.field c).Measured u w)
include h

theorem violationAt_rescale (σ : ℕ → α) :
    (c.rescale u).violationAt (w * σ) = u.factor .force * c.violationAt σ := by
  obtain ⟨hf, hm⟩ := measured_pair h
  simp only [violationAt, rescale, Pi.mul_apply, hf, hm]
  linear_combination (-σ c.mass.index * c.acceleration) * u.mass_mul_acceleration

theorem partials_rescale :
    (c.rescale u).partials = c.partials.map (converted w (u.factor .force)) := by
  obtain ⟨hf, hm⟩ := measured_pair h
  refine congrArg₂ _ (converted_eq hf rfl) (congrArg₂ _ (converted_eq hm ?_) rfl)
  show u.factor .mass * -(u.factor .acceleration * c.acceleration) = u.factor .force * -c.acceleration
  linear_combination (-c.acceleration) * u.mass_mul_acceleration

end FieldForce

namespace Law

variable {law : Law α}

@[simp] theorem indices_rescale (u : UnitChange α) (law : Law α) :
    (law.rescale u).indices = law.indices := by
  cases law <;> rfl

theorem blocks_rescale (u : UnitChange α) (law : Law α) : (law.rescale u).blocks = law.blocks := by
  cases law <;> rfl

/-- **The violation changes by the factor of what it stands for.** -/
theorem violationAt_rescale (h : law.Measured u w) (σ₀ σ : ℕ → α) (dt : α) :
    (law.rescale u).violationAt (w * σ₀) (w * σ) (u.time * dt) =
      u.factor law.quantity * law.violationAt σ₀ σ dt := by
  cases law with
  | mass b => exact MassBalance.violationAt_rescale h σ₀ σ dt
  | momentum b => exact MomentumBalance.violationAt_rescale h σ₀ σ dt
  | newton b => exact NewtonBalance.violationAt_rescale h σ
  | position b =>
    obtain ⟨hq, hr⟩ := measured_pair h
    exact RateBalance.violationAt_rescale hq hr u.velocity_mul_time σ₀ σ dt
  | velocity b =>
    obtain ⟨hq, hr⟩ := measured_pair h
    exact RateBalance.violationAt_rescale hq hr u.acceleration_mul_time σ₀ σ dt
  | versor c => exact VersorConstraint.violationAt_rescale h σ
  | field c => exact FieldForce.violationAt_rescale h σ

/-- Its derivative by a component changes by that factor per factor of the component. -/
theorem partials_rescale (h : law.Measured u w) (σ : ℕ → α) (dt : α) :
    (law.rescale u).partials (w * σ) (u.time * dt) =
      (law.partials σ dt).map (converted w (u.factor law.quantity)) := by
  cases law with
  | mass b => exact MassBalance.partials_rescale h dt
  | momentum b => exact MomentumBalance.partials_rescale h σ dt
  | newton b => exact NewtonBalance.partials_rescale h σ
  | position b =>
    obtain ⟨hq, hr⟩ := measured_pair h
    exact RateBalance.partials_rescale hq hr u.velocity_mul_time dt
  | velocity b =>
    obtain ⟨hq, hr⟩ := measured_pair h
    exact RateBalance.partials_rescale hq hr u.acceleration_mul_time dt
  | versor c => exact VersorConstraint.partials_rescale h σ
  | field c => exact FieldForce.partials_rescale h

/-- **The weight turns the square of the violation into an energy**, in the scale that each law has
chosen for its violation. -/
theorem weight_rescale (u : UnitChange α) (law : Law α) (s : Scales α) :
    (law.rescale u).weight (s.rescale u) = u.energy / u.factor law.quantity ^ 2 * law.weight s := by
  have henergy : (s.rescale u).energy = u.energy * s.energy := by
    unfold Scales.energy Scales.rescale UnitChange.energy UnitChange.specificEnergy
    ring
  have hvelocity : (s.rescale u).velocity = u.factor .velocity * s.velocity := by
    unfold Scales.velocity Scales.rescale UnitChange.factor
    ring
  have hforce : (s.rescale u).force = u.factor .force * s.force := by
    unfold Scales.force Scales.acceleration Scales.rescale UnitChange.factor
    ring
  have hmomentum : (s.rescale u).momentum = u.factor .momentum * s.momentum := by
    unfold Scales.momentum Scales.velocity Scales.rescale UnitChange.factor
    ring
  -- six laws divide the energy scale by the square of a scale of their own
  have hsquare : ∀ {a c' a' : α}, a' = c' * a →
      (s.rescale u).energy / a' ^ 2 = u.energy / c' ^ 2 * (s.energy / a ^ 2) := by
    intro a c' a' ha
    rw [henergy, ha, mul_pow, mul_div_mul_comm]
  cases law with
  | mass b => exact hsquare rfl
  | momentum b => exact hsquare hmomentum
  | newton b => exact hsquare hforce
  | position b => exact hsquare rfl
  | velocity b => exact hsquare hvelocity
  | versor c =>
    show (s.rescale u).rotationalEnergy = u.energy / 1 ^ 2 * s.rotationalEnergy
    unfold Scales.rotationalEnergy
    rw [hvelocity]
    unfold Scales.rescale UnitChange.energy UnitChange.factor
    ring
  | field c => exact hsquare hforce

end Law

namespace Components

variable {x g : Components α}

@[simp] theorem size_rescale (w : ℕ → α) (x : Components α) : (x.rescale w).size = x.size :=
  Array.size_mapIdx

theorem component_rescale (w : ℕ → α) (x : Components α) : (x.rescale w).component = w * x.component := by
  funext i
  rw [Pi.mul_apply]
  rcases Nat.lt_or_ge i x.size with hi | hi
  · have hi' : i < (x.rescale w).size := by rwa [size_rescale]
    rw [component_eq hi', component_eq hi]
    exact Array.getElem_mapIdx hi'
  · rw [component_of_le (by rwa [size_rescale]), component_of_le hi, mul_zero]

/-- Amounts in the new units add up to a gradient in the new units. -/
theorem bumpAll_converted (w : ℕ → α) (c : α) (es : List (ℕ × α)) (g : Components α) :
    (g.rescale fun i => c / w i).bumpAll (es.map (converted w c)) =
      (g.bumpAll es).rescale fun i => c / w i := by
  have hone : ∀ (g : Components α) (e : ℕ × α), (g.rescale fun i => c / w i).bump e.1 (c / w e.1 * e.2) =
      (g.bump e.1 e.2).rescale fun i => c / w i := by
    intro g e
    apply Array.ext
    · simp
    · intro i h₁ h₂
      simp only [bump, rescale, Array.getElem_modify, Array.getElem_mapIdx]
      split_ifs with hi
      · subst hi
        exact (mul_add ..).symm
      · rfl
  induction es generalizing g with
  | nil => rfl
  | cons e es ih =>
    show ((g.rescale fun i => c / w i).bump e.1 (c / w e.1 * e.2)).bumpAll _ = _
    rw [hone, ih]
    rfl

theorem rescale_zeros (w : ℕ → α) (n : ℕ) : (zeros n).rescale w = zeros n := by
  apply Array.ext
  · simp
  · intro i h₁ h₂
    simp [rescale, zeros]

end Components

/-- The term in the new units. -/
def Term.rescale (u : UnitChange α) (t : Term α) : Term α := ⟨t.law.rescale u, t.scales.rescale u⟩

namespace Term

variable {t : Term α}

theorem fitsIn_rescale {n : ℕ} : (t.rescale u).FitsIn n ↔ t.FitsIn n := by
  unfold FitsIn rescale
  rw [Law.indices_rescale]

theorem requiredDimension_rescale : (t.rescale u).requiredDimension = t.requiredDimension := by
  show ((t.law.rescale u).blocks.map _).max?.getD 0 = _
  rw [Law.blocks_rescale]
  rfl

theorem energyAt_rescale (h : t.law.Measured u w) (σ₀ σ : ℕ → α) (dt : α) :
    (t.rescale u).energyAt (w * σ₀) (w * σ) (u.time * dt) = u.energy * t.energyAt σ₀ σ dt := by
  have hρ := (u.factor_pos t.law.quantity).ne'
  show (t.law.rescale u).weight (t.scales.rescale u) *
    (t.law.rescale u).violationAt (w * σ₀) (w * σ) (u.time * dt) ^ 2 = _
  rw [Law.weight_rescale, Law.violationAt_rescale h]
  unfold energyAt
  -- the factor of the violation cancels, and that of the energy is left
  field_simp

theorem slopes_rescale (h : t.law.Measured u w) (σ₀ σ : ℕ → α) (dt : α) :
    (t.rescale u).slopes (w * σ₀) (w * σ) (u.time * dt) =
      (t.slopes σ₀ σ dt).map (converted w u.energy) := by
  have hρ := (u.factor_pos t.law.quantity).ne'
  unfold slopes rescale
  rw [Law.partials_rescale h, List.map_map, List.map_map]
  refine List.map_congr_left fun p _ => Prod.ext rfl ?_
  show u.factor t.law.quantity / w p.1 * p.2 * _ = u.energy / w p.1 * _
  rw [Law.weight_rescale, Law.violationAt_rescale h]
  field_simp

/-- A term in the new units adds its energy and its slopes in the new units. -/
theorem evaluate_rescale {x₀ x g : Components α} {dt : α} (h : t.law.Measured u w)
    (h₀ : t.FitsIn x₀.size) (hx : t.FitsIn x.size) (hg : g.size = x.size) :
    (t.rescale u).evaluate (x₀.rescale w) (x.rescale w) (u.time * dt)
        (g.rescale fun i => u.energy / w i) =
      ((t.evaluate x₀ x dt g).1.map (u.energy * ·),
        (t.evaluate x₀ x dt g).2.rescale fun i => u.energy / w i) := by
  have h₀' : (t.rescale u).FitsIn (x₀.rescale w).size := by
    rw [Components.size_rescale]
    exact fitsIn_rescale.2 h₀
  have hx' : (t.rescale u).FitsIn (x.rescale w).size := by
    rw [Components.size_rescale]
    exact fitsIn_rescale.2 hx
  rw [evaluate_of_fits h₀' hx' (by simpa using hg), evaluate_of_fits h₀ hx hg,
    Components.component_rescale, Components.component_rescale, energyAt_rescale h, slopes_rescale h,
    Components.bumpAll_converted]
  rfl

end Term

/-- The scales make sense in the new units if they did in the old ones. -/
theorem Scales.positive_rescale {s : Scales α} : (s.rescale u).Positive ↔ s.Positive := by
  have hspecific : 0 < u.specificEnergy := div_pos (pow_pos u.length_pos 2) (pow_pos u.time_pos 2)
  constructor
  · rintro ⟨hm, hl, ht, he⟩
    exact ⟨pos_of_mul_pos_right hm u.mass_pos.le, pos_of_mul_pos_right hl u.length_pos.le,
      pos_of_mul_pos_right ht u.time_pos.le, pos_of_mul_pos_right he hspecific.le⟩
  · rintro ⟨hm, hl, ht, he⟩
    exact ⟨mul_pos u.mass_pos hm, mul_pos u.length_pos hl, mul_pos u.time_pos ht, mul_pos hspecific he⟩

namespace StepEnergy

/-- The step in the new units. -/
def rescale (u : UnitChange α) (w : ℕ → α) (f : StepEnergy α) : StepEnergy α :=
  ⟨f.initial.rescale w, u.time * f.dt, f.terms.map (Term.rescale u)⟩

variable {f : StepEnergy α} {x : Components α}

theorem energyAt_rescale (h : ∀ t ∈ f.terms, t.law.Measured u w) (σ : ℕ → α) :
    (f.rescale u w).energyAt (w * σ) = u.energy * f.energyAt σ := by
  unfold energyAt rescale
  rw [List.map_map]
  refine sum_map_scaled fun t ht => ?_
  rw [Components.component_rescale]
  exact Term.energyAt_rescale (h t ht) _ _ _

theorem slopes_rescale (h : ∀ t ∈ f.terms, t.law.Measured u w) (σ : ℕ → α) :
    (f.rescale u w).slopes (w * σ) = (f.slopes σ).map (converted w u.energy) := by
  unfold slopes rescale
  rw [List.flatMap_map]
  refine flatMap_converted fun t ht => ?_
  rw [Components.component_rescale]
  exact Term.slopes_rescale (h t ht) _ _ _

theorem dimension_rescale : (f.rescale u w).dimension = f.dimension := Components.size_rescale w _

theorem forall_fitsIn_rescale {n : ℕ} :
    (∀ t ∈ (f.rescale u w).terms, t.FitsIn n) ↔ ∀ t ∈ f.terms, t.FitsIn n := by
  unfold rescale
  rw [List.forall_mem_map]
  exact forall₂_congr fun _ _ => Term.fitsIn_rescale

/-- **The total energy and its gradient in the new units.** -/
theorem evaluate_rescale (h : ∀ t ∈ f.terms, t.law.Measured u w) {e' : α} {g' : Components α} :
    (f.rescale u w).evaluate (x.rescale w) = .ok (e', g') ↔ ∃ e g, f.evaluate x = .ok (e, g) ∧
      e' = u.energy * e ∧ g' = g.rescale fun i => u.energy / w i := by
  have hgradient : (Components.zeros x.size).bumpAll ((f.slopes x.component).map (converted w u.energy)) =
      ((Components.zeros x.size).bumpAll (f.slopes x.component)).rescale fun i => u.energy / w i := by
    rw [← Components.bumpAll_converted, Components.rescale_zeros]
  rw [evaluate_eq_ok, dimension_rescale, Components.size_rescale, forall_fitsIn_rescale,
    Components.component_rescale, energyAt_rescale h, slopes_rescale h, hgradient]
  constructor
  · rintro ⟨hdim, hfit, rfl, rfl⟩
    exact ⟨_, _, evaluate_eq_ok.2 ⟨hdim, hfit, rfl, rfl⟩, rfl, rfl⟩
  · rintro ⟨e, g, heval, rfl, rfl⟩
    obtain ⟨hdim, hfit, rfl, rfl⟩ := evaluate_eq_ok.1 heval
    exact ⟨hdim, hfit, rfl, rfl⟩

/-- The parts of the energy in the new units. -/
theorem breakdown_rescale (h : ∀ t ∈ f.terms, t.law.Measured u w) {parts' : List (String × α)} :
    (f.rescale u w).breakdown (x.rescale w) = .ok parts' ↔ ∃ parts, f.breakdown x = .ok parts ∧
      parts' = parts.map fun p => (p.1, u.energy * p.2) := by
  have hname : ∀ t : Term α, (t.rescale u).name = t.name := by
    intro t
    obtain ⟨law, scales⟩ := t
    cases law <;> rfl
  have hparts : ((f.rescale u w).terms.map fun t => (t.name,
      t.energyAt (f.rescale u w).initial.component (w * x.component) (f.rescale u w).dt)) =
        (f.terms.map fun t => (t.name, t.energyAt f.initial.component x.component f.dt)).map
          fun p => (p.1, u.energy * p.2) := by
    unfold rescale
    rw [List.map_map, List.map_map]
    refine List.map_congr_left fun t ht => Prod.ext (hname t) ?_
    rw [Components.component_rescale]
    exact Term.energyAt_rescale (h t ht) _ _ _
  rw [breakdown_eq_ok, dimension_rescale, Components.size_rescale, forall_fitsIn_rescale,
    Components.component_rescale, hparts]
  constructor
  · rintro ⟨hdim, hfit, rfl⟩
    exact ⟨_, breakdown_eq_ok.2 ⟨hdim, hfit, rfl⟩, rfl⟩
  · rintro ⟨parts, hparts, rfl⟩
    obtain ⟨hdim, hfit, rfl⟩ := breakdown_eq_ok.1 hparts
    exact ⟨hdim, hfit, rfl⟩

/-- A step can be made in the new units if it can in the old ones. -/
theorem make_rescale : make (f.rescale u w).initial (f.rescale u w).dt (f.rescale u w).terms =
    .ok (f.rescale u w) ↔ make f.initial f.dt f.terms = .ok f := by
  have hdt : 0 < u.time * f.dt ↔ 0 < f.dt := mul_pos_iff_of_pos_left u.time_pos
  have hterms : checkTerms (f.initial.rescale w).size (f.terms.map (Term.rescale u)) = .ok () ↔
      checkTerms f.initial.size f.terms = .ok () := by
    rw [checkTerms_eq_ok, checkTerms_eq_ok, Components.size_rescale, List.forall_mem_map]
    refine forall₂_congr fun t _ => ?_
    rw [Term.requiredDimension_rescale, Scales.check_eq_ok, Scales.check_eq_ok]
    exact and_congr_right' Scales.positive_rescale
  rw [make_eq_ok, make_eq_ok]
  exact and_congr hdt (and_congr hterms (iff_of_true rfl rfl))

/-- **The energy of a step does not depend on the units.** Let the units of mass, length and time be
changed, and let the factor of every component agree with what the terms take the component for. Then a
step in the new units has the energies of the old one, each times the factor of an energy, in total and
term by term, and a component of the gradient changes by that factor per factor of the component. The
same holds for a term that is evaluated by itself, whatever the gradient to which it adds, and a step can
be made in the new units exactly if it can in the old ones. -/
theorem homogeneous (u : UnitChange α) (w : ℕ → α) (f : StepEnergy α) (x : Components α)
    (h : ∀ t ∈ f.terms, t.law.Measured u w) :
    (∀ e' g', (f.rescale u w).evaluate (x.rescale w) = .ok (e', g') ↔ ∃ e g, f.evaluate x = .ok (e, g) ∧
      e' = u.energy * e ∧ g' = g.rescale fun i => u.energy / w i) ∧
    (∀ parts', (f.rescale u w).breakdown (x.rescale w) = .ok parts' ↔
      ∃ parts, f.breakdown x = .ok parts ∧ parts' = parts.map fun p => (p.1, u.energy * p.2)) ∧
    (∀ t ∈ f.terms, ∀ e g g', x.size = f.dimension → g.size = x.size →
      t.evaluate f.initial x f.dt g = (.ok e, g') →
        (t.rescale u).evaluate (f.rescale u w).initial (x.rescale w) (f.rescale u w).dt
            (g.rescale fun i => u.energy / w i) =
          (.ok (u.energy * e), g'.rescale fun i => u.energy / w i)) ∧
    (make (f.rescale u w).initial (f.rescale u w).dt (f.rescale u w).terms = .ok (f.rescale u w) ↔
      make f.initial f.dt f.terms = .ok f) := by
  refine ⟨fun e' g' => evaluate_rescale h, fun parts' => breakdown_rescale h, ?_, make_rescale⟩
  intro t ht e g g' hx hg heval
  have hfit : t.FitsIn x.size := Term.fits_of_evaluate (congrArg Prod.fst heval)
  have hfit₀ : t.FitsIn f.initial.size := by
    have hsize : f.initial.size = x.size := hx.symm
    rwa [hsize]
  refine (Term.evaluate_rescale (h t ht) hfit₀ hfit hg).trans ?_
  rw [heval]
  rfl

end StepEnergy

end

/-- Units in which masses have twice the number, lengths three times and times half the number. -/
def otherUnits : UnitChange ℚ := ⟨2, 3, 1 / 2, by decide +kernel, by decide +kernel, by decide +kernel⟩

/-- By which factors the components of the rocket's state change. -/
def rocketFactor (i : ℕ) : ℚ :=
  otherUnits.factor ([.mass, .length, .velocity, .acceleration, .force, .number, .number, .number,
    .number, .flow, .velocity].getD i .number)

/-- The rocket in other units, where it has not risen: the energy of the step and its gradient, and
those of its mass alone. -/
theorem homogeneous_rocket :
    (StepEnergy.rocket.rescale otherUnits rocketFactor).evaluate
        (StepEnergy.rocket.initial.rescale rocketFactor) =
      .ok (72 * (4845 / 64), Components.rescale (fun i => 72 / rocketFactor i)
        #[233 / 128, 0, -151 / 2, 115 / 4, 19 / 4, 0, 0, 0, 0, 195 / 2, -19 / 4]) ∧
    Term.evaluate ⟨.mass ⟨⟨0⟩, [], [⟨9⟩]⟩, (Scales.ofMotion 10 5 2).rescale otherUnits⟩
        (StepEnergy.rocket.initial.rescale rocketFactor)
        (StepEnergy.rocket.initial.rescale rocketFactor) 1 (Components.zeros 11) =
      (.ok (72 * (5 / 2)), #[90, 0, 0, 0, 0, 0, 0, 0, 0, 45, 0]) := by
  have hmeasured : ∀ t ∈ StepEnergy.rocket.terms, t.law.Measured otherUnits rocketFactor := by
    unfold Law.Measured
    decide +kernel
  have henergy : otherUnits.energy = 72 := by decide +kernel
  obtain ⟨htotal, -, hterm, -⟩ := StepEnergy.homogeneous otherUnits rocketFactor StepEnergy.rocket
    StepEnergy.rocket.initial hmeasured
  rw [henergy] at htotal hterm
  refine ⟨(htotal _ _).2 ⟨4845 / 64, _, by decide +kernel, rfl, rfl⟩, ?_⟩
  have hmass := hterm ⟨.mass ⟨⟨0⟩, [], [⟨9⟩]⟩, Scales.ofMotion 10 5 2⟩ (by decide +kernel) (5 / 2)
    (Components.zeros 11) #[5 / 2, 0, 0, 0, 0, 0, 0, 0, 0, 5 / 2, 0] rfl rfl (by decide +kernel)
  have hclock : otherUnits.time * StepEnergy.rocket.dt = 1 := by decide +kernel
  have hshare : Components.rescale (fun i => 72 / rocketFactor i)
      #[5 / 2, 0, 0, 0, 0, 0, 0, 0, 0, 5 / 2, 0] = #[90, 0, 0, 0, 0, 0, 0, 0, 0, 45, 0] := by
    decide +kernel
  unfold StepEnergy.rescale at hmass
  rw [Components.rescale_zeros, hclock, hshare] at hmass
  exact hmass

end EnergyStep
