import EnergyStep.Proofs.Store.InPlace
import EnergyStep.Law.Term

/-!
# Terms that add to a gradient in place

A term can add to a gradient that is kept in one place and shared with other terms. It reads what it needs
for its violation, then writes amount after amount, and before it writes those of a stream of mass it reads
the stream once more. A reading that failed between two writes would leave half of the slopes in the
gradient. None does, because every stream that is read then has been read before.

* `evaluateInPlace`, for each law: reading and writing in turn.
* `Transfer.forM_read`: streams that are read again.
* `Term.ran_evaluateInPlace`: the gradient afterwards is that of `Term.evaluate`, in any arithmetic.
-/

namespace EnergyStep

variable {α : Type} [Scalar α]

namespace MassBalance

/-- Makes the additions to the gradient. -/
def additionsInPlace (b : MassBalance) (dt s : α) : Components.InPlace α PUnit := do
  b.mass.addInPlace s
  b.inflows.forM (·.addInPlace (-0.5 * dt * s))
  b.outflows.forM (·.addInPlace (0.5 * dt * s))

def evaluateInPlace (b : MassBalance) (scales : Scales α) (initial state : Components α) (dt : α) :
    Components.InPlace α α := do
  let penalty := squaredError scales.energy scales.mass (← liftExcept (b.violation initial state dt))
  b.additionsInPlace dt penalty.slope
  pure penalty.energy

end MassBalance

namespace MomentumBalance

/-- Makes the additions to the gradient; every stream is read once more for its own. -/
def additionsInPlace (b : MomentumBalance) (state : Components α) (dt s m v : α) :
    Components.InPlace α PUnit := do
  let half := 0.5 * dt * s
  b.mass.addInPlace (v * s)
  b.velocity.addInPlace (m * s)
  b.forces.forM (·.addInPlace (-half))
  b.inflows.forM fun t => do
    let flow ← liftExcept (t.read state)
    t.rate.addInPlace (-half * flow.velocity)
    t.velocity.addInPlace (-half * flow.rate)
  b.outflows.forM fun t => do
    let flow ← liftExcept (t.read state)
    t.rate.addInPlace (half * flow.velocity)
    t.velocity.addInPlace (half * flow.rate)

def evaluateInPlace (b : MomentumBalance) (scales : Scales α) (initial state : Components α) (dt : α) :
    Components.InPlace α α := do
  let (m₀, m) ← liftExcept (b.mass.readPair initial state)
  let (v₀, v) ← liftExcept (b.velocity.readPair initial state)
  let p₀ ← liftExcept (b.rate initial)
  let p ← liftExcept (b.rate state)
  let penalty := squaredError scales.energy scales.momentum
    (m * v - m₀ * v₀ - 0.5 * dt * (p₀ + p))
  b.additionsInPlace state dt penalty.slope m v
  pure penalty.energy

end MomentumBalance

namespace NewtonBalance

/-- Makes the additions to the gradient; every stream is read once more for its own. -/
def additionsInPlace (b : NewtonBalance) (state : Components α) (s m v a : α) :
    Components.InPlace α PUnit := do
  b.mass.addInPlace (a * s)
  b.acceleration.addInPlace (m * s)
  b.forces.forM (·.addInPlace (-s))
  b.inflows.forM fun t => do
    let flow ← liftExcept (t.read state)
    t.rate.addInPlace (-(flow.velocity - v) * s)
    t.velocity.addInPlace (-flow.rate * s)
    b.velocity.addInPlace (flow.rate * s)
  b.outflows.forM fun t => do
    let flow ← liftExcept (t.read state)
    t.rate.addInPlace ((flow.velocity - v) * s)
    t.velocity.addInPlace (flow.rate * s)
    b.velocity.addInPlace (-flow.rate * s)

def evaluateInPlace (b : NewtonBalance) (scales : Scales α) (state : Components α) :
    Components.InPlace α α := do
  let m ← liftExcept (b.mass.read state)
  let v ← liftExcept (b.velocity.read state)
  let a ← liftExcept (b.acceleration.read state)
  let forces ← liftExcept (b.forces.mapM (·.read state))
  let gained ← liftExcept (b.inflows.mapM (·.read state))
  let lost ← liftExcept (b.outflows.mapM (·.read state))
  let violation := forces.foldl (· - ·) (m * a)
  let violation := gained.foldl (fun sum t => sum - t.rate * (t.velocity - v)) violation
  let violation := lost.foldl (fun sum t => sum + t.rate * (t.velocity - v)) violation
  let penalty := squaredError scales.energy scales.force violation
  b.additionsInPlace state penalty.slope m v a
  pure penalty.energy

end NewtonBalance

namespace RateBalance

/-- Makes the additions to the gradient. -/
def additionsInPlace (b : RateBalance) (dt s : α) : Components.InPlace α PUnit := do
  b.quantity.addInPlace s
  b.rate.addInPlace (-0.5 * dt * s)

def evaluateInPlace (b : RateBalance) (energyScale scale : α) (initial state : Components α) (dt : α) :
    Components.InPlace α α := do
  let penalty := squaredError energyScale scale (← liftExcept (b.violation initial state dt))
  b.additionsInPlace dt penalty.slope
  pure penalty.energy

end RateBalance

def VersorConstraint.evaluateInPlace (c : VersorConstraint) (scales : Scales α)
    (state : Components α) : Components.InPlace α α := do
  let q ← liftExcept (c.quat.read state)
  let violation := q.normSq - 1
  let weight := scales.rotationalEnergy
  c.quat.addInPlace (q.scale (4.0 * weight * violation))
  pure (weight * violation * violation)

namespace FieldForce

/-- Makes the additions to the gradient. -/
def additionsInPlace (c : FieldForce α) (s : α) : Components.InPlace α PUnit := do
  c.force.addInPlace s
  c.mass.addInPlace (-c.acceleration * s)

def evaluateInPlace (c : FieldForce α) (scales : Scales α) (state : Components α) :
    Components.InPlace α α := do
  let force ← liftExcept (c.force.read state)
  let mass ← liftExcept (c.mass.read state)
  let penalty := squaredError scales.energy scales.force (force - mass * c.acceleration)
  c.additionsInPlace penalty.slope
  pure penalty.energy

end FieldForce

/-- The energy, with the slopes added to a gradient that is kept in one place. -/
def Term.evaluateInPlace (t : Term α) (initial state : Components α) (dt : α) :
    Components.InPlace α α :=
  match t.law with
  | .mass b => b.evaluateInPlace t.scales initial state dt
  | .momentum b => b.evaluateInPlace t.scales initial state dt
  | .newton b => b.evaluateInPlace t.scales state
  | .position b => b.evaluateInPlace t.scales.energy t.scales.length initial state dt
  | .velocity b => b.evaluateInPlace t.scales.energy t.scales.velocity initial state dt
  | .versor c => c.evaluateInPlace t.scales state
  | .field c => c.evaluateInPlace t.scales state

/-- Makes the additions of a contribution and gives its energy. -/
def Contribution.makeInPlace (c : Contribution α) : Components.InPlace α α := do
  deliverInPlace c.additions
  pure c.energy

theorem Slot.forM_addInPlace (l : List Slot) (a : α) :
    l.forM (fun s => s.addInPlace a) = deliverInPlace (l.map fun s => s.addition a) := List.forM_map.symm

variable {x₀ x : Components α} {dt : α} {scales : Scales α}

/-- **Streams that have been read can be read again**, so their amounts are all written. -/
theorem Transfer.forM_read {body : Transfer → Flow α → Components.InPlace α PUnit}
    (additions : Flow α → List (Addition α))
    (hbody : ∀ t, body t (t.flow x) = deliverInPlace (additions (t.flow x))) :
    ∀ {ts : List Transfer} {flows : List (Flow α)}, ts.mapM (·.read x) = .ok flows →
      (ts.forM fun t => liftExcept (t.read x) >>= body t) =
        deliverInPlace (flows.flatMap additions) := by
  intro ts
  induction ts with
  | nil => intro flows h; cases h; rfl
  | cons t ts ih =>
    intro flows h
    rw [List.mapM_cons] at h
    obtain ⟨w, hw, h⟩ := bind_eq_ok.1 h
    obtain ⟨rest, hrest, h⟩ := bind_eq_ok.1 h
    cases h
    obtain rfl : t.flow x = w := (Transfer.read_eq_ok.1 hw).2
    rw [List.flatMap_cons, deliverInPlace_append, ← ih hrest, ← hbody t]
    show (liftExcept (t.read x) >>= body t) >>= _ = _
    rw [hw]
    rfl

namespace MassBalance

variable (b : MassBalance)

theorem additionsInPlace_eq (dt s : α) : b.additionsInPlace dt s = deliverInPlace (b.additions dt s) := by
  unfold additionsInPlace additions
  rw [Slot.forM_addInPlace, Slot.forM_addInPlace, ← deliverInPlace_append]
  rfl

theorem evaluateInPlace_eq : b.evaluateInPlace scales x₀ x dt =
    liftExcept (b.contribution scales x₀ x dt) >>= Contribution.makeInPlace := by
  unfold evaluateInPlace contribution
  simp only [additionsInPlace_eq]
  cases b.violation x₀ x dt <;> rfl

end MassBalance

namespace MomentumBalance

variable (b : MomentumBalance)

theorem additionsInPlace_eq {gained lost : List (Flow α)} (dt s m v : α)
    (hi : b.inflows.mapM (·.read x) = .ok gained) (ho : b.outflows.mapM (·.read x) = .ok lost) :
    b.additionsInPlace x dt s m v = deliverInPlace (b.additions dt s m v gained lost) := by
  have hwrite : ∀ (t : Transfer) (p q : α), (t.rate.addInPlace p >>= fun _ => t.velocity.addInPlace q) =
      deliverInPlace [t.rate.addition p, t.velocity.addition q] :=
    fun _ _ _ => (deliverInPlace_pair _ _).symm
  unfold additionsInPlace additions
  dsimp only
  rw [Slot.forM_addInPlace,
    Transfer.forM_read (fun w => [w.transfer.rate.addition (-(0.5 * dt * s) * w.velocity),
      w.transfer.velocity.addition (-(0.5 * dt * s) * w.rate)]) (fun t => hwrite t _ _) hi,
    Transfer.forM_read (fun w => [w.transfer.rate.addition (0.5 * dt * s * w.velocity),
      w.transfer.velocity.addition (0.5 * dt * s * w.rate)]) (fun t => hwrite t _ _) ho]
  simp only [deliverInPlace_append, deliverInPlace_pair, bind_assoc]
  rfl

/-- Where there is a rate of momentum every stream has been read. -/
theorem mapM_read_of_rate {p : α} (h : b.rate x = .ok p) :
    ∃ gained lost, b.inflows.mapM (·.read x) = .ok gained ∧ b.outflows.mapM (·.read x) = .ok lost := by
  obtain ⟨gained, hi, h⟩ := bind_eq_ok.1 h
  obtain ⟨lost, ho, -⟩ := bind_eq_ok.1 h
  exact ⟨gained, lost, hi, ho⟩

theorem evaluateInPlace_eq : b.evaluateInPlace scales x₀ x dt =
    liftExcept (b.contribution scales x₀ x dt) >>= Contribution.makeInPlace := by
  unfold evaluateInPlace contribution
  cases b.mass.readPair x₀ x with
  | error fault => rfl
  | ok m =>
    cases b.velocity.readPair x₀ x with
    | error fault => rfl
    | ok v =>
      cases b.rate x₀ with
      | error fault => rfl
      | ok p₀ =>
        cases hp : b.rate x with
        | error fault => rfl
        | ok p =>
          obtain ⟨gained, lost, hi, ho⟩ := b.mapM_read_of_rate hp
          simp only [b.additionsInPlace_eq _ _ _ _ hi ho, hi, ho]
          rfl

end MomentumBalance

namespace NewtonBalance

variable (b : NewtonBalance)

theorem additionsInPlace_eq {gained lost : List (Flow α)} (s m v a : α)
    (hi : b.inflows.mapM (·.read x) = .ok gained) (ho : b.outflows.mapM (·.read x) = .ok lost) :
    b.additionsInPlace x s m v a = deliverInPlace (b.additions s m v a gained lost) := by
  have hwrite : ∀ (t : Transfer) (p q r : α), (t.rate.addInPlace p >>= fun _ =>
      t.velocity.addInPlace q >>= fun _ => b.velocity.addInPlace r) =
        deliverInPlace [t.rate.addition p, t.velocity.addition q, b.velocity.addition r] :=
    fun t p _ _ => congrArg (t.rate.addInPlace p >>= ·) (funext fun _ => (deliverInPlace_pair _ _).symm)
  unfold additionsInPlace additions
  rw [Slot.forM_addInPlace,
    Transfer.forM_read (fun w => [w.transfer.rate.addition (-(w.velocity - v) * s),
      w.transfer.velocity.addition (-w.rate * s), b.velocity.addition (w.rate * s)])
      (fun t => hwrite t _ _ _) hi,
    Transfer.forM_read (fun w => [w.transfer.rate.addition ((w.velocity - v) * s),
      w.transfer.velocity.addition (w.rate * s), b.velocity.addition (-w.rate * s)])
      (fun t => hwrite t _ _ _) ho]
  simp only [deliverInPlace_append, deliverInPlace_pair, bind_assoc]
  rfl

theorem evaluateInPlace_eq : b.evaluateInPlace scales x =
    liftExcept (b.contribution scales x) >>= Contribution.makeInPlace := by
  unfold evaluateInPlace contribution
  cases b.mass.read x with
  | error fault => rfl
  | ok m =>
    cases b.velocity.read x with
    | error fault => rfl
    | ok v =>
      cases b.acceleration.read x with
      | error fault => rfl
      | ok a =>
        cases b.forces.mapM (·.read x) with
        | error fault => rfl
        | ok forces =>
          cases hi : b.inflows.mapM (·.read x) with
          | error fault => rfl
          | ok gained =>
            cases ho : b.outflows.mapM (·.read x) with
            | error fault => rfl
            | ok lost =>
              simp only [b.additionsInPlace_eq _ _ _ _ hi ho]
              rfl

end NewtonBalance

theorem RateBalance.evaluateInPlace_eq (b : RateBalance) (energyScale scale : α) :
    b.evaluateInPlace energyScale scale x₀ x dt =
      liftExcept (b.contribution energyScale scale x₀ x dt) >>= Contribution.makeInPlace := by
  have hwrite : ∀ s, b.additionsInPlace dt s =
      deliverInPlace [b.quantity.addition s, b.rate.addition (-0.5 * dt * s)] :=
    fun _ => (deliverInPlace_pair _ _).symm
  unfold evaluateInPlace contribution
  simp only [hwrite]
  cases b.violation x₀ x dt <;> rfl

theorem VersorConstraint.evaluateInPlace_eq (c : VersorConstraint) : c.evaluateInPlace scales x =
    liftExcept (c.contribution scales x) >>= Contribution.makeInPlace := by
  have hwrite : ∀ q : Quat α, c.quat.addInPlace q = deliverInPlace [c.quat.entries q] :=
    fun _ => (deliverInPlace_singleton _).symm
  unfold evaluateInPlace contribution
  simp only [hwrite]
  cases c.quat.read x <;> rfl

theorem FieldForce.evaluateInPlace_eq (c : FieldForce α) : c.evaluateInPlace scales x =
    liftExcept (c.contribution scales x) >>= Contribution.makeInPlace := by
  have hwrite : ∀ s, c.additionsInPlace s =
      deliverInPlace [c.force.addition s, c.mass.addition (-c.acceleration * s)] :=
    fun _ => (deliverInPlace_pair _ _).symm
  unfold evaluateInPlace contribution
  simp only [hwrite]
  cases c.force.read x with
  | error fault => rfl
  | ok force => cases c.mass.read x <;> rfl

namespace Term

theorem evaluateInPlace_eq (t : Term α) : t.evaluateInPlace x₀ x dt =
    liftExcept (t.contribution x₀ x dt) >>= Contribution.makeInPlace := by
  obtain ⟨law, scales⟩ := t
  cases law with
  | mass b => exact b.evaluateInPlace_eq
  | momentum b => exact b.evaluateInPlace_eq
  | newton b => exact b.evaluateInPlace_eq
  | position b => exact b.evaluateInPlace_eq _ _
  | velocity b => exact b.evaluateInPlace_eq _ _
  | versor c => exact c.evaluateInPlace_eq
  | field c => exact c.evaluateInPlace_eq

/-- **Reading and writing in turn** ends as reading first and writing then does: with the same energy or
fault, and the same gradient. -/
theorem ran_evaluateInPlace (t : Term α) (x₀ x : Components α) (dt : α) (g : Components α) :
    (t.evaluateInPlace x₀ x dt).ran g = t.evaluate x₀ x dt g := by
  rw [evaluateInPlace_eq, Recording.ran_bind, Recording.ran_liftExcept]
  unfold evaluate
  cases t.contribution x₀ x dt with
  | error fault => rfl
  | ok c =>
    dsimp only
    unfold Contribution.makeInPlace
    rw [Recording.ran_bind, ran_deliverInPlace]
    cases deliver c.additions g with
    | mk outcome g' => cases outcome <;> rfl

end Term
end EnergyStep
