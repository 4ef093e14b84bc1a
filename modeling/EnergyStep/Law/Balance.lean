import EnergyStep.Scales
import EnergyStep.Law.Contribution

/-!
# Balances of mass and momentum

A body exchanges mass with its surroundings, and along one axis it has a velocity and feels forces.
What enters and leaves is integrated over a step with the mean of the rates before and after.

* `MassBalance`: the mass changes by what flows in and out.
* `MomentumBalance`: the momentum changes by the impulse of forces and transferred mass.
* `NewtonBalance`: mass times acceleration is force plus the thrust of transferred mass, after the
  step.
-/

namespace EnergyStep

variable {α : Type} [Scalar α]

/-- A stream of mass into or out of a body. -/
structure Transfer where
  /-- Mass per time. -/
  rate : Slot
  /-- The velocity of the stream along the axis. -/
  velocity : Slot
deriving DecidableEq, Repr

/-- What a stream carries in one state. -/
structure Flow (α : Type) where
  transfer : Transfer
  rate : α
  velocity : α

namespace Transfer

def slots (t : Transfer) : List Slot := [t.rate, t.velocity]

/-- What the stream carries in a state. -/
def read (t : Transfer) (x : Components α) : Except (Fault α) (Flow α) := do
  let rate ← t.rate.read x
  let velocity ← t.velocity.read x
  pure ⟨t, rate, velocity⟩

end Transfer

/-- The mass of a body and the rates at which mass enters and leaves. -/
structure MassBalance where
  mass : Slot
  inflows : List Slot
  outflows : List Slot
deriving DecidableEq, Repr

namespace MassBalance

/-- A body that exchanges no mass. -/
def closed (mass : Slot) : MassBalance := ⟨mass, [], []⟩

/-- All positions that matter. -/
def slots (b : MassBalance) : List Slot := b.mass :: (b.inflows ++ b.outflows)

/-- The net rate at which mass enters in a state. -/
def netRate (b : MassBalance) (x : Components α) : Except (Fault α) α := do
  let gained ← b.inflows.mapM (·.read x)
  let lost ← b.outflows.mapM (·.read x)
  pure (lost.foldl (· - ·) (gained.foldl (· + ·) 0))

/-- The change of mass less the mass transferred. -/
def violation (b : MassBalance) (initial state : Components α) (dt : α) :
    Except (Fault α) α := do
  let (m₀, m) ← b.mass.readPair initial state
  let r₀ ← b.netRate initial
  let r ← b.netRate state
  pure (m - m₀ - 0.5 * dt * (r₀ + r))

/-- What to add to the gradient where the violation has the slope `s`. -/
def additions (b : MassBalance) (dt s : α) : List (Addition α) :=
  b.mass.addition s :: (b.inflows.map (·.addition (-0.5 * dt * s)) ++
    b.outflows.map (·.addition (0.5 * dt * s)))

/-- Energy and gradient of the violation. -/
def contribution (b : MassBalance) (scales : Scales α)
    (initial state : Components α) (dt : α) : Except (Fault α) (Contribution α) := do
  let penalty := squaredError scales.energy scales.mass (← b.violation initial state dt)
  pure ⟨penalty.energy, b.additions dt penalty.slope⟩

end MassBalance

/-- The momentum of a body along an axis and what changes it. -/
structure MomentumBalance where
  mass : Slot
  velocity : Slot
  forces : List Slot
  inflows : List Transfer
  outflows : List Transfer
deriving DecidableEq, Repr

namespace MomentumBalance

def slots (b : MomentumBalance) : List Slot :=
  [b.mass, b.velocity] ++ b.forces ++ b.inflows.flatMap Transfer.slots ++
    b.outflows.flatMap Transfer.slots

/-- The rate at which momentum enters in a state, by streams of mass and by forces. -/
def rate (b : MomentumBalance) (x : Components α) : Except (Fault α) α := do
  let gained ← b.inflows.mapM (·.read x)
  let lost ← b.outflows.mapM (·.read x)
  let forces ← b.forces.mapM (·.read x)
  let flux := gained.foldl (fun sum t => sum + t.rate * t.velocity) 0
  let flux := lost.foldl (fun sum t => sum - t.rate * t.velocity) flux
  pure (forces.foldl (· + ·) flux)

/-- What to add to the gradient where the violation has the slope `s`, for the mass `m`, the velocity
`v` and the streams after the step. -/
def additions (b : MomentumBalance) (dt s m v : α) (gained lost : List (Flow α)) :
    List (Addition α) :=
  let half := 0.5 * dt * s
  [b.mass.addition (v * s), b.velocity.addition (m * s)] ++
    b.forces.map (·.addition (-half)) ++
    gained.flatMap (fun t =>
      [t.transfer.rate.addition (-half * t.velocity),
        t.transfer.velocity.addition (-half * t.rate)]) ++
    lost.flatMap (fun t =>
      [t.transfer.rate.addition (half * t.velocity),
        t.transfer.velocity.addition (half * t.rate)])

/-- Energy and gradient of the change of momentum less the impulse. -/
def contribution (b : MomentumBalance) (scales : Scales α)
    (initial state : Components α) (dt : α) : Except (Fault α) (Contribution α) := do
  let (m₀, m) ← b.mass.readPair initial state
  let (v₀, v) ← b.velocity.readPair initial state
  let p₀ ← b.rate initial
  let p ← b.rate state
  let penalty := squaredError scales.energy scales.momentum
    (m * v - m₀ * v₀ - 0.5 * dt * (p₀ + p))
  let gained ← b.inflows.mapM (·.read state)
  let lost ← b.outflows.mapM (·.read state)
  pure ⟨penalty.energy, b.additions dt penalty.slope m v gained lost⟩

end MomentumBalance

/-- The acceleration of a body along an axis and what causes it. -/
structure NewtonBalance where
  mass : Slot
  velocity : Slot
  acceleration : Slot
  forces : List Slot
  inflows : List Transfer
  outflows : List Transfer
deriving DecidableEq, Repr

namespace NewtonBalance

def slots (b : NewtonBalance) : List Slot :=
  [b.mass, b.velocity, b.acceleration] ++ b.forces ++ b.inflows.flatMap Transfer.slots ++
    b.outflows.flatMap Transfer.slots

/-- What to add to the gradient where the violation has the slope `s`, for the mass `m`, the velocity
`v`, the acceleration `a` and the streams. -/
def additions (b : NewtonBalance) (s m v a : α) (gained lost : List (Flow α)) :
    List (Addition α) :=
  [b.mass.addition (a * s), b.acceleration.addition (m * s)] ++
    b.forces.map (·.addition (-s)) ++
    gained.flatMap (fun t =>
      [t.transfer.rate.addition (-(t.velocity - v) * s),
        t.transfer.velocity.addition (-t.rate * s),
        b.velocity.addition (t.rate * s)]) ++
    lost.flatMap (fun t =>
      [t.transfer.rate.addition ((t.velocity - v) * s),
        t.transfer.velocity.addition (t.rate * s),
        b.velocity.addition (-t.rate * s)])

/-- Energy and gradient of mass times acceleration less forces and thrust. A stream has the velocity
of the body when it joins it, so it thrusts with its velocity relative to the body. -/
def contribution (b : NewtonBalance) (scales : Scales α) (state : Components α) :
    Except (Fault α) (Contribution α) := do
  let m ← b.mass.read state
  let v ← b.velocity.read state
  let a ← b.acceleration.read state
  let forces ← b.forces.mapM (·.read state)
  let gained ← b.inflows.mapM (·.read state)
  let lost ← b.outflows.mapM (·.read state)
  let violation := forces.foldl (· - ·) (m * a)
  let violation := gained.foldl (fun sum t => sum - t.rate * (t.velocity - v)) violation
  let violation := lost.foldl (fun sum t => sum + t.rate * (t.velocity - v)) violation
  let penalty := squaredError scales.energy scales.force violation
  pure ⟨penalty.energy, b.additions penalty.slope m v a gained lost⟩

end NewtonBalance
end EnergyStep
