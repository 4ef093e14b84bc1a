import EnergyStep.Scales
import EnergyStep.Law.Contribution

/-!
# Kinematics

Over a step a quantity changes by the mean of its rate before and after. Position and velocity and
velocity and acceleration are such pairs; they differ in the scale of the violation only.

* `RateBalance.violation`: the change less the mean rate times the time.
* `RateBalance.perAxis`: the balances of all components of a vector.
-/

namespace EnergyStep

variable {α : Type} [Scalar α]

/-- A quantity and its rate. -/
structure RateBalance where
  quantity : Slot
  rate : Slot
deriving DecidableEq, Repr

namespace RateBalance

def slots (b : RateBalance) : List Slot := [b.quantity, b.rate]

/-- The balances of a vector and its rate, one for each component. -/
def perAxis {n : Nat} (quantity rate : Slots n) : List RateBalance :=
  List.ofFn fun axis : Fin n => ⟨quantity.components[axis], rate.components[axis]⟩

/-- The change of the quantity less the mean rate times the time. -/
def violation (b : RateBalance) (initial state : Components α) (dt : α) :
    Except (Fault α) α := do
  let (q₀, q) ← b.quantity.readPair initial state
  let (r₀, r) ← b.rate.readPair initial state
  pure (q - q₀ - 0.5 * dt * (r₀ + r))

/-- Energy and gradient of the violation in the given scale. -/
def contribution (b : RateBalance) (energyScale scale : α)
    (initial state : Components α) (dt : α) : Except (Fault α) (Contribution α) := do
  let penalty := squaredError energyScale scale (← b.violation initial state dt)
  let s := penalty.slope
  pure ⟨penalty.energy, [b.quantity.addition s, b.rate.addition (-0.5 * dt * s)]⟩

end RateBalance
end EnergyStep
