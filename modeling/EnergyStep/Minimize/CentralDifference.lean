import EnergyStep.Objective

/-!
# Gradients by central differences

* `Objective.differenceGradient`: each component from the values on both sides of the point. The
  distance grows with the coordinate, so that it is not lost in its rounding.
-/

namespace EnergyStep

variable {m : Type → Type} {α : Type} [Scalar α] [Monad m] [MonadExceptOf (Fault α) m]

/-- The distance from the coordinate `x` at which the function is evaluated. -/
def differenceWidth (step x : α) : α := step * Scalar.larger (Scalar.abs x) 1

/-- The difference quotient in the coordinate `i`. -/
def Objective.differenceQuotient (f : Objective m α) (step : α) (x : Components α)
    (i : Fin x.size) : m α := do
  let h := differenceWidth step x[i]
  let forward ← f.value (x.set i (x[i] + h))
  let backward ← f.value (x.set i (x[i] - h))
  pure ((forward - backward) / (2.0 * h))

/-- The gradient at `x` from central differences. -/
def Objective.differenceGradient (f : Objective m α) (x : Components α) (step : α) :
    m (Components α) := do
  ensure (checkDimension (α := α) .differencePoint f.dimension x.size)
  unless Scalar.isPositive step do
    throw (Fault.argument (.differenceStep step))
  let quotients ← (List.finRange x.size).mapM (f.differenceQuotient step x)
  pure quotients.toArray

end EnergyStep
