import EnergyStep.Fault
import EnergyStep.Linear.Dot

/-!
# Objectives

Functions that are minimized. An evaluation happens in a monad `m` that can fail with a `Fault`; a
plain objective has `m = Except (Fault α)`, one that keeps a record of its calls has more.

* `Objective`: a function of vectors with a fixed number of components.
* `SmoothObjective`: one that also knows its gradient.
* `Objective.guarded`, `SmoothObjective.guarded`: refuse vectors of another length.
* `SlopedFunction`: a function of one number that also knows its slope.
* `Objective.record`, `SmoothObjective.record`, `SlopedFunction.record`: what is printed of them.
-/

namespace EnergyStep

variable {m : Type → Type} {α : Type}

/-- A real function of vectors with `dimension` components. -/
structure Objective (m : Type → Type) (α : Type) where
  dimension : Nat
  value : Components α → m α

/-- A real function of vectors that knows its gradient. -/
structure SmoothObjective (m : Type → Type) (α : Type) extends Objective m α where
  valueAndGradient : Components α → m (α × Components α)

/-- A real function of one number that knows its slope. -/
structure SlopedFunction (m : Type → Type) (α : Type) where
  valueAndSlope : α → m (α × α)

/-- The printed record of something that has a dimension and a function, which cannot be printed. -/
private def dimensionRecord (name : String) (dimension : Nat) : String :=
  name ++ " \x7b dimension: " ++ toString dimension ++ ", .. \x7d"

def Objective.record (f : Objective m α) : String := dimensionRecord "FnMultivariate" f.dimension

def SmoothObjective.record (f : SmoothObjective m α) : String :=
  dimensionRecord "FnDifferentiable" f.dimension

/-- There is nothing but the function. -/
def SlopedFunction.record (_ : SlopedFunction m α) : String := "SlopeFn(..)"

/-- The value without the slope. -/
def SlopedFunction.value [Monad m] (f : SlopedFunction m α) (x : α) : m α := do
  pure (← f.valueAndSlope x).1

variable [Monad m] [MonadExceptOf (Fault α) m]

/-- A precondition as a step of an evaluation. -/
def ensure (check : Except (Fault α) Unit) : m Unit := liftExcept check

/-- The objective that evaluates `f` on vectors of the right length only. -/
def Objective.guarded (dimension : Nat) (f : Components α → m α) : Objective m α where
  dimension := dimension
  value x := do
    ensure (checkDimension (α := α) .functionArgument dimension x.size)
    f x

/-- The objective with gradient that evaluates `f` and `g` on vectors of the right length only, and
accepts gradients of the right length only. -/
def SmoothObjective.guarded (dimension : Nat) (f : Components α → m α)
    (g : Components α → m (α × Components α)) : SmoothObjective m α where
  toObjective := Objective.guarded dimension f
  valueAndGradient x := do
    ensure (checkDimension (α := α) .functionArgument dimension x.size)
    let (value, gradient) ← g x
    ensure (checkDimension (α := α) .functionGradient dimension gradient.size)
    pure (value, gradient)

/-- The objective with gradient whose value is the first part of `g`. -/
def SmoothObjective.ofPair (dimension : Nat)
    (g : Components α → m (α × Components α)) : SmoothObjective m α :=
  SmoothObjective.guarded dimension (fun x => do pure (← g x).1) g

end EnergyStep
