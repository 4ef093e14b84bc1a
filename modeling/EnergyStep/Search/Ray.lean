import EnergyStep.Objective
import EnergyStep.Search.Parabolic
import EnergyStep.Search.Secant

/-!
# Minimizing along a line

A function of many variables, restricted to the line through a point along a direction, is a
function of one variable.

* `Ray`: the point and the direction; `Ray.point` is the point a given number of directions away.
* `Objective.along`, `SmoothObjective.alongWithSlope`: the restriction; its slope is the inner
  product of the gradient and the direction.
* `Objective.descend`, `SmoothObjective.descend`: go to the minimum on the line. A line without a
  result leaves the ray as it was, since the new ray is part of the result.
-/

namespace EnergyStep

variable {m : Type → Type} {α : Type} [Scalar α]

/-- A point and a direction. -/
structure Ray (α : Type) where
  origin : Components α
  direction : Components α

namespace Ray

/-- The point `w` directions away from the origin. -/
def point (r : Ray α) (w : α) : Components α :=
  Array.zipWith (fun d p => w * d + p) r.direction r.origin

/-- The ray from the point `w` directions away, whose direction is the way there. -/
def advance (r : Ray α) (w : α) : Ray α :=
  let displacement := r.direction.scale w
  ⟨r.origin.add displacement, displacement⟩

/-- Point and direction have the given number of components. -/
def check (dimension : Nat) (r : Ray α) : Except (Fault α) Unit := do
  checkDimension .lineOrigin dimension r.origin.size
  checkDimension .lineDirection dimension r.direction.size

end Ray

/-- The choices for the minimization on one line. -/
structure LineSearch (α : Type) where
  /-- Relative precision of the location of the minimum. -/
  tolerance : α
  /-- Expansions of the bracket before giving up. -/
  maxExpansions : Nat

namespace LineSearch

/-- The choices for everyday use. -/
def standard : LineSearch α := ⟨1e-7, defaultExpansions⟩

/-- The part of the settings that concerns one line. -/
def ofSettings (s : Settings α) : LineSearch α := ⟨s.lineTolerance, s.maxExpansions⟩

end LineSearch

variable [Monad m] [MonadExceptOf (Fault α) m]

/-- The objective on a line. -/
def Objective.along (f : Objective m α) (r : Ray α) (w : α) : m α :=
  f.value (r.point w)

/-- The objective and its slope on a line. -/
def SmoothObjective.alongWithSlope (f : SmoothObjective m α) (r : Ray α) (w : α) :
    m (α × α) := do
  let (value, gradient) ← f.valueAndGradient (r.point w)
  pure (value, gradient.dot r.direction)

/-- A bracket on the line, from the origin and the point one direction away. -/
def Objective.bracketAlong (f : Objective m α) (search : LineSearch α) (r : Ray α) :
    m (Bracket α) := do
  ensure (r.check f.dimension)
  Bracket.find (f.along r) 0 1 search.maxExpansions

/-- Goes to the minimum on the line: the ray from there, with the way made as its direction, and the
value there. -/
def Objective.descend (f : Objective m α) (search : LineSearch α) (r : Ray α) :
    m (Ray α × α) := do
  let bracket ← f.bracketAlong search r
  let minimum ← Parabolic.minimize (f.along r) bracket search.tolerance
  pure (r.advance minimum.x, minimum.value)

/-- Goes to the minimum on the line with the help of slopes: the ray from there, and the value and
the gradient there. -/
def SmoothObjective.descend (f : SmoothObjective m α) (search : LineSearch α)
    (r : Ray α) : m (Ray α × α × Components α) := do
  let bracket ← f.bracketAlong search r
  let minimum ← Secant.minimize (f.alongWithSlope r) bracket search.tolerance
  let there := r.advance minimum.x
  let (value, gradient) ← f.valueAndGradient there.origin
  pure (there, value, gradient)

end EnergyStep
