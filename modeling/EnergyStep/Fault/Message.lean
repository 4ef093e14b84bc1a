import EnergyStep.Fault
import EnergyStep.Decimal.Style

/-!
# Messages of faults

The text that tells a reader why there is no result. Numbers in running text are written plainly;
the numbers of a printed record are marked as floating-point.

* `Fault.message`: the whole text.
-/

namespace EnergyStep

open Decimal

/-- A number in running text. -/
private def inText (x : Float) : String := plain.write x

/-- A number in a printed record. -/
private def inRecord (x : Float) : String := marked.write x

def Subject.text : Subject → String
  | functionArgument => "function argument"
  | functionGradient => "function gradient"
  | lineOrigin => "line origin"
  | lineDirection => "line direction"
  | startingPoint => "starting point"
  | differencePoint => "finite difference point"
  | mappedVector => "mapped vector"
  | vectorIndices => "vector mapper indices"
  | candidateState => "energy function state"
  | initialState => "initial state"
  | stepperState => "stepper state"
  | named text => text

def BaseScale.text : BaseScale → String
  | mass => "mass"
  | length => "length"
  | time => "time"
  | specificEnergy => "specific_energy"

def Sample.record (s : Sample Float) : String :=
  "LinePoint \x7b x: " ++ inRecord s.x ++ ", value: " ++ inRecord s.value ++ " \x7d"

def Bracket.record (t : Bracket Float) : String :=
  "Bracket \x7b a: " ++ t.a.record ++ ", b: " ++ t.b.record ++ ", c: " ++ t.c.record ++ " \x7d"

def Method.text : Method → String
  | powell => "Powell"
  | conjugateGradient => "ConjugateGradient"

def Settings.record (s : Settings Float) : String :=
  "MinimizerConfig \x7b method: " ++ s.method.text ++ ", tolerance: " ++ inRecord s.tolerance ++
    ", line_tolerance: " ++ inRecord s.lineTolerance ++
    ", max_iterations: " ++ toString s.maxIterations ++
    ", max_bracket_iterations: " ++ toString s.maxExpansions ++ " \x7d"

/-- What has to be changed about the settings. -/
def Settings.Defect.text : Settings.Defect → String
  | tolerance => "tolerance must be positive and finite"
  | lineTolerance => "line_tolerance must be positive and finite"
  | maxIterations => "max_iterations must be at least 1"
  | maxExpansions => "max_bracket_iterations must be at least 1"

def ArgumentFault.text : ArgumentFault Float → String
  | seedsNotFinite => "bracket seeds must be finite"
  | seedsEqual => "bracket seeds must be distinct"
  | notBracket t =>
    "(" ++ inText t.a.x ++ ", " ++ inText t.b.x ++ ", " ++ inText t.c.x ++ ") with values (" ++
      inText t.a.value ++ ", " ++ inText t.b.value ++ ", " ++ inText t.c.value ++
      ") is not a bracket"
  | searchBracket t => "not a valid bracket: " ++ t.record
  | lineTolerance tolerance =>
    "line tolerance must be positive and finite, got " ++ inText tolerance
  | noVariables => "cannot minimize a function of zero variables"
  | differenceStep step => "finite difference step must be positive, got " ++ inText step
  | zeroRotation => "stored rotation has zero norm"
  | orientationNotStored => "particle has an orientation but its layout stores none"
  | runDuration duration =>
    "run duration must be non-negative and finite, got " ++ inText duration
  | stated reason => reason

def ConfigFault.text : ConfigFault Float → String
  | scale name value =>
    "reference " ++ name.text ++ " must be positive and finite, got " ++ inText value
  | settings defect => defect.text
  | sharedIndex index =>
    "state index " ++ toString index ++ " is assigned to more than one quantity"
  | shortState term required actual =>
    term ++ " term needs a state of at least " ++ toString required ++ " components, got " ++
      toString actual
  | settingsDiffer plan solver =>
    "integrator minimizer " ++ plan.record ++ " differs from the solver's " ++ solver.record
  | stated reason => reason

/-- Why the numbers make no progress possible. -/
def ConditionFault.text : ConditionFault Float → String
  | leftFiniteRange x => "search left the finite range at x = " ++ inText x
  | valueNotFinite value x =>
    "non-finite function value " ++ inText value ++ " at x = " ++ inText x
  | slopeNotFinite value slope x =>
    "non-finite value " ++ inText value ++ " or slope " ++ inText slope ++ " at x = " ++ inText x
  | noBracket expansions last =>
    "no bracket after " ++ toString expansions ++ " expansions (last point " ++ inText last.x ++
      ", value " ++ inText last.value ++ ")"
  | parabolicSearch iterations =>
    "brent search did not converge in " ++ toString iterations ++ " iterations"
  | secantSearch iterations =>
    "brent search with slope did not converge in " ++ toString iterations ++ " iterations"
  | startNotFinite value => "non-finite value " ++ inText value ++ " at the starting point"
  | directionSets iterations =>
    "powell did not converge in " ++ toString iterations ++ " iterations"
  | gradientNotFinite value =>
    "non-finite value " ++ inText value ++ " or gradient during conjugate gradient"
  | conjugateGradient iterations =>
    "conjugate gradient did not converge in " ++ toString iterations ++ " iterations"
  | stated reason => reason

def Fault.message : Fault Float → String
  | dimension subject expected actual =>
    "dimension mismatch in " ++ subject.text ++ ": expected " ++ toString expected ++ ", got " ++
      toString actual
  | index i size =>
    "state index " ++ toString i ++ " out of range for dimension " ++ toString size
  | argument cause => "invalid argument: " ++ cause.text
  | timestep dt => "invalid timestep: " ++ inText dt ++ " (must be positive and finite)"
  | config cause => "invalid configuration: " ++ cause.text
  | condition cause => "poorly conditioned: " ++ cause.text

end EnergyStep
