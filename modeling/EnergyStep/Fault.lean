import EnergyStep.Scales
import EnergyStep.Settings
import EnergyStep.Search.Sample

/-!
# Faults

Why an evaluation, a minimization or a step has no result. All causes but one are preconditions
that the caller broke; a fault of the other kind (`Fault.condition`) says that the numbers made no
progress possible, and only such a step is worth another try with a smaller time step.

* `Fault`: the causes.
* `checkDimension`, `checkTimestep`, `Scales.check`, `Settings.check`, `Plan.check`: the
  preconditions that are checked in several places.
-/

namespace EnergyStep

/-- Which vector has the wrong number of components. -/
inductive Subject
  | functionArgument
  | functionGradient
  | lineOrigin
  | lineDirection
  | startingPoint
  | differencePoint
  | mappedVector
  | vectorIndices
  | candidateState
  | initialState
  | stepperState
  | named (text : String)
deriving DecidableEq, Repr

/-- What is wrong with an argument. -/
inductive ArgumentFault (α : Type)
  | seedsNotFinite
  | seedsEqual
  /-- Three samples given as a bracket are none. -/
  | notBracket (samples : Bracket α)
  /-- A search was started on samples that are no bracket. -/
  | searchBracket (samples : Bracket α)
  | lineTolerance (tolerance : α)
  | noVariables
  | differenceStep (step : α)
  | zeroRotation
  | orientationNotStored
  | runDuration (duration : α)
  | stated (reason : String)
deriving DecidableEq

/-- What is wrong with a configuration. -/
inductive ConfigFault (α : Type)
  | scale (scale : BaseScale) (value : α)
  | settings (defect : Settings.Defect)
  /-- Two quantities own the same component of the state. -/
  | sharedIndex (index : Nat)
  /-- A term needs more components than the state has. -/
  | shortState (term : String) (required actual : Nat)
  /-- The plan has other settings than the solver. -/
  | settingsDiffer (plan solver : Settings α)
  | stated (reason : String)
deriving DecidableEq

/-- Why the numbers make no progress possible. -/
inductive ConditionFault (α : Type)
  | leftFiniteRange (x : α)
  | valueNotFinite (value x : α)
  | slopeNotFinite (value slope x : α)
  | noBracket (expansions : Nat) (last : Sample α)
  | parabolicSearch (iterations : Nat)
  | secantSearch (iterations : Nat)
  | startNotFinite (value : α)
  | directionSets (iterations : Nat)
  | gradientNotFinite (value : α)
  | conjugateGradient (iterations : Nat)
  | stated (reason : String)
deriving DecidableEq

/-- Why there is no result. -/
inductive Fault (α : Type)
  | dimension (subject : Subject) (expected actual : Nat)
  | index (index dimension : Nat)
  | argument (cause : ArgumentFault α)
  | timestep (dt : α)
  | config (cause : ConfigFault α)
  | condition (cause : ConditionFault α)
deriving DecidableEq

/-- The numbers, not the caller, are the cause. -/
def Fault.isPoorlyConditioned {α : Type} : Fault α → Bool
  | .condition _ => true
  | _ => false

/-- The caller broke a precondition. -/
def Fault.isPrecondition {α : Type} (f : Fault α) : Bool := !f.isPoorlyConditioned

variable {α : Type}

/-- A vector has the expected number of components. -/
def checkDimension (subject : Subject) (expected actual : Nat) : Except (Fault α) Unit :=
  if expected = actual then .ok () else .error (.dimension subject expected actual)

variable [Scalar α]

/-- A time step is positive and finite. -/
def checkTimestep (dt : α) : Except (Fault α) Unit :=
  if Scalar.isPositive dt then .ok () else .error (.timestep dt)

/-- Every chosen scale is positive and finite. -/
def Scales.check (s : Scales α) : Except (Fault α) Unit :=
  match s.defect? with
  | none => .ok ()
  | some (scale, value) => .error (.config (.scale scale value))

/-- A minimization can be started with these settings. -/
def Settings.check (s : Settings α) : Except (Fault α) Unit :=
  match s.defect? with
  | none => .ok ()
  | some defect => .error (.config (.settings defect))

/-- Stepping can be started with this plan. -/
def Plan.check (p : Plan α) : Except (Fault α) Unit := do
  checkTimestep p.timestep
  p.settings.check

end EnergyStep
