import EnergyStep.Scalar

/-!
# Settings

What a caller chooses about a minimization and about stepping through time.

* `Settings`: the method, the tolerances and the budgets of one minimization.
* `Settings.defect?`: the first setting with which no minimization can be started.
* `Plan`: the length of a time step, the settings for it, and how often it may be halved.
-/

namespace EnergyStep

variable {α : Type} [Scalar α]

/-- A way to minimize a function of many variables. -/
inductive Method
  /-- Powell's direction sets: values only. -/
  | powell
  /-- Nonlinear conjugate gradients: values and gradients. -/
  | conjugateGradient
deriving DecidableEq, Repr

/-- The choices for one minimization. -/
structure Settings (α : Type) where
  method : Method
  /-- Fraction of the progress below which the outer iteration stops. -/
  tolerance : α
  /-- Relative precision of the location of each minimum on a line. -/
  lineTolerance : α
  /-- Outer iterations before giving up. -/
  maxIterations : Nat
  /-- Expansions of a bracket before giving up a line. -/
  maxExpansions : Nat
deriving DecidableEq

namespace Settings

/-- The choices for everyday use. -/
def standard : Settings α := ⟨.conjugateGradient, 1e-10, 1e-7, 500, 100⟩

/-- The choices for reference solutions. -/
def accurate : Settings α := ⟨.conjugateGradient, 1e-14, 3e-8, 2000, 100⟩

/-- The choices for real-time use. -/
def fast : Settings α := ⟨.conjugateGradient, 1e-6, 1e-4, 100, 100⟩

/-- The settings with another tolerance of the outer iteration. -/
def withTolerance (s : Settings α) (tolerance : α) : Settings α := { s with tolerance := tolerance }

/-- The reasons why a minimization cannot be started. -/
inductive Defect
  | tolerance
  | lineTolerance
  | maxIterations
  | maxExpansions
deriving DecidableEq, Repr

/-- The first setting with which no minimization can be started. -/
def defect? (s : Settings α) : Option Defect :=
  if !Scalar.isPositive s.tolerance then some .tolerance
  else if !Scalar.isPositive s.lineTolerance then some .lineTolerance
  else if s.maxIterations = 0 then some .maxIterations
  else if s.maxExpansions = 0 then some .maxExpansions
  else none

/-- Equal in every choice. -/
def agrees (s t : Settings α) : Bool :=
  s.method == t.method && Scalar.same s.tolerance t.tolerance &&
    Scalar.same s.lineTolerance t.lineTolerance && s.maxIterations == t.maxIterations &&
    s.maxExpansions == t.maxExpansions

end Settings

/-- The choices for stepping through time. -/
structure Plan (α : Type) where
  timestep : α
  settings : Settings α
  /-- How often a step that does not converge is cut in half. -/
  maxHalvings : Nat
deriving DecidableEq

namespace Plan

/-- Standard settings at the given time step. -/
def every (timestep : α) : Plan α := ⟨timestep, Settings.standard, 4⟩

/-- Two hundred and forty steps per unit of time. -/
def standard : Plan α := every (1 / 240.0)

/-- Sixty steps per unit of time, each with fast settings. -/
def fast : Plan α := ⟨1 / 60.0, Settings.fast, 4⟩

/-- A thousand steps per unit of time, each with accurate settings. -/
def accurate : Plan α := ⟨1 / 1000.0, Settings.accurate, 4⟩

def frequency (p : Plan α) : α := 1 / p.timestep

end Plan
end EnergyStep
