import EnergyStep.Proofs.System.Exchange

/-!
# Thrust

A stream that joins a body takes on its velocity, and one that leaves has had it, so what it thrusts with
is its velocity relative to the body. The balance of momentum has the streams at their own velocities and
the balance of mass without any. Together they say as much: the momentum of a body changes by its mass
times its acceleration and its velocity times the change of its mass.

* `Body.net_relative`: what streams carry relative to a velocity.
* `Body.Rates`: the rates that the balances integrate.
* `DrivenBody`: balances and Newton's law for one body, with the same forces and streams.
* `DrivenBody.violationAt_eq`: the violation of Newton's law in terms of the rates.
* `newton_iff_balances`: where the energies of the three laws are zero.
* `DrivenBody.newton_iff_of_motion`: the acceleration along a motion.
-/

namespace EnergyStep

variable {α : Type} [Exact α]

theorem sum_map_sub {β : Type} (f g : β → α) (l : List β) :
    (l.map fun b => f b - g b).sum = (l.map f).sum - (l.map g).sum := by
  induction l with
  | nil => simp
  | cons b l ih =>
    simp only [List.map_cons, List.sum_cons, ih]
    ring

/-- **What streams carry relative to a velocity**: each one less by that velocity for what it weighs. -/
theorem Body.net_relative (b : Body) (weight carried : Transfer → α) (v : α) :
    b.net (fun t => weight t * (carried t - v)) =
      b.net (fun t => weight t * carried t) - b.net weight * v := by
  unfold net
  simp only [mul_sub, sum_map_sub, List.sum_map_mul_right]
  ring

/-- **The rates that the balances integrate**: those at which mass and momentum enter the body. -/
structure Body.Rates (b : Body) (x : Components α) (massRate momentumRate : α) : Prop where
  mass : b.massBalance.netRate x = .ok massRate
  momentum : b.momentumBalance.rate x = .ok momentumRate

/-- **A body with an acceleration.** Newton's law for it has the forces and the streams of its balances, in
any order. -/
structure DrivenBody extends Body where
  newtonBalance : NewtonBalance
  newton_mass : newtonBalance.mass = massBalance.mass
  newton_velocity : newtonBalance.velocity = momentumBalance.velocity
  newton_forces : newtonBalance.forces.Perm momentumBalance.forces
  newton_inflows : newtonBalance.inflows.Perm momentumBalance.inflows
  newton_outflows : newtonBalance.outflows.Perm momentumBalance.outflows

namespace DrivenBody

variable (b : DrivenBody)

def velocityAt (σ : ℕ → α) : α := σ b.momentumBalance.velocity.index

def accelerationAt (σ : ℕ → α) : α := σ b.newtonBalance.acceleration.index

/-- **The violation of Newton's law**: mass times acceleration and velocity times the rate of the mass, less
the rate of the momentum. -/
theorem violationAt_eq (σ : ℕ → α) : b.newtonBalance.violationAt σ =
    b.massAt σ * b.accelerationAt σ + b.velocityAt σ * b.massBalance.rateAt σ -
      b.momentumBalance.rateAt σ := by
  have hforces := (b.newton_forces.map fun s => σ s.index).sum_eq
  have hthrust : ∀ relative : Transfer → α, (b.newtonBalance.inflows.map relative).sum -
      (b.newtonBalance.outflows.map relative).sum = b.net relative := by
    intro relative
    unfold Body.net
    rw [(b.newton_inflows.map relative).sum_eq, (b.newton_outflows.map relative).sum_eq]
  have hrelative := b.net_relative (fun t => σ t.rate.index) (fun t => σ t.velocity.index) (b.velocityAt σ)
  rw [← hthrust] at hrelative
  rw [b.rateAt_momentum, b.rateAt_mass]
  unfold NewtonBalance.violationAt accelerationAt Body.massAt Body.forceAt
  rw [hforces, b.newton_mass, b.newton_velocity]
  unfold velocityAt at hrelative ⊢
  linear_combination -hrelative

/-- **Newton's law holds** where mass times acceleration and velocity times the rate of the mass are the
rate of the momentum. -/
theorem holds_newton_iff {σ₀ σ : ℕ → α} {dt : α} : (Law.newton b.newtonBalance).Holds σ₀ σ dt ↔
    b.massAt σ * b.accelerationAt σ + b.velocityAt σ * b.massBalance.rateAt σ =
      b.momentumBalance.rateAt σ := by
  rw [← Law.violationAt_eq_zero_iff]
  show b.newtonBalance.violationAt σ = 0 ↔ _
  rw [b.violationAt_eq, sub_eq_zero]

variable {b} {x : Components α}

/-- States with the positions of Newton's law have those of the balances. -/
theorem fits_balances {n : ℕ} (h : Fits n b.newtonBalance.slots) :
    Fits n b.massBalance.slots ∧ Fits n b.momentumBalance.slots := by
  obtain ⟨hmass, hvelocity, -, hforces, hinflows, houtflows⟩ := NewtonBalance.fits_slots.1 h
  have hin := hinflows.of_perm (b.newton_inflows.flatMap_right _)
  have hout := houtflows.of_perm (b.newton_outflows.flatMap_right _)
  rw [b.newton_mass] at hmass
  rw [b.newton_velocity] at hvelocity
  constructor
  · refine fits_cons.2 ⟨hmass, fits_append.2 ⟨?_, ?_⟩⟩
    · exact (fits_rates hin).of_perm b.inflows_perm.symm
    · exact (fits_rates hout).of_perm b.outflows_perm.symm
  · rw [← b.mass_eq] at hmass
    refine MomentumBalance.fits_slots.2 ⟨hmass, hvelocity, fits_append.2 ⟨fits_append.2 ⟨?_, hin⟩, hout⟩⟩
    exact hforces.of_perm b.newton_forces

/-- **A state with all positions has rates**, and these only. -/
theorem rates_iff (h : Fits x.size b.newtonBalance.slots) {massRate momentumRate : α} :
    b.Rates x massRate momentumRate ↔ b.massBalance.rateAt x.component = massRate ∧
      b.momentumBalance.rateAt x.component = momentumRate := by
  obtain ⟨hmass, hmomentum⟩ := fits_balances h
  obtain ⟨-, hrates⟩ := fits_cons.1 hmass
  obtain ⟨-, -, hrest⟩ := MomentumBalance.fits_slots.1 hmomentum
  constructor
  · rintro ⟨h1, h2⟩
    exact ⟨(MassBalance.netRate_eq_ok.1 h1).2, (MomentumBalance.rate_eq_ok.1 h2).2⟩
  · rintro ⟨h1, h2⟩
    exact ⟨MassBalance.netRate_eq_ok.2 ⟨hrates, h1⟩, MomentumBalance.rate_eq_ok.2 ⟨hrest, h2⟩⟩

/-- **The acceleration along a motion.** If mass and momentum change at the rates of their balances, Newton's
law holds exactly where the acceleration is the rate at which the velocity changes. -/
theorem newton_iff_of_motion {σ : ℝ → ℕ → ℝ} {t rate dt : ℝ} {σ₀ : ℕ → ℝ} (hm : b.massAt (σ t) ≠ 0)
    (hmass : HasDerivAt (fun s => b.massAt (σ s)) (b.massBalance.rateAt (σ t)) t)
    (hmomentum : HasDerivAt (fun s => b.momentumAt (σ s)) (b.momentumBalance.rateAt (σ t)) t)
    (hvelocity : HasDerivAt (fun s => b.velocityAt (σ s)) rate t) :
    (Law.newton b.newtonBalance).Holds σ₀ (σ t) dt ↔ b.accelerationAt (σ t) = rate := by
  have hproduct : b.momentumBalance.rateAt (σ t) =
      b.massBalance.rateAt (σ t) * b.velocityAt (σ t) + b.massAt (σ t) * rate :=
    hmomentum.unique (hmass.mul hvelocity)
  rw [b.holds_newton_iff, hproduct]
  constructor
  · intro h
    refine mul_left_cancel₀ hm ?_
    linear_combination h
  · rintro rfl
    ring

end DrivenBody

/-- **Mass, momentum and Newton's law describe one body.** Let their terms have the same forces and streams, in
any order and number, and scales that pass their checks. In every state with their positions there are the net
rate `N` at which mass enters and the rate `P` at which momentum enters, which are those that the terms of
mass and momentum integrate from any earlier state; and the term of Newton's law has energy zero exactly if
`m a + v N = P`. -/
theorem newton_iff_balances (b : DrivenBody) {x : Components α} (hfit : Fits x.size b.newtonBalance.slots) :
    ∃ N P, b.Rates x N P ∧
      (∀ (scales : Scales α) (initial : Components α) dt, scales.check = .ok () →
        (⟨.newton b.newtonBalance, scales⟩ : Term α).ZeroIff initial x dt
          (b.massAt x.component * b.accelerationAt x.component + b.velocityAt x.component * N = P)) ∧
      ∀ (initial : Components α) N₀ P₀, Fits initial.size b.newtonBalance.slots →
        b.Rates initial N₀ P₀ → ∀ (scales : Scales α) dt, scales.check = .ok () →
          (⟨.mass b.massBalance, scales⟩ : Term α).ZeroIff initial x dt
            (b.massAt x.component - b.massAt initial.component = dt / 2 * (N₀ + N)) ∧
          (⟨.momentum b.momentumBalance, scales⟩ : Term α).ZeroIff initial x dt
            (b.momentumAt x.component - b.momentumAt initial.component = dt / 2 * (P₀ + P)) := by
  refine ⟨_, _, (DrivenBody.rates_iff hfit).2 ⟨rfl, rfl⟩, ?_, ?_⟩
  · intro scales initial dt hscales
    have hpositions : (⟨.newton b.newtonBalance, scales⟩ : Term α).FitsIn x.size := Term.forall_indices.2 hfit
    show (⟨.newton b.newtonBalance, scales⟩ : Term α).ZeroIff x x dt _
    exact (Term.zeroIff_holds hscales hpositions hpositions).congr b.holds_newton_iff
  · intro initial N₀ P₀ hfit₀ hrates scales dt hscales
    obtain ⟨rfl, rfl⟩ := (DrivenBody.rates_iff hfit₀).1 hrates
    obtain ⟨hmass₀, hmomentum₀⟩ := DrivenBody.fits_balances hfit₀
    obtain ⟨hmass, hmomentum⟩ := DrivenBody.fits_balances hfit
    constructor
    · exact Term.zeroIff_holds hscales (Term.forall_indices.2 hmass₀) (Term.forall_indices.2 hmass)
    · have hholds : (⟨.momentum b.momentumBalance, scales⟩ : Term α).ZeroIff initial x dt _ :=
        Term.zeroIff_holds hscales (Term.forall_indices.2 hmomentum₀) (Term.forall_indices.2 hmomentum)
      refine hholds.congr ?_
      unfold Body.momentumAt Body.massAt
      rw [← b.mass_eq]
      exact Iff.rfl

/-- A jet that breathes air and blows exhaust: mass, velocity, acceleration, drag and push, rate and
velocity of the air, rate and velocity of the exhaust. Its forces are attached in two orders. -/
def jet : DrivenBody where
  massBalance := ⟨⟨0⟩, [⟨5⟩], [⟨7⟩]⟩
  momentumBalance := ⟨⟨0⟩, ⟨1⟩, [⟨3⟩, ⟨4⟩], [⟨⟨5⟩, ⟨6⟩⟩], [⟨⟨7⟩, ⟨8⟩⟩]⟩
  newtonBalance := ⟨⟨0⟩, ⟨1⟩, ⟨2⟩, [⟨4⟩, ⟨3⟩], [⟨⟨5⟩, ⟨6⟩⟩], [⟨⟨7⟩, ⟨8⟩⟩]⟩
  mass_eq := rfl
  inflows_perm := .refl _
  outflows_perm := .refl _
  newton_mass := rfl
  newton_velocity := rfl
  newton_forces := .swap ..
  newton_inflows := .refl _
  newton_outflows := .refl _

/-- The jet in a state: how heavy and how fast it is and how it accelerates, in still air. -/
def flying (mass velocity acceleration : ℚ) : Components ℚ :=
  #[mass, velocity, acceleration, -6, 1, 2, 0, 3, -7]

/-- The jet loses mass and gains momentum, and nothing is left of its three laws where it accelerates as a
body does whose mass and momentum change so. -/
theorem newton_iff_balances_jet :
    (∃ g, (⟨.newton jet.newtonBalance, .unit⟩ : Term ℚ).evaluate (flying 5 (4 / 5) 0)
      (flying 4 5 (21 / 4)) 1 (.zeros 9) = (.ok 0, g)) ∧
    (∃ g, (⟨.mass jet.massBalance, .unit⟩ : Term ℚ).evaluate (flying 5 (4 / 5) 0)
      (flying 4 5 (21 / 4)) 1 (.zeros 9) = (.ok 0, g)) ∧
    (∃ g, (⟨.momentum jet.momentumBalance, .unit⟩ : Term ℚ).evaluate (flying 5 (4 / 5) 0)
      (flying 4 5 (21 / 4)) 1 (.zeros 9) = (.ok 0, g)) ∧
    ∃ e g, (⟨.newton jet.newtonBalance, .unit⟩ : Term ℚ).evaluate (flying 5 (4 / 5) 0)
      (flying 4 5 4) 1 (.zeros 9) = (.ok e, g) ∧ e ≠ 0 := by
  have hfit : ∀ m v a, Fits (flying m v a).size jet.newtonBalance.slots := by
    intro m v a
    show ∀ s ∈ jet.newtonBalance.slots, s.index < 9
    decide
  have hrates : ∀ {m v a N P}, jet.Rates (flying m v a) N P ↔ -1 = N ∧ 16 = P := by
    intro m v a N P
    have hmass : jet.massBalance.rateAt (flying m v a).component = -1 := by
      show (2 + 0 - (3 + 0) : ℚ) = -1
      norm_num
    have hmomentum : jet.momentumBalance.rateAt (flying m v a).component = 16 := by
      show (-6 + (1 + 0) + (2 * 0 + 0) - (3 * -7 + 0) : ℚ) = 16
      norm_num
    rw [DrivenBody.rates_iff (hfit m v a), hmass, hmomentum]
  have hscales : (Scales.unit : Scales ℚ).check = .ok () := by decide +kernel
  obtain ⟨N, P, h, hnewton, hbalances⟩ := newton_iff_balances jet (hfit 4 5 (21 / 4))
  obtain ⟨rfl, rfl⟩ := hrates.1 h
  obtain ⟨hmass, hmomentum⟩ := hbalances (flying 5 (4 / 5) 0) (-1) 16 (hfit _ _ _)
    (hrates.2 ⟨rfl, rfl⟩) .unit 1 hscales
  refine ⟨?_, hmass.evaluate_eq (by decide +kernel) rfl, hmomentum.evaluate_eq (by decide +kernel) rfl, ?_⟩
  · exact (hnewton .unit (flying 5 (4 / 5) 0) 1 hscales).evaluate_eq (by decide +kernel) rfl
  · obtain ⟨N, P, h, hslow, -⟩ := newton_iff_balances jet (hfit 4 5 4)
    obtain ⟨rfl, rfl⟩ := hrates.1 h
    obtain ⟨e, g, heval, -, hzero⟩ := hslow .unit (flying 5 (4 / 5) 0) 1 hscales (.zeros 9) rfl
    refine ⟨e, g, heval, fun he => ?_⟩
    have hless := hzero.1 he
    revert hless
    decide +kernel

end EnergyStep
