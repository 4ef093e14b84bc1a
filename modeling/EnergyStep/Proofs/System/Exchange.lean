import EnergyStep.Proofs.Law.Holds
import EnergyStep.Proofs.System.Trajectory

/-!
# Bodies that exchange mass

What leaves one body enters another and takes its momentum with it. If every stream leaves one body
and enters one body, the balances of all bodies add up to a balance without streams: the total mass
stays what it was, and the total momentum changes by the impulse of the forces.

* `Body`: balances of mass and momentum over the same streams.
* `Closed`, `Closed.net_eq_zero`: whatever the streams carry, nothing enters or leaves on the whole.
* `Closed.totals`: one step.
* `Course`: steps that leave nothing, one after the other; those of solvers and steppers are some.
* `exchange_conserves`: the totals after a step and after a course.
-/

namespace EnergyStep

variable {α : Type} [Exact α]

theorem sum_map_flatMap {β γ : Type} (l : List β) (f : β → List γ) (g : γ → α) :
    ((l.flatMap f).map g).sum = (l.map fun b => ((f b).map g).sum).sum := by
  rw [List.map_flatMap, List.flatMap_def, List.sum_flatten, List.map_map]
  rfl

/-- **A body that exchanges mass**, along one axis. The streams of its momentum have the rates of its
mass. -/
structure Body where
  massBalance : MassBalance
  momentumBalance : MomentumBalance
  mass_eq : momentumBalance.mass = massBalance.mass
  inflows_perm : massBalance.inflows.Perm (momentumBalance.inflows.map Transfer.rate)
  outflows_perm : massBalance.outflows.Perm (momentumBalance.outflows.map Transfer.rate)

namespace Body

variable (b : Body)

/-- What streams carry into the body less what they carry out of it. -/
def net (carried : Transfer → α) : α :=
  (b.momentumBalance.inflows.map carried).sum - (b.momentumBalance.outflows.map carried).sum

def massAt (σ : ℕ → α) : α := σ b.massBalance.mass.index

def momentumAt (σ : ℕ → α) : α := b.massAt σ * σ b.momentumBalance.velocity.index

/-- The sum of the forces on the body. -/
def forceAt (σ : ℕ → α) : α := (b.momentumBalance.forces.map fun s => σ s.index).sum

/-- A stream carries mass at its rate. -/
theorem rateAt_mass (σ : ℕ → α) : b.massBalance.rateAt σ = b.net fun t => σ t.rate.index := by
  have hin := (b.inflows_perm.map fun s => σ s.index).sum_eq
  have hout := (b.outflows_perm.map fun s => σ s.index).sum_eq
  rw [List.map_map] at hin hout
  exact congrArg₂ (· - ·) hin hout

/-- A stream carries momentum at its rate times its velocity. -/
theorem rateAt_momentum (σ : ℕ → α) : b.momentumBalance.rateAt σ =
    b.forceAt σ + b.net fun t => σ t.rate.index * σ t.velocity.index := by
  unfold MomentumBalance.rateAt net
  exact add_sub_assoc ..

variable {b} {σ₀ σ : ℕ → α} {dt : α}

theorem massAt_eq (h : (Law.mass b.massBalance).Holds σ₀ σ dt) : b.massAt σ = b.massAt σ₀ +
    dt / 2 * (b.net (fun t => σ₀ t.rate.index) + b.net fun t => σ t.rate.index) := by
  rw [← rateAt_mass, ← rateAt_mass]
  exact sub_eq_iff_eq_add'.1 h

theorem momentumAt_eq (h : (Law.momentum b.momentumBalance).Holds σ₀ σ dt) :
    b.momentumAt σ = b.momentumAt σ₀ + dt / 2 * ((b.forceAt σ₀ + b.forceAt σ) +
      (b.net (fun t => σ₀ t.rate.index * σ₀ t.velocity.index) +
        b.net fun t => σ t.rate.index * σ t.velocity.index)) := by
  have hrates := sub_eq_iff_eq_add'.1 h
  rw [rateAt_momentum, rateAt_momentum, b.mass_eq] at hrates
  unfold momentumAt massAt
  rw [hrates]
  ring

end Body

section Totals

variable (bodies : List Body)

def totalMass (σ : ℕ → α) : α := (bodies.map fun b => b.massAt σ).sum

def totalMomentum (σ : ℕ → α) : α := (bodies.map fun b => b.momentumAt σ).sum

/-- **Nothing enters or leaves the bodies as a whole**: each stream enters one of them as often as it
leaves one. -/
def Closed : Prop := (bodies.flatMap fun b => b.momentumBalance.inflows).Perm
  (bodies.flatMap fun b => b.momentumBalance.outflows)

variable {bodies} {σ₀ σ : ℕ → α} {dt : α}

/-- The bodies are closed if every stream enters exactly one of them and leaves exactly one. -/
theorem closed_of_once
    (h : ∀ t : Transfer, (∃ b ∈ bodies, t ∈ b.momentumBalance.inflows ++ b.momentumBalance.outflows) →
      (bodies.flatMap fun b => b.momentumBalance.inflows).count t = 1 ∧
        (bodies.flatMap fun b => b.momentumBalance.outflows).count t = 1) : Closed bodies := by
  refine List.perm_iff_count.2 fun t => ?_
  by_cases ht : ∃ b ∈ bodies, t ∈ b.momentumBalance.inflows ++ b.momentumBalance.outflows
  · obtain ⟨hin, hout⟩ := h t ht
    rw [hin, hout]
  · -- a stream of no body does not occur on either side
    have hnone : ∀ flows : Body → List Transfer,
        (∀ b, flows b ⊆ b.momentumBalance.inflows ++ b.momentumBalance.outflows) →
          (bodies.flatMap flows).count t = 0 := by
      intro flows hsub
      rw [List.count_eq_zero]
      intro hmem
      obtain ⟨b, hb, hflow⟩ := List.mem_flatMap.1 hmem
      exact ht ⟨b, hb, hsub b hflow⟩
    rw [hnone _ fun b => List.subset_append_left _ _, hnone _ fun b => List.subset_append_right _ _]

/-- **Whatever streams carry, closed bodies keep it.** -/
theorem Closed.net_eq_zero (h : Closed bodies) (carried : Transfer → α) :
    (bodies.map fun b => b.net carried).sum = 0 := by
  -- all streams of all bodies, counted where they enter and where they leave
  have hflows := (h.map carried).sum_eq
  rw [sum_map_flatMap, sum_map_flatMap] at hflows
  have hsplit : ∀ b : Body, (b.momentumBalance.inflows.map carried).sum =
      b.net carried + (b.momentumBalance.outflows.map carried).sum :=
    fun b => (sub_add_cancel _ _).symm
  simp only [hsplit, List.sum_map_add] at hflows
  exact add_eq_right.1 hflows

/-- **One step of closed bodies** under their balances. -/
theorem Closed.totals (h : Closed bodies)
    (hmass : ∀ b ∈ bodies, (Law.mass b.massBalance).Holds σ₀ σ dt)
    (hmomentum : ∀ b ∈ bodies, (Law.momentum b.momentumBalance).Holds σ₀ σ dt) :
    totalMass bodies σ = totalMass bodies σ₀ ∧ totalMomentum bodies σ - totalMomentum bodies σ₀ =
      dt / 2 * (bodies.map fun b => b.forceAt σ₀ + b.forceAt σ).sum := by
  constructor
  · have hbodies := List.map_congr_left fun b hb => Body.massAt_eq (hmass b hb)
    unfold totalMass
    rw [hbodies, List.sum_map_add, List.sum_map_mul_left, List.sum_map_add, h.net_eq_zero,
      h.net_eq_zero, add_zero, mul_zero, add_zero]
  · have hbodies := List.map_congr_left fun b hb => Body.momentumAt_eq (hmomentum b hb)
    unfold totalMomentum
    rw [hbodies, List.sum_map_add, add_sub_cancel_left, List.sum_map_mul_left, List.sum_map_add,
      List.sum_map_add, List.sum_map_add, h.net_eq_zero, h.net_eq_zero, add_zero, add_zero]

end Totals

/-- The balances of a body as terms. -/
def Body.terms (b : Body) (scales : Scales α) : List (Term α) :=
  [⟨.mass b.massBalance, scales⟩, ⟨.momentum b.momentumBalance, scales⟩]

/-- **The terms hold the bodies to their balances**, each in some scales; there may be other terms. -/
def Governed (terms : List (Term α)) (bodies : List Body) : Prop :=
  ∀ b ∈ bodies, (∃ s, ⟨.mass b.massBalance, s⟩ ∈ terms) ∧ ∃ s, ⟨.momentum b.momentumBalance, s⟩ ∈ terms

omit [Exact α] in
theorem governed_terms (bodies : List Body) (scales : Scales α) :
    Governed (bodies.flatMap fun b => b.terms scales) bodies := by
  intro b hb
  have hmem : ∀ t ∈ b.terms scales, t ∈ bodies.flatMap fun b => b.terms scales :=
    fun t ht => List.mem_flatMap.2 ⟨b, hb, ht⟩
  exact ⟨⟨scales, hmem _ (by simp [Body.terms])⟩, ⟨scales, hmem _ (by simp [Body.terms])⟩⟩

/-- **A course**: steps of any lengths one after the other, none of which leaves any energy, and in all
of which the bodies are held to their balances. -/
inductive Course (bodies : List Body) (first : Components α) : Components α → Prop
  | start : Course bodies first first
  | step {x y g : Components α} {dt : α} {terms : List (Term α)} {f : StepEnergy α}
      (c : Course bodies first x) (hterms : Governed terms bodies)
      (hmake : StepEnergy.make x dt terms = .ok f) (heval : f.evaluate y = .ok (0, g)) :
      Course bodies first y

section Runs

variable {bodies : List Body} {terms : List (Term α)} {f : StepEnergy α} {dt : α}
  {x y z g : Components α}

/-- **A step that leaves nothing** keeps the mass of closed bodies, and changes their momentum by the
impulse of the forces. -/
theorem Closed.totals_of_evaluate (h : Closed bodies) (hterms : Governed terms bodies)
    (hmake : StepEnergy.make x dt terms = .ok f) (heval : f.evaluate y = .ok (0, g)) :
    totalMass bodies y.component = totalMass bodies x.component ∧
      totalMomentum bodies y.component - totalMomentum bodies x.component =
        dt / 2 * (bodies.map fun b => b.forceAt x.component + b.forceAt y.component).sum := by
  obtain ⟨-, -, henergy, -⟩ := StepEnergy.evaluate_eq_ok.1 heval
  have hlawful := (StepEnergy.built_of_make hmake).energyAt_eq_zero_iff.1 henergy
  have hlaws := StepEnergy.lawful_iff.1 hlawful
  obtain ⟨-, -, rfl⟩ := StepEnergy.make_eq_ok.1 hmake
  refine h.totals (fun b hb => ?_) fun b hb => ?_
  · obtain ⟨⟨s, hs⟩, -⟩ := hterms b hb
    exact hlaws _ hs
  · obtain ⟨-, s, hs⟩ := hterms b hb
    exact hlaws _ hs

theorem impulse_eq_zero (hforces : ∀ b ∈ bodies, b.momentumBalance.forces = []) (σ₀ σ : ℕ → α) :
    (bodies.map fun b => b.forceAt σ₀ + b.forceAt σ).sum = 0 := by
  have hnone : ∀ b ∈ bodies, ∀ σ : ℕ → α, b.forceAt σ = 0 := by
    intro b hb σ
    unfold Body.forceAt
    rw [hforces b hb]
    rfl
  refine List.sum_eq_zero fun e he => ?_
  obtain ⟨b, hb, rfl⟩ := List.mem_map.1 he
  rw [hnone b hb, hnone b hb, add_zero]

namespace Course

/-- **The totals after a course**, by induction on its steps. -/
theorem totals (h : Closed bodies) (c : Course bodies x y) :
    totalMass bodies y.component = totalMass bodies x.component ∧
      ((∀ b ∈ bodies, b.momentumBalance.forces = []) →
        totalMomentum bodies y.component = totalMomentum bodies x.component) := by
  induction c with
  | start => exact ⟨rfl, fun _ => rfl⟩
  | step c hterms hmake heval ih =>
    obtain ⟨hmass, hmomentum⟩ := h.totals_of_evaluate hterms hmake heval
    refine ⟨hmass.trans ih.1, fun hforces => ?_⟩
    -- without forces the step has no impulse
    rw [impulse_eq_zero hforces, mul_zero] at hmomentum
    exact (sub_eq_zero.1 hmomentum).trans (ih.2 hforces)

theorem trans (c : Course bodies x y) (d : Course bodies y z) : Course bodies x z := by
  induction d with
  | start => exact c
  | step d hterms hmake heval ih => exact ih.step hterms hmake heval

end Course

/-- **An interval of which no piece leaves anything** is a course, however it is split. -/
theorem Covers.course {solver : Solver α} (hterms : Governed solver.terms bodies) {halvings : ℕ}
    {ps : List (Piece α)} (h : Covers solver.solve halvings x dt y ps)
    (hzero : ∀ p ∈ ps, p.outcome.residual = 0) : Course bodies x y := by
  induction h with
  | @accepted _ _ _ o h =>
    -- a piece that leaves nothing is one step of the course
    obtain ⟨f, g, hmake, -, -, heval⟩ := Solver.solve_evaluated h
    have hnothing : o.residual = 0 := hzero _ (List.mem_singleton.2 rfl)
    rw [hnothing] at heval
    exact Course.start.step hterms hmake heval
  | halved _ _ _ _ ih₁ ih₂ =>
    obtain ⟨hfirst, hsecond⟩ := List.forall_mem_append.1 hzero
    exact (ih₁ hfirst).trans (ih₂ hsecond)

/-- **Steps of a stepper that leave nothing** are a course. -/
theorem Stepper.Walk.course {first s : Stepper α} {reports : List (StepReport α)}
    (w : Walk first reports s) (hterms : Governed first.solver.terms bodies)
    (hzero : ∀ r ∈ reports, r.residual = 0) : Course bodies first.state s.state := by
  induction w with
  | start => exact Course.start
  | @step reports s s' r w h ih =>
    obtain ⟨hbefore, hlast⟩ := List.forall_mem_append.1 hzero
    obtain ⟨ps, hps, hsum⟩ := Stepper.covers_of_step h
    rw [w.same.1] at hps
    have hpieces := hps.residual_eq_zero (hsum.symm.trans (hlast r (List.mem_singleton.2 rfl)))
    exact (ih hbefore).trans (hps.course hterms hpieces)

end Runs

/-- **Bodies that exchange mass conserve mass and momentum.** Let every stream enter the bodies as often
as it leaves them, and let terms hold each body to its balances. At a candidate where the energy of a
step is zero the total mass is that of the initial state, and the total momentum has changed by the mean
of the forces before and after, times the length of the step. So the total mass is the same after any
course of steps that leave nothing, and without forces the total momentum is, too; among these courses
are the steps of a stepper whose reports leave nothing, in whatever pieces they were made. -/
theorem exchange_conserves {bodies : List Body} (hclosed : Closed bodies) :
    (∀ (initial x g : Components α) dt terms f, Governed terms bodies →
      StepEnergy.make initial dt terms = .ok f → f.evaluate x = .ok (0, g) →
        totalMass bodies x.component = totalMass bodies initial.component ∧
        totalMomentum bodies x.component - totalMomentum bodies initial.component =
          dt / 2 * (bodies.map fun b => b.forceAt initial.component + b.forceAt x.component).sum) ∧
    (∀ first last : Components α, Course bodies first last →
      totalMass bodies last.component = totalMass bodies first.component ∧
      ((∀ b ∈ bodies, b.momentumBalance.forces = []) →
        totalMomentum bodies last.component = totalMomentum bodies first.component)) ∧
    (∀ (first last : Stepper α) reports, first.Walk reports last →
      Governed first.solver.terms bodies → (∀ r ∈ reports, r.residual = 0) →
        totalMass bodies last.state.component = totalMass bodies first.state.component ∧
        ((∀ b ∈ bodies, b.momentumBalance.forces = []) →
          totalMomentum bodies last.state.component = totalMomentum bodies first.state.component)) := by
  refine ⟨?_, ?_, ?_⟩
  · intro initial x g dt terms f hterms hmake heval
    exact hclosed.totals_of_evaluate hterms hmake heval
  · intro first last hcourse
    exact hcourse.totals hclosed
  · intro first last reports hwalk hterms hzero
    exact (hwalk.course hterms hzero).totals hclosed

/-- Two bodies with a stream from each to the other, and forces on the first: mass and velocity of
the first and of the second, rate and velocity of the stream out of the first and of the stream back,
and what may be a force. -/
def traders (forces : List Slot) : List Body :=
  [⟨⟨⟨0⟩, [⟨6⟩], [⟨4⟩]⟩, ⟨⟨0⟩, ⟨1⟩, forces, [⟨⟨6⟩, ⟨7⟩⟩], [⟨⟨4⟩, ⟨5⟩⟩]⟩, rfl, .refl _, .refl _⟩,
    ⟨⟨⟨2⟩, [⟨4⟩], [⟨6⟩]⟩, ⟨⟨2⟩, ⟨3⟩, [], [⟨⟨4⟩, ⟨5⟩⟩], [⟨⟨6⟩, ⟨7⟩⟩]⟩, rfl, .refl _, .refl _⟩]

theorem traders_closed (forces : List Slot) : Closed (traders forces) := by
  refine closed_of_once fun t ht => ?_
  obtain ⟨b, hb, ht⟩ := ht
  have hone : t = ⟨⟨6⟩, ⟨7⟩⟩ ∨ t = ⟨⟨4⟩, ⟨5⟩⟩ := by
    rcases List.mem_pair.1 hb with rfl | rfl
    · exact List.mem_pair.1 ht
    · exact (List.mem_pair.1 ht).symm
  rcases hone with rfl | rfl <;> exact ⟨rfl, rfl⟩

/-- What the traders are held to. -/
def trade (forces : List Slot) : List (Term ℚ) := (traders forces).flatMap fun b => b.terms Scales.unit

/-- The first one has more and gives. -/
def laden : Components ℚ := #[10, 0, 1, 0, 1 / 2, -10, 0, 0, 4]

/-- It has given for one unit of time, without a force on it. -/
def lightened : Components ℚ := #[19 / 2, 10 / 19, 3 / 2, -10 / 3, 1 / 2, -10, 0, 0, 4]

/-- It has given for one unit of time and was pushed. -/
def pushed : Components ℚ := #[19 / 2, 18 / 19, 3 / 2, -10 / 3, 1 / 2, -10, 0, 0, 4]

/-- The second one has given back what it got, in two units of time. -/
def repaid : Components ℚ := #[10, 13 / 10, 1, -13, 0, 0, 1, 3, 4]

/-- The traders give each other as much as they take, seen after some steps. -/
def barter (steps : ℕ) : Stepper ℚ where
  solver := ⟨9, trade [], ⟨.conjugateGradient, 2, 1, 5, 5⟩⟩
  plan := ⟨1, ⟨.conjugateGradient, 2, 1, 5, 5⟩, 1⟩
  state := #[2, 3, 4, 5, 1, 7, 1, 7, 0]
  time := steps
  steps := steps

/-- The report on a step that ends at the given time. -/
def bartered (time : ℚ) : StepReport ℚ := ⟨(barter 0).state, time, 1, 0, 1⟩

theorem barter_step : (barter 0).step = .ok (bartered 1, barter 1) ∧
    (barter 1).step = .ok (bartered 2, barter 2) := by
  decide +kernel

/-- A step with a force, a course of two steps of different lengths, and two steps of a stepper. -/
theorem exchange_conserves_traders :
    (totalMass (traders [⟨8⟩]) pushed.component = totalMass (traders [⟨8⟩]) laden.component ∧
      totalMomentum (traders [⟨8⟩]) pushed.component -
        totalMomentum (traders [⟨8⟩]) laden.component = 4) ∧
    (totalMass (traders []) repaid.component = totalMass (traders []) laden.component ∧
      totalMomentum (traders []) repaid.component = totalMomentum (traders []) laden.component) ∧
    (totalMass (traders []) (barter 2).state.component =
        totalMass (traders []) (barter 0).state.component ∧
      totalMomentum (traders []) (barter 2).state.component =
        totalMomentum (traders []) (barter 0).state.component) := by
  have hfree : ∀ b ∈ traders [], b.momentumBalance.forces = [] := by decide
  obtain ⟨hstep, -, -⟩ := exchange_conserves (α := ℚ) (traders_closed [⟨8⟩])
  obtain ⟨-, hcourse, hwalk⟩ := exchange_conserves (α := ℚ) (traders_closed [])
  refine ⟨?_, ?_, ?_⟩
  · have hmake : StepEnergy.make laden 1 (trade [⟨8⟩]) = .ok ⟨laden, 1, trade [⟨8⟩]⟩ :=
      StepEnergy.make_eq_ok.2 ⟨by decide +kernel, by decide +kernel, rfl⟩
    have heval : StepEnergy.evaluate ⟨laden, 1, trade [⟨8⟩]⟩ pushed = .ok (0, Components.zeros 9) := by
      decide +kernel
    obtain ⟨hmass, hmomentum⟩ := hstep _ _ _ _ _ _ (governed_terms _ _) hmake heval
    refine ⟨hmass, hmomentum.trans ?_⟩
    decide +kernel
  · have hmake₁ : StepEnergy.make laden 1 (trade []) = .ok ⟨laden, 1, trade []⟩ :=
      StepEnergy.make_eq_ok.2 ⟨by decide +kernel, by decide +kernel, rfl⟩
    have heval₁ : StepEnergy.evaluate ⟨laden, 1, trade []⟩ lightened = .ok (0, Components.zeros 9) := by
      decide +kernel
    have hmake₂ : StepEnergy.make lightened 2 (trade []) = .ok ⟨lightened, 2, trade []⟩ :=
      StepEnergy.make_eq_ok.2 ⟨by decide +kernel, by decide +kernel, rfl⟩
    have heval₂ : StepEnergy.evaluate ⟨lightened, 2, trade []⟩ repaid = .ok (0, Components.zeros 9) := by
      decide +kernel
    have hterms : Governed (trade []) (traders []) := governed_terms _ _
    have hruns : Course (traders []) laden repaid :=
      (Course.start.step hterms hmake₁ heval₁).step hterms hmake₂ heval₂
    obtain ⟨hmass, hmomentum⟩ := hcourse _ _ hruns
    exact ⟨hmass, hmomentum hfree⟩
  · have hruns : (barter 0).Walk [bartered 1, bartered 2] (barter 2) :=
      (Stepper.Walk.start.step barter_step.1).step barter_step.2
    obtain ⟨hmass, hmomentum⟩ := hwalk _ _ _ hruns (governed_terms _ _) (by decide +kernel)
    exact ⟨hmass, hmomentum hfree⟩

end EnergyStep
