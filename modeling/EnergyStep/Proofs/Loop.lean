import EnergyStep.Proofs.Ends

/-!
# Iterations with a budget

Both minimizers repeat an iteration that either stops with a result or goes on from a next state, until
it stops, fails, or the budget is spent. Which it was is read off the states at which iterations begin.

* `Turn`: what one iteration leads to; `Loop.run`: the repetition.
* `Loop.Begins`: the states at which iterations begin, by the number of iterations before.
* `Loop.run_eq_of_begins`: a run goes on from any of these states.
* `Loop.run_eq_ok`, `Loop.run_eq_error`: when a run has a result and when it has none.
* `Loop.Begins.trail`: the states on the way to one of them.
-/

namespace EnergyStep

variable {ε ρ σ : Type}

/-- What one iteration leads to. -/
inductive Turn (ρ σ : Type)
  | stop (result : ρ)
  | proceed (next : σ)
deriving DecidableEq

namespace Loop

variable {turn : ℕ → σ → Except ε (Turn ρ σ)} {spent : ε} {first s s' : σ} {budget k left done : ℕ}

/-- Iterates until an iteration stops or fails, or none is left; `turn` is told how many iterations there
have been. -/
def run (turn : ℕ → σ → Except ε (Turn ρ σ)) (spent : ε) : (left done : ℕ) → σ → Except ε ρ
  | 0, _, _ => .error spent
  | left + 1, done, s =>
    match turn done s with
    | .error e => .error e
    | .ok (.stop result) => .ok result
    | .ok (.proceed next) => run turn spent left (done + 1) next

theorem run_of_stop {r : ρ} (h : turn done s = .ok (.stop r)) :
    run turn spent (left + 1) done s = .ok r := by
  unfold run; rw [h]

theorem run_of_error {e : ε} (h : turn done s = .error e) :
    run turn spent (left + 1) done s = .error e := by
  unfold run; rw [h]

theorem run_of_proceed (h : turn done s = .ok (.proceed s')) :
    run turn spent (left + 1) done s = run turn spent left (done + 1) s' := by
  rw [run, h]

/-- **The states at which iterations begin**, with the number of iterations before. -/
inductive Begins (turn : ℕ → σ → Except ε (Turn ρ σ)) (first : σ) : ℕ → σ → Prop
  | first : Begins turn first 0 first
  | next {k : ℕ} {s s' : σ} (hs : Begins turn first k s) (h : turn k s = .ok (.proceed s')) :
    Begins turn first (k + 1) s'

/-- **A run goes on from any state at which an iteration begins.** -/
theorem run_eq_of_begins (h : Begins turn first k s) : ∀ left,
    run turn spent (k + left) 0 first = run turn spent left k s := by
  induction h with
  | first => intro left; rw [Nat.zero_add]
  | @next k s s' hs h ih =>
    intro left
    rw [show k + 1 + left = k + (left + 1) by omega, ih, run_of_proceed h]

/-- The same with the budget of the whole run. -/
theorem run_eq_of_begins_of_le (h : Begins turn first k s) (hk : k ≤ budget) :
    run turn spent budget 0 first = run turn spent (budget - k) k s := by
  rw [← run_eq_of_begins h, Nat.add_sub_cancel' hk]

/-- How a run ends, from a state at which an iteration begins. -/
theorem run_ends (turn : ℕ → σ → Except ε (Turn ρ σ)) (first : σ) (spent : ε) :
    ∀ left k s, Begins turn first k s →
    (∃ j < k + left, ∃ t r, Begins turn first j t ∧ turn j t = .ok (.stop r) ∧
      run turn spent left k s = .ok r) ∨
    (∃ j < k + left, ∃ t e, Begins turn first j t ∧ turn j t = .error e ∧
      run turn spent left k s = .error e) ∨
    ((∃ t, Begins turn first (k + left) t) ∧ run turn spent left k s = .error spent) := by
  intro left
  induction left with
  | zero => intro k s hs; exact .inr (.inr ⟨⟨s, hs⟩, rfl⟩)
  | succ left ih =>
    intro k s hs
    cases h : turn k s with
    | error e => exact .inr (.inl ⟨k, by omega, s, e, hs, h, run_of_error h⟩)
    | ok t =>
      cases t with
      | stop r => exact .inl ⟨k, by omega, s, r, hs, h, run_of_stop h⟩
      | proceed s' =>
        have hnext := ih (k + 1) s' (hs.next h)
        rw [run_of_proceed h, show k + (left + 1) = k + 1 + left by omega]
        exact hnext

/-- **A run has a result** when one of its iterations stops with it. -/
theorem run_eq_ok {r : ρ} : run turn spent budget 0 first = .ok r ↔
    ∃ k < budget, ∃ s, Begins turn first k s ∧ turn k s = .ok (.stop r) := by
  constructor
  · intro hrun
    have hends := run_ends turn first spent budget 0 first .first
    rw [Nat.zero_add, hrun] at hends
    rcases hends with ⟨k, hk, s, r', hs, h, hr⟩ | ⟨_, _, _, _, _, _, hr⟩ | ⟨_, hr⟩
    · cases hr
      exact ⟨k, hk, s, hs, h⟩
    · cases hr
    · cases hr
  · rintro ⟨k, hk, s, hs, h⟩
    obtain ⟨left, hleft⟩ : ∃ left, budget - k = left + 1 := ⟨budget - k - 1, by omega⟩
    rw [run_eq_of_begins_of_le hs hk.le, hleft, run_of_stop h]

/-- **A run has none** when one of its iterations fails, or when all of the budget is spent. -/
theorem run_eq_error {e : ε} : run turn spent budget 0 first = .error e ↔
    (∃ k < budget, ∃ s, Begins turn first k s ∧ turn k s = .error e) ∨
      e = spent ∧ ∃ s, Begins turn first budget s := by
  constructor
  · intro hrun
    have hends := run_ends turn first spent budget 0 first .first
    rw [Nat.zero_add, hrun] at hends
    rcases hends with ⟨_, _, _, _, _, _, hr⟩ | ⟨k, hk, s, e', hs, h, hr⟩ | ⟨hs, hr⟩
    · cases hr
    · cases hr
      exact .inl ⟨k, hk, s, hs, h⟩
    · cases hr
      exact .inr ⟨rfl, hs⟩
  · rintro (⟨k, hk, s, hs, h⟩ | ⟨rfl, s, hs⟩)
    · obtain ⟨left, hleft⟩ : ∃ left, budget - k = left + 1 := ⟨budget - k - 1, by omega⟩
      rw [run_eq_of_begins_of_le hs hk.le, hleft, run_of_error h]
    · rw [run_eq_of_begins_of_le hs le_rfl, Nat.sub_self]
      rfl

/-- **The states on the way** to one at which an iteration begins. -/
theorem Begins.trail (h : Begins turn first k s) : ∃ states : ℕ → σ, states 0 = first ∧ states k = s ∧
    ∀ j < k, turn j (states j) = .ok (.proceed (states (j + 1))) := by
  induction h with
  | first => exact ⟨fun _ => first, rfl, rfl, fun j hj => absurd hj (Nat.not_lt_zero j)⟩
  | @next k s s' hs h ih =>
    obtain ⟨states, h0, hk, hturn⟩ := ih
    refine ⟨Function.update states (k + 1) s', ?_, Function.update_self .., ?_⟩
    · rw [Function.update_of_ne (by omega), h0]
    · intro j hj
      rcases Nat.lt_succ_iff_lt_or_eq.1 hj with hjk | rfl
      · rw [Function.update_of_ne (by omega), Function.update_of_ne (by omega)]
        exact hturn j hjk
      · rw [Function.update_of_ne (by omega), Function.update_self, hk]
        exact h

/-- Iterations begin at the states of such a trail. -/
theorem begins_of_trail {states : ℕ → σ} (h0 : states 0 = first)
    (hturn : ∀ j < k, turn j (states j) = .ok (.proceed (states (j + 1)))) :
    ∀ j ≤ k, Begins turn first j (states j) := by
  intro j
  induction j with
  | zero => intro _; rw [h0]; exact .first
  | succ j ih => intro hj; exact (ih (by omega)).next (hturn j (by omega))

end Loop
end EnergyStep
