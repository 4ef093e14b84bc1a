import Mathlib
import EnergyStep.Objective

/-!
# How an evaluation ends

An evaluation ends with a result or with a fault, and a search is many evaluations in a row. One
statement about both endings is carried through the row: what a result satisfies, and which faults
there can be. With all faults allowed it says what a success means; with few of them, that the others
never come out.

* `Ends`: results satisfy `post`, faults satisfy `fails`.
* `Ends.bind`: one evaluation after another.
* `bind_eq_ok`: a success of both is a success of each.
-/

namespace EnergyStep

variable {ε β γ : Type} {fails : ε → Prop} {post : β → Prop}

/-- **Every result satisfies `post` and every fault `fails`.** -/
def Ends (fails : ε → Prop) (post : β → Prop) : Except ε β → Prop
  | .ok b => post b
  | .error e => fails e

namespace Ends

@[simp] theorem ok {b : β} : Ends fails post (.ok b) ↔ post b := Iff.rfl

@[simp] theorem error {e : ε} : Ends fails post (.error e : Except ε β) ↔ fails e := Iff.rfl

@[simp] theorem pure {b : β} : Ends fails post (Pure.pure b) ↔ post b := Iff.rfl

@[simp] theorem throw {e : ε} : Ends fails post (MonadExcept.throw e : Except ε β) ↔ fails e := Iff.rfl

theorem of_ok {r : Except ε β} {b : β} (h : Ends fails post r) (hr : r = .ok b) : post b := by
  rw [hr] at h; exact h

theorem of_error {r : Except ε β} {e : ε} (h : Ends fails post r) (hr : r = .error e) : fails e := by
  rw [hr] at h; exact h

theorem mono {r : Except ε β} {post' : β → Prop} (h : Ends fails post r)
    (hp : ∀ b, post b → post' b) : Ends fails post' r := by
  cases r with
  | ok b => exact hp b h
  | error e => exact h

/-- **One evaluation after another.** -/
theorem bind {r : Except ε β} {f : β → Except ε γ} {post' : γ → Prop} (h : Ends fails post r)
    (hf : ∀ b, post b → Ends fails post' (f b)) : Ends fails post' (r >>= f) := by
  cases r with
  | ok b => exact hf b h
  | error e => exact h

/-- A result is also the result that there is. -/
theorem is_result {r : Except ε β} (h : Ends fails post r) :
    Ends fails (fun b => post b ∧ r = .ok b) r := by
  cases r with
  | ok b => exact ⟨h, rfl⟩
  | error e => exact h

/-- With all faults allowed nothing is asked. -/
theorem of_all (h : ∀ e, fails e) (r : Except ε β) : Ends fails (fun _ => True) r := by
  cases r with
  | ok b => trivial
  | error e => exact h e

end Ends

theorem bind_eq_ok {r : Except ε β} {f : β → Except ε γ} {c : γ} :
    (r >>= f) = .ok c ↔ ∃ b, r = .ok b ∧ f b = .ok c := by
  cases r with
  | ok b => exact ⟨fun h => ⟨b, rfl, h⟩, by rintro ⟨_, hb, h⟩; cases hb; exact h⟩
  | error e => exact ⟨fun h => (by cases h), by rintro ⟨_, h, -⟩; cases h⟩

theorem map_eq_ok {r : Except ε β} {f : β → γ} {c : γ} :
    r.map f = .ok c ↔ ∃ b, r = .ok b ∧ f b = c := by
  cases r with
  | ok b =>
    exact ⟨fun h => ⟨b, rfl, Except.ok.inj h⟩, by rintro ⟨_, hb, h⟩; cases hb; exact congrArg _ h⟩
  | error e => exact ⟨fun h => (by cases h), by rintro ⟨_, h, -⟩; cases h⟩

/-- Looking at how an evaluation ends is itself no fault. -/
@[simp] theorem observing_eq (r : Except ε β) : (observing r : Except ε (Except ε β)) = .ok r := by
  cases r <;> rfl

@[simp] theorem liftExcept_eq (r : Except ε β) : (liftExcept r : Except ε β) = r := by
  cases r <;> rfl

variable {α : Type}

@[simp] theorem ensure_eq (r : Except (Fault α) Unit) : (ensure r : Except (Fault α) Unit) = r :=
  liftExcept_eq r

@[simp] theorem checkDimension_eq_ok {subject : Subject} {expected actual : Nat} :
    (checkDimension subject expected actual : Except (Fault α) Unit) = .ok () ↔
      expected = actual := by
  unfold checkDimension; split <;> simp_all

end EnergyStep
