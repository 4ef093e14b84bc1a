import Mathlib
import EnergyStep.Settings
import EnergyStep.Scales

/-!
# Exact scalars

An ordered field is a scalar without rounding: every number is finite, and the comparisons are those
of the order. The statements about searches, minimizers and steps are over any such field, so they
hold over the rational and over the real numbers.

* `Exact`: an ordered field with a function that stands for the square root.
* `Circular`: an exact scalar with functions that stand for the circular ones.
* `larger_eq_max`, `smaller_eq_min`, `same_iff`, `isPositive_iff`: what the comparisons of `Scalar`
  are there.
-/

namespace EnergyStep

/-- **An ordered field as a scalar.** Nothing is asked of the square root, which the rational numbers
do not have; only rotations need it to be one. -/
class Exact (α : Type) extends Field α, LinearOrder α, IsStrictOrderedRing α, FloorSemiring α where
  sqrt : α → α

namespace Exact

variable {α : Type} [Exact α]

/-- Counts end where those of a machine word do. -/
instance : Scalar α where
  decideLT := inferInstance
  decideLE := inferInstance
  abs a := |a|
  sqrt := Exact.sqrt
  copySign a s := if s < 0 then -|a| else |a|
  isFinite _ := true
  ceilNat a := min ⌈a⌉₊ (2 ^ 64 - 1)

end Exact

instance : Exact ℚ where
  sqrt := Rat.sqrt

noncomputable instance : Exact ℝ where
  sqrt := Real.sqrt

/-- **An exact scalar that can be an angle.** Nothing is asked of the circular functions, which are meant
to be those of the real numbers. -/
class Circular (α : Type) extends Exact α where
  sin : α → α
  cos : α → α
  /-- The angle of the point `(x, y)`, given `y` first. -/
  atan2 : α → α → α
  /-- A half turn. -/
  pi : α

/-- Of a quotient that is cut toward zero the remainder has the sign of the dividend. -/
instance Circular.instAngular {α : Type} [Circular α] : Angular α where
  toScalar := Exact.instScalar
  sin := Circular.sin
  cos := Circular.cos
  atan2 := Circular.atan2
  pi := Circular.pi
  remainder a b := if 0 ≤ a / b then a - b * ⌊a / b⌋₊ else a + b * ⌊-(a / b)⌋₊

noncomputable instance : Circular ℝ where
  sin := Real.sin
  cos := Real.cos
  atan2 y x := Complex.arg ⟨x, y⟩
  pi := Real.pi

variable {α : Type} [Exact α]

namespace Scalar

@[simp] theorem isFinite_exact (a : α) : isFinite a = true := rfl

@[simp] theorem isPositive_iff {a : α} : isPositive a = true ↔ 0 < a := by simp [isPositive]

@[simp] theorem same_iff {a b : α} : same a b = true ↔ a = b := by
  unfold same
  rw [Bool.and_eq_true, decide_eq_true_iff, decide_eq_true_iff, ← le_antisymm_iff]

theorem larger_eq_max (a b : α) : larger a b = max a b := by
  unfold larger
  by_cases h : a < b
  · rw [if_pos h, max_eq_right h.le]
  · rw [if_neg h, if_pos le_rfl, max_eq_left (not_lt.1 h)]

theorem smaller_eq_min (a b : α) : smaller a b = min a b := by
  unfold smaller
  by_cases h : b < a
  · rw [if_pos h, min_eq_right h.le]
  · rw [if_neg h, if_pos le_rfl, min_eq_left (not_lt.1 h)]

theorem half_eq : (0.5 : α) = 1 / 2 := by norm_num

theorem two_eq : (2.0 : α) = 2 := by norm_num

theorem four_eq : (4.0 : α) = 4 := by norm_num

end Scalar
end EnergyStep
