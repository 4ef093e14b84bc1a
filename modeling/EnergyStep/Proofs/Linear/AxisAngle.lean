import EnergyStep.Proofs.Linear.Versor
import EnergyStep.Linear.AxisAngle

/-!
# Rotations by axis and angle

A rotation is a unit axis and an angle in `(-π, π]`, or a quaternion of norm one. Over the real numbers
wrapping is reduction modulo a whole turn, so every angle has one form in that interval. A rotation has two
quaternions, opposite to each other, and the one with a real part that is not negative belongs to an angle
between zero and a half turn.

* `Angular.wrap_eq`: wrapping is `toIocMod`.
* `AxisAngle.Proper`, `AxisAngle.proper_ofAxis`, `AxisAngle.proper_ofQuat`: a unit axis and a wrapped
  angle, however the rotation is made.
* `AxisAngle.ofAxis_scale`: lengths of the axis and whole turns make no difference.
* `AxisAngle.toQuat_ofQuat`, `AxisAngle.ofQuat_toQuat`: from one form to the other and back.
-/

namespace EnergyStep

open Real

namespace Angular

/-- The remainder of a division that is cut toward zero is shorter than the divisor. -/
theorem remainder_spec {b : ℝ} (hb : 0 < b) (a : ℝ) : ∃ k : ℤ,
    remainder a b = a - k * b ∧ -b < remainder a b ∧ remainder a b < b := by
  have ha : a = a / b * b := (div_mul_cancel₀ a hb.ne').symm
  rcases le_or_gt 0 (a / b) with hq | hq
  · have hrem : remainder a b = a - b * ⌊a / b⌋₊ := if_pos hq
    have hlow := Nat.floor_le hq
    have hhigh := Nat.lt_floor_add_one (a / b)
    refine ⟨⌊a / b⌋₊, ?_, ?_, ?_⟩
    · rw [hrem, Int.cast_natCast]
      ring
    · rw [hrem]
      nlinarith
    · rw [hrem]
      nlinarith
  · have hrem : remainder a b = a + b * ⌊-(a / b)⌋₊ := if_neg hq.not_ge
    have hlow := Nat.floor_le (neg_nonneg.2 hq.le)
    have hhigh := Nat.lt_floor_add_one (-(a / b))
    refine ⟨-⌊-(a / b)⌋₊, ?_, ?_, ?_⟩
    · rw [hrem, Int.cast_neg, Int.cast_natCast]
      ring
    · rw [hrem]
      nlinarith
    · rw [hrem]
      nlinarith

theorem tau_eq : (tau : ℝ) = 2 * π := by
  unfold tau
  rw [Scalar.two_eq]
  rfl

/-- **Wrapping reduces an angle modulo a whole turn**, to the end of the interval that the remainder does
not reach. -/
theorem wrap_eq (θ : ℝ) : wrap θ = toIocMod two_pi_pos (-π) θ := by
  obtain ⟨k, hk, hlow, hhigh⟩ := remainder_spec two_pi_pos (θ + π)
  -- the remainder, a whole turn later if it is negative
  obtain ⟨m, hm, hnonneg, hlt⟩ : ∃ m : ℤ,
      (if remainder (θ + π) (2 * π) < 0 then remainder (θ + π) (2 * π) + |2 * π|
        else remainder (θ + π) (2 * π)) = θ + π - m * (2 * π) ∧
      0 ≤ θ + π - m * (2 * π) ∧ θ + π - m * (2 * π) < 2 * π := by
    split_ifs with hneg
    · refine ⟨k - 1, ?_, ?_, ?_⟩
      · rw [abs_of_pos two_pi_pos, hk]
        push_cast
        ring
      · push_cast
        linarith
      · push_cast
        linarith
    · exact ⟨k, hk, by linarith, by linarith⟩
  have hwrap : wrap θ = if θ + π - m * (2 * π) - π ≤ -π then π else θ + π - m * (2 * π) - π := by
    rw [← hm, ← tau_eq]
    rfl
  rw [hwrap, eq_comm, toIocMod_eq_iff]
  split_ifs with hend
  · refine ⟨⟨by linarith [pi_pos], by linarith⟩, m - 1, ?_⟩
    rw [zsmul_eq_mul]
    push_cast
    linarith
  · refine ⟨⟨not_le.1 hend, by linarith⟩, m, ?_⟩
    rw [zsmul_eq_mul]
    ring

theorem wrap_mem (θ : ℝ) : wrap θ ∈ Set.Ioc (-π) π := by
  have hmem := toIocMod_mem_Ioc two_pi_pos (-π) θ
  rw [← wrap_eq] at hmem
  exact ⟨hmem.1, hmem.2.trans_eq (by ring)⟩

theorem wrap_eq_self {θ : ℝ} (h : θ ∈ Set.Ioc (-π) π) : wrap θ = θ := by
  rw [wrap_eq, toIocMod_eq_self]
  exact ⟨h.1, h.2.trans_eq (by ring)⟩

/-- Whole turns make no difference. -/
theorem wrap_add_turns (θ : ℝ) (n : ℤ) : wrap (θ + n * (2 * π)) = wrap θ := by
  rw [wrap_eq, wrap_eq, ← zsmul_eq_mul, toIocMod_add_zsmul]

theorem wrap_eq_add_turns (θ : ℝ) : ∃ n : ℤ, wrap θ = θ + n * (2 * π) := by
  refine ⟨-toIocDiv two_pi_pos (-π) θ, ?_⟩
  rw [wrap_eq, ← self_sub_toIocDiv_zsmul, zsmul_eq_mul]
  push_cast
  ring

end Angular

namespace AxisAngle

/-- **A unit axis and an angle of at most a half turn** either way, of which the half turn itself goes up. -/
structure Proper (r : AxisAngle ℝ) : Prop where
  unit : r.axis.norm = 1
  range : r.angle ∈ Set.Ioc (-π) π

/-- The same rotation, about the axis turned over. -/
noncomputable def opposite (r : AxisAngle ℝ) : AxisAngle ℝ := ⟨r.axis.neg, -r.angle⟩

theorem proper_identity : (identity : AxisAngle ℝ).Proper where
  unit := by
    rw [Vec3.norm_eq_one_iff]
    norm_num [Vec3.normSq, Vec3.dot, identity, Vec3.x, Vec3.y, Vec3.z]
  range := ⟨neg_lt_zero.2 pi_pos, pi_pos.le⟩

theorem ofAxis_of_direction {axis d : Vec3 ℝ} (h : axis.direction? Scalar.epsilon = some d) (angle : ℝ) :
    ofAxis axis angle = ⟨d, Angular.wrap angle⟩ := by
  unfold ofAxis
  rw [h]

/-- An axis without a direction means no rotation. -/
theorem ofAxis_of_short {axis : Vec3 ℝ} (h : axis.norm ≤ Scalar.epsilon) (angle : ℝ) :
    ofAxis axis angle = identity := by
  unfold ofAxis
  rw [(Vec3.direction?_eq_none_iff Scalar.epsilon_pos.le).2 h]

/-- **Any axis and any angle** make a unit axis and a wrapped angle. -/
theorem proper_ofAxis (axis : Vec3 ℝ) (angle : ℝ) : (ofAxis axis angle).Proper := by
  rcases le_or_gt axis.norm Scalar.epsilon with h | h
  · rw [ofAxis_of_short h]
    exact proper_identity
  · obtain ⟨d, hd, hunit, -⟩ := Vec3.exists_direction Scalar.epsilon_pos.le h
    rw [ofAxis_of_direction hd]
    exact ⟨hunit, Angular.wrap_mem angle⟩

/-- **The length of the axis and whole turns make no difference**, as long as there is a direction. -/
theorem ofAxis_scale {axis : Vec3 ℝ} (angle : ℝ) (n : ℤ) {k : ℝ} (hk : 0 < k)
    (h : Scalar.epsilon < axis.norm) (hscaled : Scalar.epsilon < (axis.scale k).norm) :
    ofAxis (axis.scale k) (angle + n * (2 * π)) = ofAxis axis angle := by
  obtain ⟨d, hd, hunit, haxis⟩ := Vec3.exists_direction Scalar.epsilon_pos.le h
  have hsame : (axis.scale k).direction? Scalar.epsilon = some d := by
    rw [Vec3.direction?_eq_some_iff Scalar.epsilon_pos.le]
    refine ⟨hscaled, hunit, ?_⟩
    rw [Vec3.norm_scale hk.le, mul_comm, ← Vec3.scale_scale, haxis]
  rw [ofAxis_of_direction hd, ofAxis_of_direction hsame, Angular.wrap_add_turns]

/-- A rotation is made again of its axis and its angle. -/
theorem Proper.ofAxis_eq {r : AxisAngle ℝ} (h : r.Proper) : ofAxis r.axis r.angle = r := by
  have hdirection : r.axis.direction? Scalar.epsilon = some r.axis := by
    have hscaled := Vec3.direction?_scale Scalar.epsilon_pos.le Scalar.epsilon_lt_one h.unit
    rwa [Vec3.scale_one] at hscaled
  rw [ofAxis_of_direction hdirection, Angular.wrap_eq_self h.range]

/-! ### Quaternions -/

/-- Half the angle of the rotation of a quaternion. -/
noncomputable def halfAngle (q : Quat ℝ) : ℝ := Complex.arg ⟨|q.w|, q.vector.norm⟩

/-- The vector part of that one of two opposite quaternions that has `w ≥ 0`. -/
def upper {α : Type} [Scalar α] (q : Quat α) : Vec3 α := if q.w ≥ 0 then q.vector else q.vector.neg

theorem norm_upper (q : Quat ℝ) : (upper q).norm = q.vector.norm := by
  unfold upper
  split_ifs
  · rfl
  · exact Vec3.norm_neg _

theorem halfAngle_mem (q : Quat ℝ) : 0 ≤ halfAngle q ∧ halfAngle q ≤ π / 2 := by
  refine ⟨Complex.arg_nonneg_iff.2 q.vector.norm_nonneg, ?_⟩
  exact (abs_le.1 (Complex.abs_arg_le_pi_div_two_iff.2 (abs_nonneg q.w))).2

theorem ofQuat_elim {α : Type} [Angular α] (q : Quat α) : ofQuat q =
    ((upper q).direction? 0).elim identity fun direction =>
      ⟨direction, Angular.wrap (Angular.atan2 q.vector.norm (Scalar.abs q.w) * 2.0)⟩ := by
  unfold ofQuat upper
  dsimp only
  cases (if q.w ≥ 0 then q.vector else q.vector.neg).direction? 0 <;> rfl

/-- Between zero and a half turn the angle is wrapped as it is. -/
theorem ofQuat_eq (q : Quat ℝ) : ofQuat q =
    ((upper q).direction? 0).elim identity fun direction => ⟨direction, 2 * halfAngle q⟩ := by
  have hdouble : Angular.atan2 q.vector.norm (Scalar.abs q.w) * 2.0 = 2 * halfAngle q := by
    rw [Scalar.two_eq]
    exact mul_comm _ _
  have hrange : 2 * halfAngle q ∈ Set.Ioc (-π) π := by
    obtain ⟨hlow, hhigh⟩ := halfAngle_mem q
    exact ⟨by linarith [pi_pos], by linarith⟩
  rw [ofQuat_elim, hdouble, Angular.wrap_eq_self hrange]

theorem ofQuat_of_direction {q : Quat ℝ} {d : Vec3 ℝ} (h : (upper q).direction? 0 = some d) :
    ofQuat q = ⟨d, 2 * halfAngle q⟩ := by
  rw [ofQuat_eq, h]
  rfl

/-- A quaternion without a vector part turns nothing. -/
theorem ofQuat_of_vector {q : Quat ℝ} (h : q.vector.norm = 0) : ofQuat q = identity := by
  have hnone : (upper q).direction? 0 = none := by
    rw [Vec3.direction?_eq_none_iff le_rfl, norm_upper, h]
  rw [ofQuat_eq, hnone]
  rfl

/-- The axis of a quaternion with a vector part. -/
theorem exists_direction_upper {q : Quat ℝ} (h : q.vector.norm ≠ 0) : ∃ d,
    (upper q).direction? 0 = some d ∧ d.norm = 1 ∧ d.scale q.vector.norm = upper q := by
  rw [← norm_upper] at h ⊢
  exact Vec3.exists_direction le_rfl ((upper q).norm_nonneg.lt_of_ne' h)

/-- The angle is twice that between the real axis and the quaternion or its opposite. -/
theorem ofQuat_angle (q : Quat ℝ) : (ofQuat q).angle = 2 * halfAngle q := by
  by_cases h : q.vector.norm = 0
  · have hzero : halfAngle q = 0 := by
      unfold halfAngle
      rw [h]
      exact Complex.arg_ofReal_of_nonneg (abs_nonneg q.w)
    rw [ofQuat_of_vector h, hzero, mul_zero]
    rfl
  · obtain ⟨d, hd, -⟩ := exists_direction_upper h
    rw [ofQuat_of_direction hd]

/-- **Any quaternion** makes a unit axis and a wrapped angle. -/
theorem proper_ofQuat (q : Quat ℝ) : (ofQuat q).Proper := by
  by_cases h : q.vector.norm = 0
  · rw [ofQuat_of_vector h]
    exact proper_identity
  · obtain ⟨d, hd, hunit, -⟩ := exists_direction_upper h
    obtain ⟨hlow, hhigh⟩ := halfAngle_mem q
    rw [ofQuat_of_direction hd]
    refine ⟨hunit, ?_, ?_⟩
    · show -π < 2 * halfAngle q
      linarith [pi_pos]
    · show 2 * halfAngle q ≤ π
      linarith

theorem toQuat_eq (r : AxisAngle ℝ) :
    r.toQuat = Quat.ofParts (cos (r.angle / 2)) (r.axis.scale (sin (r.angle / 2))) := by
  unfold toQuat
  rw [Scalar.two_eq]
  rfl

theorem w_toQuat (r : AxisAngle ℝ) : r.toQuat.w = cos (r.angle / 2) := by
  rw [toQuat_eq]
  rfl

theorem vector_toQuat (r : AxisAngle ℝ) : r.toQuat.vector = r.axis.scale (sin (r.angle / 2)) := by
  rw [toQuat_eq, Quat.vector_ofParts]

/-- A unit axis and any angle make a quaternion of norm one. -/
theorem norm_toQuat {r : AxisAngle ℝ} (h : r.axis.norm = 1) : r.toQuat.norm = 1 := by
  rw [Quat.norm_eq_one_iff, Quat.normSq_eq_vector, w_toQuat, vector_toQuat, Vec3.normSq_scale,
    Vec3.norm_eq_one_iff.1 h, mul_one, cos_sq_add_sin_sq]

/-- Opposite quaternions have the same axis and angle. -/
theorem ofQuat_neg {q : Quat ℝ} (h : q.w < 0) : ofQuat q.neg = ofQuat q := by
  have hneg : q.neg.w ≥ 0 := neg_nonneg.2 h.le
  have hupper : upper q.neg = upper q := by
    unfold upper
    rw [if_pos hneg, if_neg h.not_ge, Quat.vector_neg]
  have hhalf : halfAngle q.neg = halfAngle q := by
    unfold halfAngle
    rw [Quat.vector_neg, Vec3.norm_neg]
    exact congrArg (fun w => Complex.arg ⟨w, q.vector.norm⟩) (abs_neg q.w)
  rw [ofQuat_eq, ofQuat_eq, hupper, hhalf]

theorem cos_sin_halfAngle {q : Quat ℝ} (h : q.norm = 1) :
    cos (halfAngle q) = |q.w| ∧ sin (halfAngle q) = q.vector.norm := by
  have hone : |q.w| ^ 2 + q.vector.norm ^ 2 = 1 := by
    rw [sq_abs, Vec3.norm_sq, ← Quat.normSq_eq_vector, Quat.norm_eq_one_iff.1 h]
  have hnorm : ‖(⟨|q.w|, q.vector.norm⟩ : ℂ)‖ = 1 := by
    rw [Complex.norm_eq_sqrt_sq_add_sq, hone, sqrt_one]
  have hne : (⟨|q.w|, q.vector.norm⟩ : ℂ) ≠ 0 := by
    rw [← norm_ne_zero_iff, hnorm]
    exact one_ne_zero
  unfold halfAngle
  rw [Complex.cos_arg hne, Complex.sin_arg, hnorm, div_one, div_one]
  exact ⟨rfl, rfl⟩

theorem arg_cos_sin {t : ℝ} (h : t ∈ Set.Ioc (-π) π) : Complex.arg ⟨cos t, sin t⟩ = t := by
  have hpoint : (⟨cos t, sin t⟩ : ℂ) = Complex.cos t + Complex.sin t * Complex.I := by
    rw [← Complex.ofReal_cos, ← Complex.ofReal_sin]
    exact Complex.mk_eq_add_mul_I _ _
  rw [hpoint, Complex.arg_cos_add_sin_mul_I h]

theorem toQuat_identity : (identity : AxisAngle ℝ).toQuat = Quat.identity := by
  rw [toQuat_eq]
  simp [identity, Quat.identity, Quat.ofParts, Vec3.scale, Vec3.x, Vec3.y, Vec3.z]

/-- **From a quaternion to axis and angle and back**, with a real part that is not negative. -/
theorem toQuat_ofQuat {q : Quat ℝ} (hq : q.norm = 1) (hw : 0 ≤ q.w) : (ofQuat q).toQuat = q := by
  by_cases h : q.vector.norm = 0
  · have hone : q.w ^ 2 = 1 := by
      have hsum := Quat.normSq_eq_vector q
      rw [Quat.norm_eq_one_iff.1 hq, ← Vec3.norm_sq, h] at hsum
      linarith
    have hreal : q.w = 1 := by nlinarith
    have hvector := Vec3.eq_zero_of_norm h
    rw [ofQuat_of_vector h, toQuat_identity, ← Quat.ofParts_vector q, hreal, hvector]
    rfl
  · obtain ⟨d, hd, -, hscale⟩ := exists_direction_upper h
    obtain ⟨hcos, hsin⟩ := cos_sin_halfAngle hq
    have hupper : upper q = q.vector := if_pos hw
    rw [hupper] at hscale
    rw [ofQuat_of_direction hd, toQuat_eq]
    dsimp only
    rw [mul_div_cancel_left₀ _ two_ne_zero, hcos, hsin, hscale, abs_of_nonneg hw, Quat.ofParts_vector]

/-- **From axis and angle to a quaternion and back**, between zero and a half turn. -/
theorem ofQuat_toQuat {r : AxisAngle ℝ} (hr : r.axis.norm = 1) (h : 0 < r.angle) (hpi : r.angle ≤ π) :
    ofQuat r.toQuat = r := by
  have hcos : 0 ≤ cos (r.angle / 2) := cos_nonneg_of_mem_Icc ⟨by linarith [pi_pos], by linarith⟩
  have hsin : 0 < sin (r.angle / 2) := sin_pos_of_pos_of_lt_pi (by linarith) (by linarith [pi_pos])
  have hdirection : (upper r.toQuat).direction? 0 = some r.axis := by
    have hupper : upper r.toQuat = r.toQuat.vector := if_pos (hcos.trans_eq r.w_toQuat.symm)
    rw [hupper, vector_toQuat]
    exact Vec3.direction?_scale le_rfl hsin hr
  have hhalf : halfAngle r.toQuat = r.angle / 2 := by
    unfold halfAngle
    rw [w_toQuat, vector_toQuat, Vec3.norm_scale hsin.le, hr, mul_one, abs_of_nonneg hcos]
    exact arg_cos_sin ⟨by linarith [pi_pos], by linarith [pi_pos]⟩
  rw [ofQuat_of_direction hdirection, hhalf, mul_div_cancel₀ _ two_ne_zero]

/-- The axis turned over and the angle turned over make the same quaternion. -/
theorem toQuat_opposite (r : AxisAngle ℝ) : r.opposite.toQuat = r.toQuat := by
  rw [toQuat_eq, toQuat_eq]
  unfold opposite
  dsimp only
  rw [neg_div, cos_neg, sin_neg, Vec3.neg_scale, neg_neg]

end AxisAngle
end EnergyStep
