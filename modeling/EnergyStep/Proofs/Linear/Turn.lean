import EnergyStep.Proofs.Linear.AxisAngle

/-!
# Where rotations take vectors

A quaternion `q` of norm one takes a vector `u` to `q u q⁻¹`, a rotation about an axis turns what is across the
axis. Both forms of a rotation do the same to every vector, and turned into the other form and back they are
what they were, up to the choice between a quaternion and its opposite and between an axis and its opposite.

* `Quat.turn`, `AxisAngle.turn`: where a rotation takes a vector.
* `Quat.turn_eq`: the product of quaternions in terms of products of vectors.
* `AxisAngle.turn_toQuat`: both forms take a vector to the same place.
* `rotation_forms_agree`: from one form to the other and back.
-/

namespace EnergyStep

open Real
open scoped Matrix

namespace Quat

/-- The quaternion as an element of the algebra of quaternions. -/
def toQuaternion (q : Quat ℝ) : Quaternion ℝ := ⟨q.w, q.i, q.j, q.k⟩

@[simp] theorem re_toQuaternion (q : Quat ℝ) : q.toQuaternion.re = q.w := rfl

@[simp] theorem imI_toQuaternion (q : Quat ℝ) : q.toQuaternion.imI = q.i := rfl

@[simp] theorem imJ_toQuaternion (q : Quat ℝ) : q.toQuaternion.imJ = q.j := rfl

@[simp] theorem imK_toQuaternion (q : Quat ℝ) : q.toQuaternion.imK = q.k := rfl

/-- **Where a quaternion of norm one takes a vector**: the vector part of `q u q⁻¹`. -/
noncomputable def turn (q : Quat ℝ) (u : Fin 3 → ℝ) : Fin 3 → ℝ :=
  let turned := q.toQuaternion * (ofParts 0 (Vector.ofFn u)).toQuaternion * star q.toQuaternion
  ![turned.imI, turned.imJ, turned.imK]

/-- The same in terms of the real part and the vector part. -/
theorem turn_eq (q : Quat ℝ) (u : Fin 3 → ℝ) : q.turn u =
    (q.w ^ 2 - q.vector.normSq) • u + (2 * (q.vector.get ⬝ᵥ u)) • q.vector.get +
      (2 * q.w) • crossProduct q.vector.get u := by
  have hi : q.vector.get 0 = q.i := rfl
  have hj : q.vector.get 1 = q.j := rfl
  have hk : q.vector.get 2 = q.k := rfl
  have hsq : q.vector.normSq = q.i ^ 2 + q.j ^ 2 + q.k ^ 2 := Vec3.normSq_eq _
  have hu : ofParts 0 (Vector.ofFn u) = ⟨0, u 0, u 1, u 2⟩ := by
    simp [ofParts, Vec3.x, Vec3.y, Vec3.z]
  rw [cross_apply, hsq]
  unfold turn dotProduct
  rw [Fin.sum_univ_three, hi, hj, hk, hu]
  ext axis
  fin_cases axis <;> simp [hi, hj, hk] <;> ring

/-- Opposite quaternions turn every vector alike. -/
theorem turn_neg (q : Quat ℝ) : q.neg.turn = q.turn := by
  funext u
  have hneg : q.neg.toQuaternion = -q.toQuaternion := rfl
  unfold turn
  rw [hneg, star_neg, neg_mul, neg_mul_neg]

end Quat

namespace AxisAngle

/-- **Where a rotation about an axis takes a vector**: the part along the axis stays, the rest is turned by
the angle in the plane across it. -/
noncomputable def turn (r : AxisAngle ℝ) (u : Fin 3 → ℝ) : Fin 3 → ℝ :=
  cos r.angle • u + ((1 - cos r.angle) * (r.axis.get ⬝ᵥ u)) • r.axis.get +
    sin r.angle • crossProduct r.axis.get u

/-- **Both forms of a rotation take a vector to the same place**, by the formulas for the double angle. -/
theorem turn_toQuat {r : AxisAngle ℝ} (h : r.axis.norm = 1) : r.toQuat.turn = r.turn := by
  have hcircle := sin_sq_add_cos_sq (r.angle / 2)
  have hcos : cos r.angle = 2 * cos (r.angle / 2) ^ 2 - 1 := by
    rw [← cos_two_mul, mul_div_cancel₀ _ two_ne_zero]
  have hsin : sin r.angle = 2 * sin (r.angle / 2) * cos (r.angle / 2) := by
    rw [← sin_two_mul, mul_div_cancel₀ _ two_ne_zero]
  have hvector : r.toQuat.vector.get = sin (r.angle / 2) • r.axis.get := by
    rw [vector_toQuat]
    funext axis
    simp [Vec3.scale, mul_comm, Vector.get_eq_getElem]
  have hnormSq : r.toQuat.vector.normSq = sin (r.angle / 2) ^ 2 := by
    rw [vector_toQuat, Vec3.normSq_scale, Vec3.norm_eq_one_iff.1 h, mul_one]
  funext u
  rw [Quat.turn_eq, w_toQuat, hvector, hnormSq]
  unfold turn
  rw [smul_dotProduct, map_smul, LinearMap.smul_apply, smul_smul, smul_smul, smul_eq_mul]
  -- part by part: along the vector, along the axis, across both
  congr 2
  · congr 1
    linarith
  · congr 1
    linear_combination (2 * (r.axis.get ⬝ᵥ u)) * hcircle + (r.axis.get ⬝ᵥ u) * hcos
  · linarith

end AxisAngle

/-- **Both forms of a rotation are the same rotation.** Axis and angle of a quaternion of norm one turn every
vector as the quaternion does, and made into a quaternion again they are this quaternion if its real part is
not negative, and its opposite otherwise; no rotation, in either sign, is made into the identity. The
quaternion of a unit axis and a wrapped angle has norm one and turns every vector as they do, and it has this
axis and angle if the angle is positive, the opposite axis and angle if it is negative, and means no rotation
if it is zero. -/
theorem rotation_forms_agree :
    (∀ q : Quat ℝ, q.norm = 1 →
      (AxisAngle.ofQuat q).Proper ∧ (AxisAngle.ofQuat q).turn = q.turn ∧
      (0 ≤ q.w → (AxisAngle.ofQuat q).toQuat = q) ∧ (q.w < 0 → (AxisAngle.ofQuat q).toQuat = q.neg) ∧
      (q = Quat.identity ∨ q = Quat.identity.neg →
        AxisAngle.ofQuat q = AxisAngle.identity ∧ (AxisAngle.ofQuat q).toQuat = Quat.identity)) ∧
    ∀ r : AxisAngle ℝ, r.Proper →
      r.toQuat.norm = 1 ∧ r.toQuat.turn = r.turn ∧
      (0 < r.angle → AxisAngle.ofQuat r.toQuat = r) ∧
      (r.angle < 0 → AxisAngle.ofQuat r.toQuat = r.opposite) ∧
      (r.angle = 0 → AxisAngle.ofQuat r.toQuat = AxisAngle.identity) := by
  refine ⟨fun q hq => ?_, fun r hr => ?_⟩
  · have hproper := AxisAngle.proper_ofQuat q
    have hupper : 0 ≤ q.w → (AxisAngle.ofQuat q).toQuat = q := AxisAngle.toQuat_ofQuat hq
    have hlower : q.w < 0 → (AxisAngle.ofQuat q).toQuat = q.neg := by
      intro hw
      have hneg : q.neg.norm = 1 := by rw [Quat.norm_neg, hq]
      rw [← AxisAngle.ofQuat_neg hw]
      exact AxisAngle.toQuat_ofQuat hneg (neg_nonneg.2 hw.le)
    refine ⟨hproper, ?_, hupper, hlower, fun h => ?_⟩
    · rw [← AxisAngle.turn_toQuat hproper.unit]
      rcases le_or_gt 0 q.w with hw | hw
      · rw [hupper hw]
      · rw [hlower hw, Quat.turn_neg]
    · have hvector : q.vector.norm = 0 := by
        rcases h with rfl | rfl
        · exact Vec3.norm_zero
        · rw [Quat.vector_neg, Vec3.norm_neg]
          exact Vec3.norm_zero
      rw [AxisAngle.ofQuat_of_vector hvector]
      exact ⟨rfl, AxisAngle.toQuat_identity⟩
  · obtain ⟨hlow, hhigh⟩ := hr.range
    refine ⟨AxisAngle.norm_toQuat hr.unit, AxisAngle.turn_toQuat hr.unit,
      fun h => AxisAngle.ofQuat_toQuat hr.unit h hhigh, fun h => ?_, fun h => ?_⟩
    · -- the opposite axis and angle have the same quaternion, and their angle is positive
      have hunit : r.opposite.axis.norm = 1 := (Vec3.norm_neg r.axis).trans hr.unit
      rw [← AxisAngle.toQuat_opposite]
      exact AxisAngle.ofQuat_toQuat hunit (neg_pos.2 h) (neg_le.1 hlow.le)
    · apply AxisAngle.ofQuat_of_vector
      rw [AxisAngle.vector_toQuat, h, zero_div, sin_zero, Vec3.norm_scale le_rfl, zero_mul]

/-- A half turn, whose quaternion has no real part; a quaternion with a negative real part; and a quarter
turn the other way. -/
theorem rotation_forms_agree_flipped :
    (AxisAngle.ofQuat (⟨0, 0.6, 0, -0.8⟩ : Quat ℝ)).toQuat = ⟨0, 0.6, 0, -0.8⟩ ∧
    (AxisAngle.ofQuat (⟨-0.6, 0, 0.8, 0⟩ : Quat ℝ)).toQuat = Quat.neg ⟨-0.6, 0, 0.8, 0⟩ ∧
    AxisAngle.ofQuat (⟨#v[0, 0, 1], -(π / 2)⟩ : AxisAngle ℝ).toQuat =
      AxisAngle.opposite ⟨#v[0, 0, 1], -(π / 2)⟩ := by
  obtain ⟨hquat, haxis⟩ := rotation_forms_agree
  refine ⟨?_, ?_, ?_⟩
  · have hone : (⟨0, 0.6, 0, -0.8⟩ : Quat ℝ).norm = 1 := by
      rw [Quat.norm_eq_one_iff, Quat.normSq_eq]
      norm_num
    exact (hquat _ hone).2.2.1 le_rfl
  · have hone : (⟨-0.6, 0, 0.8, 0⟩ : Quat ℝ).norm = 1 := by
      rw [Quat.norm_eq_one_iff, Quat.normSq_eq]
      norm_num
    exact (hquat _ hone).2.2.2.1 (by norm_num)
  · have hproper : AxisAngle.Proper ⟨#v[0, 0, 1], -(π / 2)⟩ :=
      ⟨AxisAngle.proper_identity.unit, by linarith [pi_pos], by linarith [pi_pos]⟩
    exact (haxis _ hproper).2.2.2.1 (by linarith [pi_pos])

end EnergyStep
