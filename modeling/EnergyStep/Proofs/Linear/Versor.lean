import EnergyStep.Proofs.Exact
import EnergyStep.Linear.Quat

/-!
# Norms, directions and versors

A vector in space that is long enough has a direction, and a quaternion that is long enough has a
versor: the vector or quaternion of norm one that it is a positive multiple of. Of all quaternions of
norm one the versor is the nearest.

* `Vec3.direction?_eq_some_iff`, `Quat.versor?_eq_some_iff`: what the direction and the versor are.
* `Vec3.direction?_eq_none_iff`, `Quat.versor?_eq_none_iff`: what has none.
* `Vec3.exists_direction`: what has one.
* `Vec3.direction?_scale`: multiples of a vector of norm one have its direction.
* `Quat.distSq_lt_of_ne`: any other quaternion of norm one is further away than the versor.
-/

namespace EnergyStep

namespace Scalar

theorem epsilon_pos : (0 : ℝ) < epsilon := by norm_num [epsilon]

theorem epsilon_lt_one : (epsilon : ℝ) < 1 := by norm_num [epsilon]

end Scalar

/-- A square root is beyond a bound when the number is beyond its square. -/
theorem lt_sqrt_iff {least s : ℝ} (h : 0 ≤ least) : s > least * least ↔ least < Scalar.sqrt s := by
  rw [← sq]
  exact (Real.lt_sqrt h).symm

/-- **What has norm one and points the same way**, for anything that has a norm and can be scaled. -/
theorem scale_inv_eq_iff {V : Type} {norm : V → ℝ} {scale : V → ℝ → V}
    (norm_scale : ∀ {k : ℝ}, 0 ≤ k → ∀ a, norm (scale a k) = k * norm a)
    (scale_scale : ∀ a k l, scale (scale a k) l = scale a (k * l)) (scale_one : ∀ a, scale a 1 = a)
    {a d : V} (h : 0 < norm a) : scale a (norm a)⁻¹ = d ↔ norm d = 1 ∧ scale d (norm a) = a := by
  constructor
  · rintro rfl
    rw [norm_scale (inv_nonneg.2 h.le), scale_scale, inv_mul_cancel₀ h.ne', scale_one]
    exact ⟨rfl, rfl⟩
  · rintro ⟨-, hd⟩
    calc scale a (norm a)⁻¹ = scale (scale d (norm a)) (norm a)⁻¹ := by rw [hd]
      _ = d := by rw [scale_scale, mul_inv_cancel₀ h.ne', scale_one]

namespace Vec3

section

variable {α : Type}

theorem eq_of_xyz {a b : Vec3 α} (hx : a.x = b.x) (hy : a.y = b.y) (hz : a.z = b.z) : a = b := by
  refine Vector.ext fun i hi => ?_
  match i, hi with
  | 0, _ => exact hx
  | 1, _ => exact hy
  | 2, _ => exact hz

@[simp] theorem x_map (f : α → α) (a : Vec3 α) : x (Vector.map f a) = f a.x := Vector.getElem_map ..

@[simp] theorem y_map (f : α → α) (a : Vec3 α) : y (Vector.map f a) = f a.y := Vector.getElem_map ..

@[simp] theorem z_map (f : α → α) (a : Vec3 α) : z (Vector.map f a) = f a.z := Vector.getElem_map ..

end

section

variable {α : Type} [Exact α]

theorem normSq_eq (a : Vec3 α) : a.normSq = a.x ^ 2 + a.y ^ 2 + a.z ^ 2 := by
  unfold normSq dot
  ring

theorem normSq_nonneg (a : Vec3 α) : 0 ≤ a.normSq := by
  rw [normSq_eq]
  positivity

theorem normSq_scale (a : Vec3 α) (k : α) : (a.scale k).normSq = k ^ 2 * a.normSq := by
  simp only [normSq_eq, scale, x_map, y_map, z_map]
  ring

theorem normSq_neg (a : Vec3 α) : a.neg.normSq = a.normSq := by
  simp only [normSq_eq, neg, x_map, y_map, z_map]
  ring

theorem scale_scale (a : Vec3 α) (k l : α) : (a.scale k).scale l = a.scale (k * l) := by
  apply eq_of_xyz <;> simp only [scale, x_map, y_map, z_map, mul_assoc]

@[simp] theorem scale_one (a : Vec3 α) : a.scale 1 = a := by
  apply eq_of_xyz <;> simp only [scale, x_map, y_map, z_map, mul_one]

theorem neg_scale (a : Vec3 α) (k : α) : a.neg.scale k = a.scale (-k) := by
  apply eq_of_xyz <;> simp only [scale, neg, x_map, y_map, z_map, neg_mul, mul_neg]

end

variable {a d : Vec3 ℝ} {least : ℝ}

theorem norm_nonneg (a : Vec3 ℝ) : 0 ≤ a.norm := Real.sqrt_nonneg _

theorem norm_sq (a : Vec3 ℝ) : a.norm ^ 2 = a.normSq := Real.sq_sqrt a.normSq_nonneg

theorem norm_eq_one_iff : a.norm = 1 ↔ a.normSq = 1 := Real.sqrt_eq_one

theorem norm_neg (a : Vec3 ℝ) : a.neg.norm = a.norm := congrArg Real.sqrt a.normSq_neg

@[simp] theorem norm_zero : (Vec3.zero : Vec3 ℝ).norm = 0 := by
  have hzero : (Vec3.zero : Vec3 ℝ).normSq = 0 := by
    rw [normSq_eq]
    norm_num [Vec3.zero, x, y, z]
  show Real.sqrt _ = 0
  rw [hzero, Real.sqrt_zero]

theorem norm_scale {k : ℝ} (hk : 0 ≤ k) (a : Vec3 ℝ) : (a.scale k).norm = k * a.norm := by
  show Real.sqrt _ = k * Real.sqrt _
  rw [normSq_scale, Real.sqrt_mul (sq_nonneg k), Real.sqrt_sq hk]

/-- A vector without length. -/
theorem eq_zero_of_norm (h : a.norm = 0) : a = Vec3.zero := by
  have hsum : a.x ^ 2 + a.y ^ 2 + a.z ^ 2 = 0 := by
    rw [← normSq_eq, ← norm_sq, h, zero_pow two_ne_zero]
  rw [add_eq_zero_iff_of_nonneg (add_nonneg (sq_nonneg _) (sq_nonneg _)) (sq_nonneg _),
    add_eq_zero_iff_of_nonneg (sq_nonneg _) (sq_nonneg _), sq_eq_zero_iff, sq_eq_zero_iff,
    sq_eq_zero_iff] at hsum
  exact eq_of_xyz hsum.1.1 hsum.1.2 hsum.2

/-- The vector of norm one along a vector. -/
theorem direction?_eq (hleast : 0 ≤ least) (a : Vec3 ℝ) :
    a.direction? least = if least < a.norm then some (a.scale a.norm⁻¹) else none := by
  have hlong : a.normSq > least * least ↔ least < a.norm := lt_sqrt_iff hleast
  unfold direction?
  simp only [hlong]
  rfl

/-- **The direction of a vector** that is longer than `least`: of norm one, and the vector is a positive
multiple of it. -/
theorem direction?_eq_some_iff (hleast : 0 ≤ least) : a.direction? least = some d ↔
    least < a.norm ∧ d.norm = 1 ∧ d.scale a.norm = a := by
  rw [direction?_eq hleast]
  constructor
  · intro h
    split_ifs at h with hlong
    exact ⟨hlong, (scale_inv_eq_iff norm_scale scale_scale scale_one (hleast.trans_lt hlong)).1
      (Option.some.inj h)⟩
  · rintro ⟨hlong, h⟩
    rw [if_pos hlong, (scale_inv_eq_iff norm_scale scale_scale scale_one (hleast.trans_lt hlong)).2 h]

theorem direction?_eq_none_iff (hleast : 0 ≤ least) : a.direction? least = none ↔ a.norm ≤ least := by
  rw [direction?_eq hleast, ← not_lt]
  split_ifs with h <;> simp [h]

/-- **A vector that is longer than `least` has a direction.** -/
theorem exists_direction (hleast : 0 ≤ least) (h : least < a.norm) :
    ∃ d, a.direction? least = some d ∧ d.norm = 1 ∧ d.scale a.norm = a := by
  have hsome : a.direction? least = some (a.scale a.norm⁻¹) := by rw [direction?_eq hleast, if_pos h]
  exact ⟨_, hsome, ((direction?_eq_some_iff hleast).1 hsome).2⟩

/-- **Positive multiples of a vector of norm one** have it as their direction. -/
theorem direction?_scale (hleast : 0 ≤ least) {k : ℝ} (hk : least < k) (hd : d.norm = 1) :
    (d.scale k).direction? least = some d := by
  have hnorm : (d.scale k).norm = k := by rw [norm_scale (hleast.trans hk.le), hd, mul_one]
  rw [direction?_eq_some_iff hleast, hnorm]
  exact ⟨hk, hd, rfl⟩

end Vec3

namespace Quat

section

variable {α : Type} [Exact α]

/-- The length of a quaternion. -/
def norm (q : Quat α) : α := Scalar.sqrt q.normSq

/-- The quaternion with all components turned over. -/
def neg (q : Quat α) : Quat α := ⟨-q.w, -q.i, -q.j, -q.k⟩

/-- The square of the distance between two quaternions. -/
def distSq (p q : Quat α) : α := (p.w - q.w) ^ 2 + (p.i - q.i) ^ 2 + (p.j - q.j) ^ 2 + (p.k - q.k) ^ 2

theorem normSq_eq (q : Quat α) : q.normSq = q.w ^ 2 + q.i ^ 2 + q.j ^ 2 + q.k ^ 2 := by
  unfold normSq
  ring

theorem normSq_scale (q : Quat α) (k : α) : (q.scale k).normSq = k ^ 2 * q.normSq := by
  simp only [normSq_eq, scale]
  ring

/-- The square of the real part and that of the length of the vector part. -/
theorem normSq_eq_vector (q : Quat α) : q.normSq = q.w ^ 2 + q.vector.normSq := by
  rw [normSq_eq, Vec3.normSq_eq, add_assoc, add_assoc, ← add_assoc (q.i ^ 2)]
  rfl

theorem vector_neg (q : Quat α) : q.neg.vector = q.vector.neg := by
  apply Vec3.eq_of_xyz <;> simp only [Vec3.neg, Vec3.x_map, Vec3.y_map, Vec3.z_map] <;> rfl

theorem normSq_neg (q : Quat α) : q.neg.normSq = q.normSq := by
  simp only [normSq_eq, neg, neg_sq]

omit [Exact α] in
theorem vector_ofParts (w : α) (v : Vec3 α) : (ofParts w v).vector = v := Vec3.eq_of_xyz rfl rfl rfl

omit [Exact α] in
theorem ofParts_vector (q : Quat α) : ofParts q.w q.vector = q := rfl

theorem scale_scale (q : Quat α) (k l : α) : (q.scale k).scale l = q.scale (k * l) := by
  simp only [scale, mul_assoc]

@[simp] theorem scale_one (q : Quat α) : q.scale 1 = q := by
  simp only [scale, mul_one]

theorem distSq_pos {p q : Quat α} (h : p ≠ q) : 0 < p.distSq q := by
  have hnonneg : 0 ≤ p.distSq q := by unfold distSq; positivity
  refine lt_of_le_of_ne hnonneg fun hzero => h ?_
  have hsum : (p.w - q.w) ^ 2 + (p.i - q.i) ^ 2 + (p.j - q.j) ^ 2 + (p.k - q.k) ^ 2 = 0 := hzero.symm
  rw [add_eq_zero_iff_of_nonneg (by positivity) (sq_nonneg _),
    add_eq_zero_iff_of_nonneg (by positivity) (sq_nonneg _),
    add_eq_zero_iff_of_nonneg (sq_nonneg _) (sq_nonneg _)] at hsum
  simp only [sq_eq_zero_iff, sub_eq_zero] at hsum
  obtain ⟨⟨⟨hw, hi⟩, hj⟩, hk⟩ := hsum
  cases p; cases q
  congr

/-- **The distance from a multiple of a versor** to another quaternion of norm one. -/
theorem distSq_scale {r u : Quat α} (hr : r.normSq = 1) (hu : u.normSq = 1) (c : α) :
    (r.scale c).distSq u = (r.scale c).distSq r + c * r.distSq u := by
  rw [normSq_eq] at hr hu
  unfold distSq scale
  linear_combination (c - 1) * hr - (c - 1) * hu

end

variable {q r : Quat ℝ} {least : ℝ}

theorem norm_eq_one_iff : q.norm = 1 ↔ q.normSq = 1 := Real.sqrt_eq_one

theorem norm_neg (q : Quat ℝ) : q.neg.norm = q.norm := congrArg Real.sqrt q.normSq_neg

theorem norm_scale {k : ℝ} (hk : 0 ≤ k) (q : Quat ℝ) : (q.scale k).norm = k * q.norm := by
  show Real.sqrt _ = k * Real.sqrt _
  rw [normSq_scale, Real.sqrt_mul (sq_nonneg k), Real.sqrt_sq hk]

theorem normalized_eq (q : Quat ℝ) : q.normalized = q.scale q.norm⁻¹ := rfl

theorem versor?_eq (hleast : 0 ≤ least) (q : Quat ℝ) :
    q.versor? least = if least < q.norm then some q.normalized else none := by
  have hlong : q.normSq > least * least ↔ least < q.norm := lt_sqrt_iff hleast
  unfold versor?
  simp only [hlong]

/-- **The versor of a quaternion** that is longer than `least`: of norm one, and the quaternion is a
positive multiple of it. -/
theorem versor?_eq_some_iff (hleast : 0 ≤ least) : q.versor? least = some r ↔
    least < q.norm ∧ r.norm = 1 ∧ r.scale q.norm = q := by
  rw [versor?_eq hleast]
  constructor
  · intro h
    split_ifs at h with hlong
    exact ⟨hlong, (scale_inv_eq_iff norm_scale scale_scale scale_one (hleast.trans_lt hlong)).1
      (Option.some.inj h)⟩
  · rintro ⟨hlong, h⟩
    rw [if_pos hlong, normalized_eq,
      (scale_inv_eq_iff norm_scale scale_scale scale_one (hleast.trans_lt hlong)).2 h]

theorem versor?_eq_none_iff (hleast : 0 ≤ least) : q.versor? least = none ↔ q.norm ≤ least := by
  rw [versor?_eq hleast, ← not_lt]
  split_ifs with h <;> simp [h]

/-- What is short of one does not matter to a quaternion of norm one. -/
theorem versor?_of_norm_eq_one (hleast : 0 ≤ least) (hone : least < 1) (h : q.norm = 1) :
    q.versor? least = some q := by
  rw [versor?_eq_some_iff hleast, h, scale_one]
  exact ⟨hone, rfl, rfl⟩

/-- **Of all quaternions of norm one the versor is the nearest.** -/
theorem distSq_lt_of_ne (hr : r.norm = 1) {c : ℝ} (hc : 0 < c) {u : Quat ℝ} (hu : u.norm = 1)
    (hne : r ≠ u) : (r.scale c).distSq r < (r.scale c).distSq u := by
  rw [distSq_scale (norm_eq_one_iff.1 hr) (norm_eq_one_iff.1 hu)]
  exact lt_add_of_pos_right _ (mul_pos hc (distSq_pos hne))

end Quat
end EnergyStep
