import EnergyStep.Proofs.Ends
import EnergyStep.Proofs.Exact
import EnergyStep.Store.Access
import EnergyStep.Search.Ray

/-!
# Vectors in exact arithmetic

The order of additions no longer matters, so an inner product is one sum, and the two ways in which a
search computes a point of a line agree.

* `dot_eq_sum`: the inner product as a sum over positions.
* `advance_origin`: the point that a search moves to is the one it evaluated.
-/

namespace EnergyStep

variable {α : Type} [Exact α]

namespace Components

@[simp] theorem size_neg (a : Components α) : a.neg.size = a.size := by simp [neg]

@[simp] theorem size_scale (a : Components α) (w : α) : (a.scale w).size = a.size := by simp [scale]

@[simp] theorem size_add (a b : Components α) : (a.add b).size = min a.size b.size := by simp [add]

@[simp] theorem size_sub (a b : Components α) : (a.sub b).size = min a.size b.size := by simp [sub]

@[simp] theorem size_zeros (n : ℕ) : (zeros n : Components α).size = n := by simp [zeros]

theorem size_of_mem_basis {n : ℕ} {d : Components α} (hd : d ∈ basis n) : d.size = n := by
  obtain ⟨i, -, rfl⟩ := List.mem_map.1 hd
  exact Array.size_ofFn

@[simp] theorem length_basis (n : ℕ) : (basis n : List (Components α)).length = n := by simp [basis]

theorem component_eq {x : Components α} {i : ℕ} (h : i < x.size) : x.component i = x[i] := by
  unfold component; rw [← Array.getElem_eq_getD]

theorem component_of_le {x : Components α} {i : ℕ} (h : x.size ≤ i) : x.component i = 0 := by
  unfold component; rw [Array.getD_eq_getD_getElem?, Array.getElem?_eq_none h]; rfl

theorem ext_component {x y : Components α} (hsize : x.size = y.size)
    (h : ∀ i < x.size, x.component i = y.component i) : x = y := by
  apply Array.ext
  · exact hsize
  · intro i h₁ h₂
    rw [← component_eq h₁, ← component_eq h₂]
    exact h i h₁

@[simp] theorem component_zeros (n i : ℕ) : (zeros n : Components α).component i = 0 := by
  unfold component zeros
  rw [Array.getD_eq_getD_getElem?, Array.getElem?_replicate]
  split_ifs <;> rfl

theorem component_set {x : Components α} {i : ℕ} (hi : i < x.size) (u : α) (j : ℕ) :
    component (x.set i u) j = if j = i then u else x.component j := by
  unfold component
  rw [Array.getD_eq_getD_getElem?, Array.getD_eq_getD_getElem?, Array.getElem?_set]
  by_cases hj : j = i
  · rw [if_pos hj.symm, if_pos hj]; rfl
  · rw [if_neg (Ne.symm hj), if_neg hj]

theorem component_setIfInBounds {x : Components α} {i : ℕ} (hi : i < x.size) (u : α) (j : ℕ) :
    component (x.setIfInBounds i u) j = if j = i then u else x.component j := by
  rw [Array.setIfInBounds, dif_pos hi, component_set hi]

/-- A way by way of a point. -/
theorem sub_add_sub {a p q : Components α} (ha : a.size = q.size) (hp : p.size = q.size) :
    (q.sub p).add (p.sub a) = q.sub a := by
  apply Array.ext
  · simp [ha, hp]
  · intro i h1 h2
    simp [add, sub]

theorem component_sub {a q : Components α} (ha : a.size = q.size) (i : ℕ) :
    (q.sub a).component i = q.component i - a.component i := by
  rcases Nat.lt_or_ge i q.size with hi | hi
  · have hia : i < a.size := by rw [ha]; exact hi
    have his : i < (q.sub a).size := by rw [size_sub, ha, min_self]; exact hi
    rw [component_eq hi, component_eq hia, component_eq his]
    simp [sub]
  · -- beyond the end all three are zero
    have hia : a.size ≤ i := by rw [ha]; exact hi
    have his : (q.sub a).size ≤ i := by rw [size_sub, ha, min_self]; exact hi
    rw [component_of_le hi, component_of_le hia, component_of_le his, sub_zero]

/-- Ways to one point are equal from one point only. -/
theorem sub_eq_sub_iff {a p q : Components α} (ha : a.size = q.size) (hp : p.size = q.size) :
    q.sub a = q.sub p ↔ a = p := by
  constructor
  · intro h
    refine ext_component (ha.trans hp.symm) fun i _ => ?_
    have hi : (q.sub a).component i = (q.sub p).component i := by rw [h]
    rw [component_sub ha, component_sub hp] at hi
    exact sub_right_injective hi
  · rintro rfl
    rfl

theorem sum_lanes (ps : List α) (l : Lanes α) : l.sum ps = l.total + ps.sum := by
  induction l, ps using Lanes.sum.induct with
  | case1 l p0 p1 p2 p3 p4 p5 p6 p7 rest ih =>
    rw [Lanes.sum, ih]
    simp only [Lanes.total, List.sum_cons]
    ring
  | case2 l rest h =>
    rw [Lanes.sum]
    · have key : ∀ (ps : List α) (a : α), ps.foldl (· + ·) a = a + ps.sum := by
        intro ps
        induction ps with
        | nil => intro a; simp
        | cons p ps ih => intro a; simp only [List.foldl_cons, List.sum_cons, ih, add_assoc]
      exact key rest _
    · exact h

/-- **The inner product is a sum over positions.** -/
theorem dot_eq_sum {a b : Components α} (h : a.size = b.size) :
    a.dot b = ∑ i ∈ Finset.range a.size, a.component i * b.component i := by
  have hz : (Lanes.zero : Lanes α).total = 0 := by simp [Lanes.total, Lanes.zero]
  have hl : (Array.zipWith (· * ·) a b).toList =
      (List.range a.size).map fun i => a.component i * b.component i := by
    apply List.ext_getElem
    · simp [h]
    · intro i h1 h2
      have hi : i < a.size := by simpa using h2
      simp [component_eq hi, component_eq (h ▸ hi : i < b.size)]
  unfold dot
  rw [sum_lanes, hz, zero_add, hl]
  exact (Multiset.sum_coe _).symm

end Components

namespace Ray

/-- Point and direction have `n` components. -/
def Sized (n : ℕ) (r : Ray α) : Prop := r.origin.size = n ∧ r.direction.size = n

variable {n : ℕ} {r : Ray α}

theorem Sized.size_point (h : r.Sized n) (w : α) : (r.point w).size = n := by
  simp [point, h.1, h.2]

theorem Sized.advance (h : r.Sized n) (w : α) : (r.advance w).Sized n := by
  simp [Sized, Ray.advance, h.1, h.2]

/-- The way of a line is the difference of its ends. -/
theorem Sized.advance_sub (h : r.Sized n) (w : α) :
    (r.advance w).origin.sub r.origin = (r.advance w).direction := by
  apply Array.ext
  · simp [Ray.advance, h.1, h.2]
  · intro i h1 h2
    simp [Ray.advance, Components.add, Components.sub, Components.scale]

/-- **The point that a search moves to is the one it evaluated.** -/
theorem advance_origin (r : Ray α) (w : α) : (r.advance w).origin = r.point w := by
  apply Array.ext
  · simp [advance, point, Components.add, Components.scale, min_comm]
  · intro i h1 h2
    simp [advance, point, Components.add, Components.scale]
    ring

/-- No step leads to the origin. -/
theorem Sized.point_zero (h : r.Sized n) : r.point 0 = r.origin := by
  apply Array.ext
  · rw [h.size_point, h.1]
  · intro i h1 h2
    simp [point]

theorem Sized.component_point (h : r.Sized n) (w : α) (i : ℕ) :
    (r.point w).component i = w * r.direction.component i + r.origin.component i := by
  rcases Nat.lt_or_ge i n with hi | hi
  · have h0 : i < (r.point w).size := by rw [h.size_point]; exact hi
    have h1 : i < r.origin.size := by rw [h.1]; exact hi
    have h2 : i < r.direction.size := by rw [h.2]; exact hi
    rw [Components.component_eq h0, Components.component_eq h1, Components.component_eq h2]
    simp [point]
  · -- beyond the end all three are zero
    have h0 : (r.point w).size ≤ i := by rw [h.size_point]; exact hi
    have h1 : r.origin.size ≤ i := by rw [h.1]; exact hi
    have h2 : r.direction.size ≤ i := by rw [h.2]; exact hi
    rw [Components.component_of_le h0, Components.component_of_le h1, Components.component_of_le h2,
      mul_zero, zero_add]

omit [Exact α] in
theorem check_eq_ok : r.check n = .ok () ↔ r.Sized n := by
  unfold check Sized
  rw [bind_eq_ok]
  constructor
  · rintro ⟨u, h1, h2⟩
    exact ⟨(checkDimension_eq_ok.1 h1).symm, (checkDimension_eq_ok.1 h2).symm⟩
  · rintro ⟨h1, h2⟩
    exact ⟨(), checkDimension_eq_ok.2 h1.symm, checkDimension_eq_ok.2 h2.symm⟩

end Ray
end EnergyStep
