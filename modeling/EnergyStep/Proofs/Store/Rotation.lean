import EnergyStep.Proofs.Law.Zero
import EnergyStep.Proofs.Linear.AxisAngle
import EnergyStep.Proofs.Particle.State
import EnergyStep.Proofs.Store.Place

/-!
# Stored rotations

A rotation is stored by its components, and what has been stored need not be one: a stored quaternion can have
any norm, a stored axis any length and a stored angle any number of turns. Reading makes a rotation of them, the
one that they are nearest to, and a rotation that has been added to zeros is read as it was.

* `Place.read_add_zeros`: what is read where a value has been added to zeros.
* `AxisAngle.Made`, `AxisAngle.made_iff`: the rotations by axis and angle that there are.
* `AxisAngle.Represents`: a rotation stands for an axis of any length and any angle.
* `axisAngle_normal_form`: axes and angles, made, stored and read.
* `RotationSlots.read_eq_ok`, `RotationSlots.read_eq_error`: what is read of a stored quaternion.
* `Term.versor_zeroIff`: its energy is zero exactly where it has norm one.
* `rotation_read_nearest`: stored quaternions, and when reading leaves them as they are.
-/

namespace EnergyStep

open Real

/-- Only a list can have another number of components than there are positions. -/
theorem Place.matches_of_not_list {α : Type} {p : Place} (hp : ∀ s, p ≠ .list s) (v : p.Value α) :
    p.Matches v := by
  cases p with
  | list s => exact absurd rfl (hp s)
  | vector n s => exact Vector.length_toList.trans Vector.length_toList.symm
  | axisAngle s =>
    have haxis : v.axis.toList.length = s.axis.positions.toList.length :=
      Vector.length_toList.trans Vector.length_toList.symm
    show (v.axis.toList ++ [v.angle]).length = (s.axis.positions.toList ++ [s.angle.index]).length
    rw [List.length_append, List.length_append, haxis]
    rfl
  | _ => rfl

/-- **What has been added to zeros is read as it stands for itself**, if its positions do not repeat. -/
theorem Place.read_add_zeros {α : Type} [Circular α] {p : Place} {v : p.Value α} (hv : p.Matches v)
    (hn : (Placed.indices p).Nodup) {n : ℕ} (hfit : Placed.FitsIn p n) :
    ∃ x, p.add (.zeros n) v = .ok x ∧ p.read x = p.interpret v := by
  have hfit' : Placed.FitsIn p (Components.zeros n : Components α).size := by
    rwa [Components.size_zeros]
  have hzeros : (Placed.indices p).map (Components.zeros n : Components α).component =
      (Placed.indices p).map fun _ => 0 := List.map_congr_left fun i _ => Components.component_zeros n i
  have hvalue : p.valueAt ((Components.zeros n).bumpAll (p.entries v)).component = v := by
    refine p.parts_injective ?_
    rw [parts_valueAt]
    refine (Components.map_component_bumpAll hn hfit' hv).trans ?_
    rw [hzeros]
    exact zipWith_zero_add hv
  refine ⟨_, (add_eq_ok hv).2 ⟨hfit', rfl⟩, ?_⟩
  rw [read_of_fits (by rwa [Components.size_bumpAll]), hvalue]

theorem Place.interpret_rotation {α : Type} [Angular α] (s : RotationSlots) (q : Quat α) :
    (Place.rotation s).interpret q =
      (q.versor? Scalar.epsilon).elim (.error (.argument .zeroRotation)) .ok := by
  unfold interpret
  dsimp only
  cases q.versor? Scalar.epsilon <;> rfl

/-! ### Axis and angle -/

namespace AxisAngle

/-- **The rotations by axis and angle that there are**: all ways to make one. -/
inductive Made : AxisAngle ℝ → Prop
  | ofAxis (axis : Vec3 ℝ) (angle : ℝ) : Made (ofAxis axis angle)
  | identity : Made identity
  | ofQuat (q : Quat ℝ) : Made (ofQuat q)
  | read {s : AxisAngleSlots} {x : Components ℝ} {r : AxisAngle ℝ} (h : s.read x = .ok r) : Made r

/-- What is read is made of the axis and the angle that stand at the positions. -/
theorem read_eq_ok {s : AxisAngleSlots} {x : Components ℝ} {r : AxisAngle ℝ} : s.read x = .ok r ↔
    Placed.FitsIn s x.size ∧
      AxisAngle.ofAxis (s.axis.positions.map x.component) (x.component s.angle.index) = r := by
  refine (Place.read_eq_ok (p := .axisAngle s) (w := r)).trans (and_congr_right fun _ => ?_)
  exact ⟨Except.ok.inj, congrArg Except.ok⟩

/-- **A rotation is made exactly if it has a unit axis and a wrapped angle.** -/
theorem made_iff {r : AxisAngle ℝ} : Made r ↔ r.Proper := by
  constructor
  · intro h
    cases h with
    | ofAxis axis angle => exact proper_ofAxis axis angle
    | identity => exact proper_identity
    | ofQuat q => exact proper_ofQuat q
    | read h =>
      obtain ⟨-, rfl⟩ := read_eq_ok.1 h
      exact proper_ofAxis _ _
  · intro h
    rw [← h.ofAxis_eq]
    exact Made.ofAxis _ _

/-- **The rotation stands for an axis and an angle**: it has the direction of the axis, and the angle up to
whole turns, but an axis that is too short has no direction and means no rotation. -/
structure Represents (r : AxisAngle ℝ) (axis : Vec3 ℝ) (angle : ℝ) : Prop where
  short : axis.norm ≤ Scalar.epsilon → r = AxisAngle.identity
  direction : Scalar.epsilon < axis.norm → r.axis.scale axis.norm = axis
  turns : Scalar.epsilon < axis.norm → ∃ n : ℤ, r.angle = angle + n * (2 * π)

theorem represents_ofAxis (axis : Vec3 ℝ) (angle : ℝ) :
    (AxisAngle.ofAxis axis angle).Represents axis angle := by
  refine ⟨fun h => ofAxis_of_short h angle, fun h => ?_, fun h => ?_⟩
  · obtain ⟨d, hd, -, hscale⟩ := Vec3.exists_direction Scalar.epsilon_pos.le h
    rw [ofAxis_of_direction hd]
    exact hscale
  · obtain ⟨d, hd, -⟩ := Vec3.exists_direction Scalar.epsilon_pos.le h
    rw [ofAxis_of_direction hd]
    exact Angular.wrap_eq_add_turns angle

end AxisAngle

/-- **Axes and angles have one form.** Whatever way a rotation by axis and angle is made, its axis has norm one
and its angle lies in `(-π, π]`. One that is made of an axis and an angle, or read where these are stored, has
the direction of the axis and the angle up to whole turns, and is no rotation if the axis has no direction;
one that is made of a quaternion has twice the angle between it or its opposite and the real axis. Positive
factors of the axis and whole turns of the angle make no difference. What is added to zeros at positions that
do not repeat is read as it was. -/
theorem axisAngle_normal_form :
    (∀ r : AxisAngle ℝ, r.Made → r.axis.norm = 1 ∧ -π < r.angle ∧ r.angle ≤ π) ∧
    (∀ axis angle, (AxisAngle.ofAxis axis angle).Represents axis angle) ∧
    (∀ (s : AxisAngleSlots) (x : Components ℝ) r, s.read x = .ok r →
      r.Represents (s.axis.positions.map x.component) (x.component s.angle.index)) ∧
    (AxisAngle.identity : AxisAngle ℝ).angle = 0 ∧
    (∀ q : Quat ℝ, (AxisAngle.ofQuat q).angle = 2 * Complex.arg ⟨|q.w|, q.vector.norm⟩) ∧
    (∀ (axis : Vec3 ℝ) angle (n : ℤ) k, 0 < k → Scalar.epsilon < axis.norm →
      Scalar.epsilon < (axis.scale k).norm →
      AxisAngle.ofAxis (axis.scale k) (angle + n * (2 * π)) = AxisAngle.ofAxis axis angle) ∧
    ∀ r : AxisAngle ℝ, r.Made → ∀ (s : AxisAngleSlots) n, (Placed.indices s).Nodup →
      Placed.FitsIn s n → ∃ x, s.add (.zeros n) r = .ok x ∧ s.read x = .ok r := by
  refine ⟨fun r hr => ?_, AxisAngle.represents_ofAxis, fun s x r hread => ?_, rfl,
    AxisAngle.ofQuat_angle, fun axis angle n k hk h hscaled => AxisAngle.ofAxis_scale angle n hk h hscaled,
    fun r hr s n hn hfit => ?_⟩
  · obtain ⟨hunit, hlow, hhigh⟩ := AxisAngle.made_iff.1 hr
    exact ⟨hunit, hlow, hhigh⟩
  · obtain ⟨-, rfl⟩ := AxisAngle.read_eq_ok.1 hread
    exact AxisAngle.represents_ofAxis _ _
  · obtain ⟨x, hadd, hread⟩ :=
      Place.read_add_zeros (Place.matches_of_not_list (p := .axisAngle s) nofun r) hn hfit
    have hsame : (Place.axisAngle s).interpret r = .ok r :=
      congrArg Except.ok (AxisAngle.made_iff.1 hr).ofAxis_eq
    exact ⟨x, hadd, hread.trans hsame⟩

/-- Three half turns back about an axis of length two are a half turn about one of length one, and are stored
out of order and read again. -/
theorem axisAngle_normal_form_thrice :
    (AxisAngle.ofAxis #v[0, 2, 0] (-(3 * π)) : AxisAngle ℝ).angle = π ∧
    (AxisAngle.ofAxis #v[0, 2, 0] (-(3 * π)) : AxisAngle ℝ) = AxisAngle.ofAxis #v[0, 1, 0] π ∧
    ∃ x : Components ℝ,
      AxisAngleSlots.add ⟨⟨#v[3, 0, 2]⟩, ⟨5⟩⟩ (.zeros 6) (AxisAngle.ofAxis #v[0, 2, 0] (-(3 * π))) = .ok x ∧
      AxisAngleSlots.read ⟨⟨#v[3, 0, 2]⟩, ⟨5⟩⟩ x = .ok (AxisAngle.ofAxis #v[0, 2, 0] (-(3 * π))) := by
  obtain ⟨hmade, hof, -, -, -, hsame, hstored⟩ := axisAngle_normal_form
  have hunit : Vec3.norm (#v[0, 1, 0] : Vec3 ℝ) = 1 := by
    rw [Vec3.norm_eq_one_iff, Vec3.normSq_eq]
    norm_num [Vec3.x, Vec3.y, Vec3.z]
  have hdouble : Vec3.scale (#v[0, 1, 0] : Vec3 ℝ) 2 = #v[0, 2, 0] := by
    apply Vec3.eq_of_xyz <;> simp [Vec3.scale, Vec3.x, Vec3.y, Vec3.z]
  have hlong : Scalar.epsilon < (Vec3.scale (#v[0, 1, 0] : Vec3 ℝ) 2).norm := by
    rw [Vec3.norm_scale zero_le_two, hunit]
    linarith [Scalar.epsilon_lt_one]
  refine ⟨?_, ?_, ?_⟩
  · rw [hdouble] at hlong
    obtain ⟨n, hn⟩ := (hof #v[0, 2, 0] (-(3 * π))).turns hlong
    obtain ⟨-, hlow, hhigh⟩ := hmade _ (.ofAxis #v[0, 2, 0] (-(3 * π)))
    rw [hn] at hlow hhigh ⊢
    -- of all whole turns only two end in the interval
    have hmore : (1 : ℝ) < n := by nlinarith [pi_pos]
    have hless : (n : ℝ) < 3 := by nlinarith [pi_pos]
    obtain rfl : n = 2 := by
      have hmore' : 1 < n := by exact_mod_cast hmore
      have hless' : n < 3 := by exact_mod_cast hless
      omega
    push_cast
    ring
  · have hturns : π + ((-2 : ℤ) : ℝ) * (2 * π) = -(3 * π) := by
      push_cast
      ring
    have hsame' := hsame #v[0, 1, 0] π (-2) 2 two_pos
      (by rw [hunit]; exact Scalar.epsilon_lt_one) hlong
    rwa [hdouble, hturns] at hsame'
  · exact hstored _ (.ofAxis _ _) ⟨⟨#v[3, 0, 2]⟩, ⟨5⟩⟩ 6 (by decide) (by decide)

/-! ### Quaternions -/

namespace RotationSlots

variable {s : RotationSlots} {x : Components ℝ}

/-- **A stored quaternion is read as its versor**, if it is long enough to have one. -/
theorem read_eq_elim (hfit : Placed.FitsIn s x.size) : s.read x =
    ((s.quat.quatAt x.component).versor? Scalar.epsilon).elim (.error (.argument .zeroRotation))
      .ok :=
  (Place.read_of_fits (p := .rotation s) hfit).trans (Place.interpret_rotation s _)

theorem read_eq_ok (hfit : Placed.FitsIn s x.size) {r : Quat ℝ} : s.read x = .ok r ↔
    (s.quat.quatAt x.component).versor? Scalar.epsilon = some r := by
  rw [read_eq_elim hfit]
  cases (s.quat.quatAt x.component).versor? Scalar.epsilon <;> simp

theorem read_eq_error (hfit : Placed.FitsIn s x.size) {fault : Fault ℝ} :
    s.read x = .error fault ↔ (s.quat.quatAt x.component).norm ≤ Scalar.epsilon ∧
      fault = .argument .zeroRotation := by
  rw [read_eq_elim hfit, ← Quat.versor?_eq_none_iff Scalar.epsilon_pos.le]
  cases (s.quat.quatAt x.component).versor? Scalar.epsilon <;> simp [eq_comm]

/-- It is read as it stands exactly if it has norm one. -/
theorem read_eq_self (hfit : Placed.FitsIn s x.size) :
    s.read x = .ok (s.quat.quatAt x.component) ↔ (s.quat.quatAt x.component).norm = 1 := by
  rw [read_eq_ok hfit]
  constructor
  · intro h
    exact ((Quat.versor?_eq_some_iff Scalar.epsilon_pos.le).1 h).2.1
  · intro h
    exact Quat.versor?_of_norm_eq_one Scalar.epsilon_pos.le Scalar.epsilon_lt_one h

/-- **A positive multiple is read as the same rotation**, as long as it has a norm. -/
theorem read_of_scaled {y : Components ℝ} {k : ℝ} (hfit : Placed.FitsIn s x.size)
    (hfity : Placed.FitsIn s y.size) (hk : 0 < k)
    (hy : s.quat.quatAt y.component = (s.quat.quatAt x.component).scale k)
    (hlong : Scalar.epsilon < (s.quat.quatAt y.component).norm) {r : Quat ℝ} (h : s.read x = .ok r) :
    s.read y = .ok r := by
  rw [read_eq_ok hfit, Quat.versor?_eq_some_iff Scalar.epsilon_pos.le] at h
  obtain ⟨-, hunit, hback⟩ := h
  rw [read_eq_ok hfity, Quat.versor?_eq_some_iff Scalar.epsilon_pos.le]
  refine ⟨hlong, hunit, ?_⟩
  rw [hy, Quat.norm_scale hk.le, mul_comm, ← Quat.scale_scale, hback]

end RotationSlots

/-- **The energy of a stored quaternion** is zero exactly where its norm is one, whatever it was before. -/
theorem Term.versor_zeroIff {α : Type} [Exact α] {s : QuatSlots} {scales : Scales α} {x : Components α}
    (hscales : scales.check = .ok ()) (hfit : Placed.FitsIn s x.size) (initial : Components α)
    (dt : α) :
    (⟨.versor ⟨s⟩, scales⟩ : Term α).ZeroIff initial x dt ((s.quatAt x.component).normSq = 1) := by
  have hfit' : (⟨.versor ⟨s⟩, scales⟩ : Term α).FitsIn x.size := hfit
  show (⟨.versor ⟨s⟩, scales⟩ : Term α).ZeroIff x x dt _
  refine (zeroIff_holds hscales hfit' hfit').congr ?_
  rw [Quat.normSq_eq]
  exact Iff.rfl

/-- **A stored quaternion is read as the nearest rotation.** Let a state have all positions of a rotation, no
two the same. Reading fails exactly if the norm of the stored quaternion is not beyond the least one.
Otherwise it gives the quaternion divided by its norm, which has norm one and is nearer to what is stored than
any other quaternion of norm one; positive multiples of it are read as the same, as long as they have a norm.
The energy of the constraint on the norm is zero exactly if reading gives the stored components themselves. A
quaternion of norm one that is added to zeros is read as it was. -/
theorem rotation_read_nearest {s : RotationSlots} (hn : (Placed.indices s).Nodup) {x : Components ℝ}
    (hfit : Placed.FitsIn s x.size) {q : Quat ℝ} (hq : s.quat.quatAt x.component = q) :
    ((∃ fault, s.read x = .error fault) ↔ q.norm ≤ Scalar.epsilon) ∧
    (Scalar.epsilon < q.norm →
      s.read x = .ok (q.shrink q.norm) ∧ (q.shrink q.norm).norm = 1 ∧
      (∀ u : Quat ℝ, u.norm = 1 → q.shrink q.norm ≠ u → q.distSq (q.shrink q.norm) < q.distSq u) ∧
      ∀ (y : Components ℝ) k, 0 < k → Placed.FitsIn s y.size →
        s.quat.quatAt y.component = q.scale k → Scalar.epsilon < (q.scale k).norm →
          s.read y = s.read x) ∧
    (∀ (scales : Scales ℝ) (initial g : Components ℝ) dt, scales.check = .ok () → g.size = x.size →
      ∃ e g', (⟨.versor ⟨s.quat⟩, scales⟩ : Term ℝ).evaluate initial x dt g = (.ok e, g') ∧
        (e = 0 ↔ s.read x = .ok q)) ∧
    ∀ (u : Quat ℝ) n, u.norm = 1 → Placed.FitsIn s n →
      ∃ y, s.add (.zeros n) u = .ok y ∧ s.read y = .ok u := by
  subst hq
  set q := s.quat.quatAt x.component
  refine ⟨?_, fun h => ?_, ?_, ?_⟩
  · simp only [RotationSlots.read_eq_error hfit, exists_and_left, exists_eq, and_true, q]
  · have hversor : q.versor? Scalar.epsilon = some (q.shrink q.norm) := by
      rw [Quat.versor?_eq Scalar.epsilon_pos.le, if_pos h]
      rfl
    have hread := (RotationSlots.read_eq_ok hfit).2 hversor
    obtain ⟨-, hunit, hback⟩ := (Quat.versor?_eq_some_iff Scalar.epsilon_pos.le).1 hversor
    refine ⟨hread, hunit, fun u hu hne => ?_, fun y k hk hfity hy hlong => ?_⟩
    · have hnearest := Quat.distSq_lt_of_ne hunit (Scalar.epsilon_pos.trans h) hu hne
      rwa [hback] at hnearest
    · rw [hread]
      rw [← hy] at hlong
      exact RotationSlots.read_of_scaled hfit hfity hk hy hlong hread
  · intro scales initial g dt hscales hg
    obtain ⟨e, g', heval, -, hzero⟩ := Term.versor_zeroIff hscales hfit initial dt g hg
    refine ⟨e, g', heval, ?_⟩
    rw [hzero, RotationSlots.read_eq_self hfit, Quat.norm_eq_one_iff]
  · intro u n hu hfitn
    obtain ⟨y, hadd, hready⟩ :=
      Place.read_add_zeros (Place.matches_of_not_list (p := .rotation s) nofun u) hn hfitn
    have hsame : (Place.rotation s).interpret u = .ok u := by
      rw [Place.interpret_rotation,
        Quat.versor?_of_norm_eq_one Scalar.epsilon_pos.le Scalar.epsilon_lt_one hu]
      rfl
    exact ⟨y, hadd, hready.trans hsame⟩

/-- A quaternion of norm five, stored out of order. -/
def stretched : RotationSlots := ⟨⟨2, 0, 1, 3⟩⟩

/-- It is read as its fifth part and has an energy, and zeros are no rotation. -/
theorem rotation_read_nearest_stretched :
    stretched.read (#[3, 0, 4, 0] : Components ℝ) = .ok ⟨4 / 5, 3 / 5, 0, 0⟩ ∧
    (∃ e g, (⟨.versor ⟨stretched.quat⟩, .unit⟩ : Term ℝ).evaluate (.zeros 4) #[3, 0, 4, 0] 1 (.zeros 4) =
      (.ok e, g) ∧ e ≠ 0) ∧
    ∃ fault, stretched.read (.zeros 4 : Components ℝ) = .error fault := by
  have hn : (Placed.indices stretched).Nodup := by decide
  have hnorm : (⟨4, 3, 0, 0⟩ : Quat ℝ).norm = 5 := by
    have hfive : (⟨4, 3, 0, 0⟩ : Quat ℝ).normSq = 5 ^ 2 := by
      rw [Quat.normSq_eq]
      norm_num
    show Real.sqrt _ = 5
    rw [hfive, Real.sqrt_sq (by norm_num)]
  have hlong : Scalar.epsilon < (⟨4, 3, 0, 0⟩ : Quat ℝ).norm := by
    rw [hnorm]
    linarith [Scalar.epsilon_lt_one]
  obtain ⟨-, hread, henergy, -⟩ := rotation_read_nearest hn (x := (#[3, 0, 4, 0] : Components ℝ))
    (by decide) (q := ⟨4, 3, 0, 0⟩) rfl
  obtain ⟨hversor, -⟩ := hread hlong
  have hfifth : (⟨4, 3, 0, 0⟩ : Quat ℝ).shrink 5 = ⟨4 / 5, 3 / 5, 0, 0⟩ := by
    simp [Quat.shrink]
  rw [hnorm, hfifth] at hversor
  refine ⟨hversor, ?_, ?_⟩
  · obtain ⟨e, g, heval, hzero⟩ := henergy .unit (.zeros 4) (.zeros 4) 1
      (Scales.check_eq_ok.2 ⟨one_pos, one_pos, one_pos, one_pos⟩) (Components.size_zeros 4)
    refine ⟨e, g, heval, fun he => ?_⟩
    have hsame := hversor.symm.trans (hzero.1 he)
    rw [Except.ok.injEq, Quat.mk.injEq] at hsame
    norm_num at hsame
  · obtain ⟨hfail, -⟩ := rotation_read_nearest hn (x := (.zeros 4 : Components ℝ)) (by decide)
      (q := ⟨0, 0, 0, 0⟩) (by simp [QuatSlots.quatAt])
    have hnothing : (⟨0, 0, 0, 0⟩ : Quat ℝ).normSq = 0 := by
      rw [Quat.normSq_eq]
      norm_num
    refine hfail.2 ?_
    show Real.sqrt _ ≤ _
    rw [hnothing, Real.sqrt_zero]
    exact Scalar.epsilon_pos.le

end EnergyStep
