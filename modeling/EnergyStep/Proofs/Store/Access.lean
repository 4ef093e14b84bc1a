import EnergyStep.Proofs.Linear.Components
import EnergyStep.Law.Balance
import EnergyStep.Law.Constraint

/-!
# Reading and adding to a state

Reading succeeds exactly when the positions exist, and gives the components there. Adding puts every
amount at its own position, however often a position occurs.

* `Placed.Addressable`: a quantity whose positions some state can have; `Addressable.fits_iff`: which ones do.
* `Slot.read_eq_ok`, `Slots.read_eq_ok`, `Transfer.read_eq_ok`, `QuatSlots.read_eq_ok`: when a
  quantity can be read.
* `deposit_eq_ok`: when amounts can be added; `getElem?_bumpAll`: what stays as it was.
* `deliver_eq`: additions with a place in the gradient are all made.
* `total`: the sum of the amounts at one position; `total_of_mem`: the only amount there.
* `component_bumpAll`, `bumpAll_perm`: the components after additions, in any order.
-/

namespace EnergyStep

variable {α : Type}

theorem checkIndex_eq_ok {n i : ℕ} : (checkIndex n i : Except (Fault α) Unit) = .ok () ↔ i < n := by
  unfold checkIndex
  split <;> simp_all

theorem checkIndices_eq_ok {n : ℕ} {l : List ℕ} :
    (checkIndices n l : Except (Fault α) Unit) = .ok () ↔ ∀ i ∈ l, i < n := by
  unfold checkIndices
  induction l with
  | nil => simp [pure, Except.pure]
  | cons i l ih =>
    show (checkIndex n i >>= fun _ => l.forM (checkIndex n)) = .ok () ↔ _
    rw [bind_eq_ok, List.forall_mem_cons]
    constructor
    · rintro ⟨u, h1, h2⟩; exact ⟨checkIndex_eq_ok.1 h1, ih.1 h2⟩
    · rintro ⟨h1, h2⟩; exact ⟨(), checkIndex_eq_ok.2 h1, ih.2 h2⟩

/-- Positions that exist are required at most, whatever the word does beyond them. -/
theorem requiredDimension_le_of_lt {l : List ℕ} {n : ℕ} (h : ∀ i ∈ l, i < n) : requiredDimension l ≤ n := by
  unfold requiredDimension
  cases hmax : l.max? with
  | none => exact n.zero_le
  | some last => exact (Nat.mod_le _ _).trans (h last (List.max?_mem hmax))

/-- **Positions before the last word are what is required**: there the sum does not wrap around. -/
theorem requiredDimension_le {l : List ℕ} {n : ℕ} (hl : ∀ i ∈ l, i < 2 ^ 64 - 1) :
    requiredDimension l ≤ n ↔ ∀ i ∈ l, i < n := by
  refine ⟨fun h i hi => ?_, requiredDimension_le_of_lt⟩
  unfold requiredDimension at h
  cases hmax : l.max? with
  | none =>
    rw [List.max?_eq_none_iff.1 hmax] at hi
    exact absurd hi List.not_mem_nil
  | some last =>
    obtain ⟨hlast, hle⟩ := List.max?_eq_some_iff.1 hmax
    have hword : last + 1 < UInt64.size := Nat.add_lt_of_lt_sub (hl last hlast)
    rw [hmax, Option.elim_some, Nat.mod_eq_of_lt hword] at h
    exact lt_of_le_of_lt (hle i hi) h

namespace Placed

variable {β : Type} [Placed β] {b : β} {n : ℕ}

/-- States with `n` components have all positions of the quantity. -/
def FitsIn (b : β) (n : ℕ) : Prop := ∀ i ∈ indices b, i < n

instance : Decidable (FitsIn b n) := inferInstanceAs (Decidable (∀ i ∈ indices b, i < n))

/-- **Some state has all positions of the quantity**: the last word is the largest dimension. -/
def Addressable (b : β) : Prop := FitsIn b (2 ^ 64 - 1)

instance : Decidable (Addressable b) := inferInstanceAs (Decidable (FitsIn b _))

/-- The blocks of a quantity have all its positions. -/
theorem forall_mem_blocks {P : ℕ → Prop} :
    (∀ l ∈ blocks b, ∀ i ∈ l, P i) ↔ ∀ i ∈ indices b, P i := by
  rw [← flatten_blocks b, List.forall_mem_flatten]

theorem requiredDimension_le_iff :
    requiredDimension b ≤ n ↔ ∀ l ∈ blocks b, EnergyStep.requiredDimension l ≤ n := by
  unfold requiredDimension
  rw [← List.forall_mem_map (f := EnergyStep.requiredDimension) (P := (· ≤ n))]
  cases hmax : ((blocks b).map EnergyStep.requiredDimension).max? with
  | none =>
    rw [List.max?_eq_none_iff.1 hmax]
    exact iff_of_true n.zero_le (List.forall_mem_nil _)
  | some most => exact List.max?_le_iff hmax

/-- **States that have the positions of a quantity are accepted for it.** -/
theorem FitsIn.requiredDimension_le (h : FitsIn b n) : requiredDimension b ≤ n :=
  requiredDimension_le_iff.2 fun l hl => requiredDimension_le_of_lt (forall_mem_blocks.2 h l hl)

/-- **For an addressable quantity no other states are accepted.** -/
theorem Addressable.requiredDimension_le (hb : Addressable b) : requiredDimension b ≤ n ↔ FitsIn b n := by
  have hblock : ∀ l ∈ blocks b, EnergyStep.requiredDimension l ≤ n ↔ ∀ i ∈ l, i < n :=
    fun l hl => EnergyStep.requiredDimension_le (forall_mem_blocks.2 hb l hl)
  rw [requiredDimension_le_iff, forall₂_congr hblock]
  exact forall_mem_blocks

theorem fits_iff : fits b n = true ↔ requiredDimension b ≤ n := decide_eq_true_iff

theorem Addressable.fits_iff (hb : Addressable b) : fits b n = true ↔ FitsIn b n :=
  Placed.fits_iff.trans hb.requiredDimension_le

end Placed

/-- A list of readings succeeds when each of them does. -/
theorem mapM_eq_ok {ε β γ : Type} {f : β → Except ε γ} {p : β → Prop} {g : β → γ}
    (hf : ∀ b c, f b = .ok c ↔ p b ∧ g b = c) {l : List β} :
    ∀ {cs : List γ}, l.mapM f = .ok cs ↔ (∀ b ∈ l, p b) ∧ l.map g = cs := by
  induction l with
  | nil => intro cs; simp [pure, Except.pure]
  | cons b l ih =>
    intro cs
    simp only [List.mapM_cons, bind_eq_ok, hf, ih, List.forall_mem_cons, List.map_cons]
    constructor
    · rintro ⟨c, ⟨h1, rfl⟩, cs', ⟨h2, rfl⟩, h3⟩
      exact ⟨⟨h1, h2⟩, Except.ok.inj h3⟩
    · rintro ⟨⟨h1, h2⟩, rfl⟩
      exact ⟨_, ⟨h1, rfl⟩, _, ⟨h2, rfl⟩, rfl⟩

section

variable [Scalar α] {x : Components α}

theorem Slot.read_eq_ok {s : Slot} {v : α} :
    s.read x = .ok v ↔ s.index < x.size ∧ x.component s.index = v := by
  unfold Slot.read Components.fetch
  rw [bind_eq_ok]
  constructor
  · rintro ⟨u, h1, h2⟩; exact ⟨checkIndex_eq_ok.1 h1, Except.ok.inj h2⟩
  · rintro ⟨h1, rfl⟩; exact ⟨(), checkIndex_eq_ok.2 h1, rfl⟩

theorem Slot.readPair_eq_ok {s : Slot} {x₀ : Components α} {p : α × α} :
    s.readPair x₀ x = .ok p ↔ (s.index < x₀.size ∧ s.index < x.size) ∧
      (x₀.component s.index, x.component s.index) = p := by
  unfold Slot.readPair
  simp only [bind_eq_ok, Slot.read_eq_ok]
  constructor
  · rintro ⟨a, ⟨h1, rfl⟩, b, ⟨h2, rfl⟩, h3⟩; exact ⟨⟨h1, h2⟩, Except.ok.inj h3⟩
  · rintro ⟨⟨h1, h2⟩, rfl⟩; exact ⟨_, ⟨h1, rfl⟩, _, ⟨h2, rfl⟩, rfl⟩

/-- What a stream carries, read without a check. -/
def Transfer.flow (x : Components α) (t : Transfer) : Flow α :=
  ⟨t, x.component t.rate.index, x.component t.velocity.index⟩

theorem Transfer.read_eq_ok {t : Transfer} {w : Flow α} :
    t.read x = .ok w ↔ (t.rate.index < x.size ∧ t.velocity.index < x.size) ∧ t.flow x = w := by
  unfold Transfer.read
  simp only [bind_eq_ok, Slot.read_eq_ok]
  constructor
  · rintro ⟨a, ⟨h1, rfl⟩, b, ⟨h2, rfl⟩, h3⟩; exact ⟨⟨h1, h2⟩, Except.ok.inj h3⟩
  · rintro ⟨⟨h1, h2⟩, rfl⟩; exact ⟨_, ⟨h1, rfl⟩, _, ⟨h2, rfl⟩, rfl⟩

theorem QuatSlots.read_eq_ok {s : QuatSlots} {q : Quat α} :
    s.read x = .ok q ↔ (∀ i ∈ Placed.indices s, i < x.size) ∧
      (⟨x.component s.w, x.component s.i, x.component s.j, x.component s.k⟩ : Quat α) = q := by
  unfold QuatSlots.read
  rw [bind_eq_ok]
  constructor
  · rintro ⟨u, h1, h2⟩; exact ⟨checkIndices_eq_ok.1 h1, Except.ok.inj h2⟩
  · rintro ⟨h1, rfl⟩; exact ⟨(), checkIndices_eq_ok.2 h1, rfl⟩

theorem Slots.read_eq_ok {n : ℕ} {s : Slots n} {v : Vector α n} :
    s.read x = .ok v ↔ (∀ i ∈ Placed.indices s, i < x.size) ∧ s.positions.map x.component = v := by
  unfold Slots.read
  rw [bind_eq_ok]
  constructor
  · rintro ⟨u, h1, h2⟩; exact ⟨checkIndices_eq_ok.1 h1, Except.ok.inj h2⟩
  · rintro ⟨h1, rfl⟩; exact ⟨(), checkIndices_eq_ok.2 h1, rfl⟩

namespace Components

theorem component_congr {y : Components α} {i : ℕ} (h : x[i]? = y[i]?) :
    x.component i = y.component i := by
  unfold component
  rw [Array.getD_eq_getD_getElem?, Array.getD_eq_getD_getElem?, h]

@[simp] theorem size_bump (x : Components α) (i : ℕ) (a : α) : (x.bump i a).size = x.size := by
  simp [bump]

theorem getElem?_bump {i k : ℕ} (h : k ≠ i) (a : α) : (x.bump k a)[i]? = x[i]? := by
  unfold bump
  rw [Array.getElem?_modify, if_neg h]

@[simp] theorem size_bumpAll (es : List (ℕ × α)) : ∀ x : Components α, (x.bumpAll es).size = x.size := by
  induction es with
  | nil => intro x; rfl
  | cons e es ih => intro x; exact (ih (x.bump e.1 e.2)).trans (size_bump ..)

theorem bumpAll_append (x : Components α) (es es' : List (ℕ × α)) :
    x.bumpAll (es ++ es') = (x.bumpAll es).bumpAll es' := List.foldl_append ..

/-- Where nothing is added the state stays as it was. -/
theorem getElem?_bumpAll (es : List (ℕ × α)) {i : ℕ} : ∀ {x : Components α}, i ∉ es.map Prod.fst →
    (x.bumpAll es)[i]? = x[i]? := by
  induction es with
  | nil => intro x _; rfl
  | cons e es ih =>
    intro x h
    rw [List.map_cons, List.mem_cons, not_or] at h
    have hrest : ((x.bump e.1 e.2).bumpAll es)[i]? = (x.bump e.1 e.2)[i]? := ih h.2
    exact hrest.trans (getElem?_bump (Ne.symm h.1) e.2)

/-- **Amounts are added** when all their positions exist. -/
theorem deposit_eq_ok {es : List (ℕ × α)} {y : Components α} :
    x.deposit es = .ok y ↔ (∀ e ∈ es, e.1 < x.size) ∧ x.bumpAll es = y := by
  unfold deposit
  rw [bind_eq_ok, ← List.forall_mem_map (f := Prod.fst) (P := (· < x.size))]
  constructor
  · rintro ⟨u, h1, h2⟩; exact ⟨checkIndices_eq_ok.1 h1, Except.ok.inj h2⟩
  · rintro ⟨h1, rfl⟩; exact ⟨(), checkIndices_eq_ok.2 h1, rfl⟩

theorem deposit_eq {es : List (ℕ × α)} (h : ∀ e ∈ es, e.1 < x.size) :
    x.deposit es = .ok (x.bumpAll es) := deposit_eq_ok.2 ⟨h, rfl⟩

end Components

theorem Slot.add_eq {s : Slot} (a : α) (h : s.index < x.size) :
    s.add x a = .ok (x.bumpAll [(s.index, a)]) :=
  Components.deposit_eq (List.forall_mem_singleton.2 h)

theorem Slots.add_eq {n : ℕ} {s : Slots n} (v : Vector α n)
    (h : ∀ i ∈ Placed.indices s, i < x.size) :
    s.add x v = .ok (x.bumpAll (s.positions.toList.zip v.toList)) :=
  Components.deposit_eq fun _ he => h _ (List.of_mem_zip he).1

theorem QuatSlots.add_eq {s : QuatSlots} (q : Quat α)
    (h : ∀ i ∈ Placed.indices s, i < x.size) : s.add x q = .ok (x.bumpAll (s.entries q)) :=
  Components.deposit_eq fun _ he => h _ (List.mem_map_of_mem (f := Prod.fst) he)

/-- **Additions that all have a place are all made.** -/
theorem deliver_eq : ∀ (as : List (Addition α)) (g : Components α),
    (∀ e ∈ as.flatten, e.1 < g.size) → deliver as g = (.ok (), g.bumpAll as.flatten) := by
  intro as
  induction as with
  | nil => intro g _; rfl
  | cons a as ih =>
    intro g h
    rw [List.flatten_cons] at h
    have ha : ∀ e ∈ a, e.1 < g.size := fun e he => h e (List.mem_append_left _ he)
    have has : ∀ e ∈ as.flatten, e.1 < (g.bumpAll a).size := fun e he => by
      rw [Components.size_bumpAll]; exact h e (List.mem_append_right _ he)
    unfold deliver
    rw [Components.deposit_eq ha]
    dsimp only
    rw [ih _ has, List.flatten_cons, Components.bumpAll_append]

end

variable [Exact α]

/-- **The sum of the amounts at position `i`.** -/
def total (entries : List (ℕ × α)) (i : ℕ) : α :=
  (entries.map fun e => if e.1 = i then e.2 else 0).sum

@[simp] theorem total_nil (i : ℕ) : total ([] : List (ℕ × α)) i = 0 := rfl

theorem total_cons (e : ℕ × α) (es : List (ℕ × α)) (i : ℕ) :
    total (e :: es) i = (if e.1 = i then e.2 else 0) + total es i := List.sum_cons

theorem total_append (ps qs : List (ℕ × α)) (i : ℕ) : total (ps ++ qs) i = total ps i + total qs i := by
  unfold total
  rw [List.map_append, List.sum_append]

theorem total_flatMap {β : Type} (l : List β) (f : β → List (ℕ × α)) (i : ℕ) :
    total (l.flatMap f) i = (l.map fun b => total (f b) i).sum := by
  induction l with
  | nil => rfl
  | cons b l ih => rw [List.flatMap_cons, total_append, ih, List.map_cons, List.sum_cons]

theorem total_of_notMem {es : List (ℕ × α)} {i : ℕ} (h : i ∉ es.map Prod.fst) : total es i = 0 := by
  refine List.sum_eq_zero fun a ha => ?_
  obtain ⟨e, he, rfl⟩ := List.mem_map.1 ha
  exact if_neg fun hi => h (List.mem_map.2 ⟨e, he, hi⟩)

/-- The one amount at a position that occurs once. -/
theorem total_of_mem {es : List (ℕ × α)} (hn : (es.map Prod.fst).Nodup) {i : ℕ} {a : α}
    (h : (i, a) ∈ es) : total es i = a := by
  induction es with
  | nil => exact absurd h List.not_mem_nil
  | cons e es ih =>
    rw [List.map_cons, List.nodup_cons] at hn
    rw [total_cons]
    rcases List.mem_cons.1 h with rfl | h
    · rw [if_pos rfl, total_of_notMem hn.1, add_zero]
    · have hne : e.1 ≠ i := fun he => hn.1 (he ▸ List.mem_map_of_mem h)
      rw [if_neg hne, zero_add, ih hn.2 h]

theorem total_perm {es es' : List (ℕ × α)} (h : es.Perm es') (i : ℕ) : total es i = total es' i :=
  (h.map _).sum_eq

namespace Components

theorem component_bump {x : Components α} {i : ℕ} (hi : i < x.size) (k : ℕ) (a : α) :
    (x.bump k a).component i = x.component i + if k = i then a else 0 := by
  rw [component_eq (by simpa using hi), component_eq hi]
  simp only [bump, Array.getElem_modify]
  split_ifs with h <;> simp

/-- **Every amount is added at its own position.** -/
theorem component_bumpAll (es : List (ℕ × α)) {i : ℕ} : ∀ {x : Components α}, i < x.size →
    (x.bumpAll es).component i = x.component i + total es i := by
  induction es with
  | nil => intro x _; simp [bumpAll]
  | cons e es ih =>
    intro x hi
    have h := ih (x := x.bump e.1 e.2) (by simpa using hi)
    show ((x.bump e.1 e.2).bumpAll es).component i = _
    rw [h, component_bump hi, add_assoc]
    rfl

/-- Amounts are added in any order. -/
theorem bumpAll_perm {es es' : List (ℕ × α)} (h : es.Perm es') (x : Components α) :
    x.bumpAll es = x.bumpAll es' := by
  refine ext_component (by simp) fun i hi => ?_
  have hx : i < x.size := by simpa using hi
  rw [component_bumpAll es hx, component_bumpAll es' hx, total_perm h]

/-- What is added at positions of its own is added to what stands there. -/
theorem component_bumpAll_of_mem {x : Components α} {es : List (ℕ × α)}
    (hn : (es.map Prod.fst).Nodup) (hfit : ∀ e ∈ es, e.1 < x.size) :
    ∀ e ∈ es, (x.bumpAll es).component e.1 = x.component e.1 + e.2 := by
  intro e he
  rw [component_bumpAll es (hfit e he), total_of_mem hn he]

/-- Where nothing stood, it is there afterwards. -/
theorem component_of_mem {x : Components α} {es : List (ℕ × α)} (hn : (es.map Prod.fst).Nodup)
    (hfit : ∀ e ∈ es, e.1 < x.size) (hzero : ∀ e ∈ es, x.component e.1 = 0) :
    ∀ e ∈ es, (x.bumpAll es).component e.1 = e.2 := by
  intro e he
  rw [component_bumpAll_of_mem hn hfit e he, hzero e he, zero_add]

end Components

end EnergyStep
