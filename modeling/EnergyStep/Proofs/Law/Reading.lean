import EnergyStep.Proofs.Store.Access
import EnergyStep.Law.Term

/-!
# What a law reads

Whatever a law reads is at one of its positions, so a reading that fails names one that the states lack; a
law that has read everything has all its positions in the states; and what it then adds to a gradient is at
its positions again. None of this depends on the arithmetic.

* `Fits`, `Term.FitsIn`: states that have the positions of slots, of a term.
* `Refuses`: the faults of states that lack a position.
* `contribution_ends`, for each law: how its contribution ends.
* `Term.at_of_contribution`: a term that gives a contribution has its positions, and gives it there.
* `Term.evaluate_of_contribution`: what it makes of a gradient.
-/

namespace EnergyStep

/-- States with `n` components have the positions of all slots. -/
def Fits (n : ℕ) (slots : List Slot) : Prop := ∀ s ∈ slots, s.index < n

theorem fits_cons {n : ℕ} {s : Slot} {l : List Slot} : Fits n (s :: l) ↔ s.index < n ∧ Fits n l :=
  List.forall_mem_cons

theorem fits_nil {n : ℕ} : Fits n [] := fun _ h => absurd h List.not_mem_nil

theorem fits_append {n : ℕ} {l l' : List Slot} : Fits n (l ++ l') ↔ Fits n l ∧ Fits n l' :=
  List.forall_mem_append

theorem fits_transfers {n : ℕ} {l : List Transfer} :
    Fits n (l.flatMap Transfer.slots) ↔ ∀ t ∈ l, t.rate.index < n ∧ t.velocity.index < n := by
  simp only [Fits, List.mem_flatMap, Transfer.slots]
  constructor
  · intro h t ht
    exact ⟨h _ ⟨t, ht, by simp⟩, h _ ⟨t, ht, by simp⟩⟩
  · rintro h s ⟨t, ht, hs⟩
    rcases List.mem_pair.1 hs with rfl | rfl
    · exact (h t ht).1
    · exact (h t ht).2

theorem Fits.of_perm {n : ℕ} {l l' : List Slot} (h : Fits n l) (hp : l.Perm l') : Fits n l' :=
  fun s hs => h s (hp.mem_iff.2 hs)

theorem fits_rates {n : ℕ} {l : List Transfer} (h : Fits n (l.flatMap Transfer.slots)) :
    Fits n (l.map Transfer.rate) :=
  List.forall_mem_map.2 fun _ ht => (fits_transfers.1 h _ ht).1

theorem Transfer.rate_mem_slots {l : List Transfer} {t : Transfer} (ht : t ∈ l) :
    t.rate ∈ l.flatMap Transfer.slots := List.mem_flatMap.2 ⟨t, ht, by simp [slots]⟩

theorem Transfer.velocity_mem_slots {l : List Transfer} {t : Transfer} (ht : t ∈ l) :
    t.velocity ∈ l.flatMap Transfer.slots := List.mem_flatMap.2 ⟨t, ht, by simp [slots]⟩

variable {α : Type} {fails : Fault α → Prop} {is : List ℕ}

/-- **States with `n` components that lack one of the positions** are refused with a fault among `fails`. -/
def Refuses (fails : Fault α → Prop) (is : List ℕ) (n : ℕ) : Prop :=
  ∀ i ∈ is, n ≤ i → fails (.index i n)

/-- All amounts of the contribution are at the given positions. -/
def Contribution.At (is : List ℕ) (c : Contribution α) : Prop :=
  ∀ a ∈ c.additions, ∀ e ∈ a, e.1 ∈ is

/-- The stream has been read at the given positions. -/
def Flow.At (is : List ℕ) (w : Flow α) : Prop :=
  w.transfer.rate.index ∈ is ∧ w.transfer.velocity.index ∈ is

theorem Slot.forall_mem_addition {s : Slot} {amount : α} :
    (∀ e ∈ s.addition amount, e.1 ∈ is) ↔ s.index ∈ is := List.forall_mem_singleton

/-- Readings in a row end as each of them does. -/
theorem mapM_ends {ε β γ : Type} {fails : ε → Prop} {p : β → Prop} {q : γ → Prop}
    {f : β → Except ε γ} {l : List β} (h : ∀ b ∈ l, Ends fails (fun c => p b ∧ q c) (f b)) :
    Ends fails (fun cs => (∀ b ∈ l, p b) ∧ ∀ c ∈ cs, q c) (l.mapM f) := by
  induction l with
  | nil => exact ⟨fun _ h => absurd h List.not_mem_nil, fun _ h => absurd h List.not_mem_nil⟩
  | cons b l ih =>
    obtain ⟨hb, hl⟩ := List.forall_mem_cons.1 h
    rw [List.mapM_cons]
    refine hb.bind fun c hc => (ih hl).bind fun cs hcs => ?_
    exact ⟨List.forall_mem_cons.2 ⟨hc.1, hcs.1⟩, List.forall_mem_cons.2 ⟨hc.2, hcs.2⟩⟩

theorem checkIndex_ends {n i : ℕ} (h : Refuses fails is n) (hi : i ∈ is) :
    Ends fails (fun _ => i < n) (checkIndex n i) := by
  unfold checkIndex
  split_ifs with hlt
  · exact hlt
  · exact h i hi (not_lt.1 hlt)

theorem checkIndices_ends {n : ℕ} (h : Refuses fails is n) : ∀ {l : List ℕ}, (∀ i ∈ l, i ∈ is) →
    Ends fails (fun _ => ∀ i ∈ l, i < n) (checkIndices n l) := by
  intro l
  induction l with
  | nil => intro _; exact fun _ h => absurd h List.not_mem_nil
  | cons i l ih =>
    intro hmem
    obtain ⟨hi, hl⟩ := List.forall_mem_cons.1 hmem
    exact (checkIndex_ends h hi).bind fun _ hlt => (ih hl).mono fun _ hrest =>
      List.forall_mem_cons.2 ⟨hlt, hrest⟩

variable [Scalar α] {x₀ x : Components α} {dt : α} {scales : Scales α}

theorem Slot.read_ends {s : Slot} (h : Refuses fails is x.size) (hs : s.index ∈ is) :
    Ends fails (fun _ => s.index < x.size) (s.read x) :=
  (checkIndex_ends h hs).bind fun _ h => h

theorem Slot.readPair_ends {s : Slot} (h₀ : Refuses fails is x₀.size) (h : Refuses fails is x.size)
    (hs : s.index ∈ is) : Ends fails (fun _ => s.index < x.size) (s.readPair x₀ x) :=
  (Slot.read_ends h₀ hs).bind fun _ _ => (Slot.read_ends h hs).bind fun _ h => h

theorem Slot.mapM_read_ends {l : List Slot} (h : Refuses fails is x.size)
    (hl : ∀ s ∈ l, s.index ∈ is) : Ends fails (fun _ => Fits x.size l) (l.mapM (·.read x)) := by
  have hread : ∀ s ∈ l, Ends fails (fun _ => s.index < x.size ∧ True) (s.read x) :=
    fun s hs => (Slot.read_ends h (hl s hs)).mono fun _ hlt => ⟨hlt, trivial⟩
  exact (mapM_ends hread).mono fun _ hlt => hlt.1

theorem Transfer.mapM_read_ends {ts : List Transfer} (h : Refuses fails is x.size)
    (hts : ∀ s ∈ ts.flatMap Transfer.slots, s.index ∈ is) :
    Ends fails (fun ws => Fits x.size (ts.flatMap Transfer.slots) ∧ ∀ w ∈ ws, w.At is)
      (ts.mapM (·.read x)) := by
  have hread : ∀ t ∈ ts, Ends fails
      (fun w => (t.rate.index < x.size ∧ t.velocity.index < x.size) ∧ w.At is) (t.read x) := by
    intro t ht
    have hrate := hts _ (Transfer.rate_mem_slots ht)
    have hvelocity := hts _ (Transfer.velocity_mem_slots ht)
    exact (Slot.read_ends h hrate).bind fun _ h1 => (Slot.read_ends h hvelocity).bind fun _ h2 =>
      ⟨⟨h1, h2⟩, hrate, hvelocity⟩
  exact (mapM_ends hread).mono fun ws h => ⟨fits_transfers.2 h.1, h.2⟩

namespace MassBalance

variable {b : MassBalance}

theorem netRate_ends (hb : ∀ s ∈ b.slots, s.index ∈ is) (h : Refuses fails is x.size) :
    Ends fails (fun _ => Fits x.size (b.inflows ++ b.outflows)) (b.netRate x) := by
  simp only [slots, List.forall_mem_cons, List.forall_mem_append] at hb
  obtain ⟨-, hi, ho⟩ := hb
  exact (Slot.mapM_read_ends h hi).bind fun _ h1 => (Slot.mapM_read_ends h ho).bind fun _ h2 =>
    fits_append.2 ⟨h1, h2⟩

/-- How the contribution of the law ends. -/
theorem contribution_ends (hb : ∀ s ∈ b.slots, s.index ∈ is) (h₀ : Refuses fails is x₀.size)
    (h : Refuses fails is x.size) : Ends fails (fun c => Fits x.size b.slots ∧ c.At is)
      (b.contribution scales x₀ x dt) := by
  have hviolation : Ends fails (fun _ => Fits x.size b.slots) (b.violation x₀ x dt) := by
    refine (Slot.readPair_ends h₀ h (hb _ List.mem_cons_self)).bind fun _ hm => ?_
    exact (netRate_ends hb h₀).bind fun _ _ => (netRate_ends hb h).bind fun _ hr =>
      fits_cons.2 ⟨hm, hr⟩
  refine hviolation.bind fun _ hfit => ⟨hfit, ?_⟩
  simp only [slots, List.forall_mem_cons, List.forall_mem_append] at hb
  simp only [Contribution.At, additions, List.forall_mem_cons, List.forall_mem_append,
    List.forall_mem_map, Slot.forall_mem_addition]
  exact hb

end MassBalance

namespace MomentumBalance

variable {b : MomentumBalance}

theorem fits_slots {n : ℕ} : Fits n b.slots ↔ b.mass.index < n ∧ b.velocity.index < n ∧
    Fits n (b.forces ++ b.inflows.flatMap Transfer.slots ++ b.outflows.flatMap Transfer.slots) := by
  simp only [slots, List.cons_append, List.nil_append, fits_cons, List.append_assoc]

theorem rate_ends (hb : ∀ s ∈ b.slots, s.index ∈ is) (h : Refuses fails is x.size) : Ends fails
    (fun _ => Fits x.size (b.forces ++ b.inflows.flatMap Transfer.slots ++
      b.outflows.flatMap Transfer.slots)) (b.rate x) := by
  simp only [slots, List.forall_mem_append] at hb
  obtain ⟨⟨⟨-, hf⟩, hi⟩, ho⟩ := hb
  refine (Transfer.mapM_read_ends h hi).bind fun _ h1 => ?_
  refine (Transfer.mapM_read_ends h ho).bind fun _ h2 => ?_
  exact (Slot.mapM_read_ends h hf).bind fun _ h3 => fits_append.2 ⟨fits_append.2 ⟨h3, h1.1⟩, h2.1⟩

/-- How the contribution of the law ends. -/
theorem contribution_ends (hb : ∀ s ∈ b.slots, s.index ∈ is) (h₀ : Refuses fails is x₀.size)
    (h : Refuses fails is x.size) : Ends fails (fun c => Fits x.size b.slots ∧ c.At is)
      (b.contribution scales x₀ x dt) := by
  have hrate₀ : Ends fails _ (b.rate x₀) := rate_ends hb h₀
  have hrate : Ends fails _ (b.rate x) := rate_ends hb h
  simp only [slots, List.forall_mem_append, List.forall_mem_cons] at hb
  obtain ⟨⟨⟨⟨hmass, hvelocity, -⟩, hforces⟩, hinflows⟩, houtflows⟩ := hb
  refine (Slot.readPair_ends h₀ h hmass).bind fun _ hm => ?_
  refine (Slot.readPair_ends h₀ h hvelocity).bind fun _ hv => ?_
  refine hrate₀.bind fun _ _ => hrate.bind fun _ hr => ?_
  refine (Transfer.mapM_read_ends h hinflows).bind fun _ hi => ?_
  refine (Transfer.mapM_read_ends h houtflows).bind fun _ ho => ⟨fits_slots.2 ⟨hm, hv, hr⟩, ?_⟩
  simp only [Contribution.At, additions, List.forall_mem_cons, List.forall_mem_append,
    List.forall_mem_map, List.forall_mem_flatMap, Slot.forall_mem_addition, List.not_mem_nil,
    false_imp_iff, implies_true, and_true]
  exact ⟨⟨⟨⟨hmass, hvelocity⟩, hforces⟩, hi.2⟩, ho.2⟩

end MomentumBalance

namespace NewtonBalance

variable {b : NewtonBalance}

theorem fits_slots {n : ℕ} : Fits n b.slots ↔ b.mass.index < n ∧ b.velocity.index < n ∧
    b.acceleration.index < n ∧ Fits n b.forces ∧ Fits n (b.inflows.flatMap Transfer.slots) ∧
      Fits n (b.outflows.flatMap Transfer.slots) := by
  simp only [slots, List.cons_append, List.nil_append, fits_cons, List.append_assoc, fits_append]

/-- How the contribution of the law ends. -/
theorem contribution_ends (hb : ∀ s ∈ b.slots, s.index ∈ is) (h : Refuses fails is x.size) :
    Ends fails (fun c => Fits x.size b.slots ∧ c.At is) (b.contribution scales x) := by
  simp only [slots, List.forall_mem_append, List.forall_mem_cons] at hb
  obtain ⟨⟨⟨⟨hmass, hvelocity, hacceleration, -⟩, hforces⟩, hinflows⟩, houtflows⟩ := hb
  refine (Slot.read_ends h hmass).bind fun _ hm => (Slot.read_ends h hvelocity).bind fun _ hv => ?_
  refine (Slot.read_ends h hacceleration).bind fun _ ha => ?_
  refine (Slot.mapM_read_ends h hforces).bind fun _ hf => ?_
  refine (Transfer.mapM_read_ends h hinflows).bind fun _ hi => ?_
  refine (Transfer.mapM_read_ends h houtflows).bind fun _ ho =>
    ⟨fits_slots.2 ⟨hm, hv, ha, hf, hi.1, ho.1⟩, ?_⟩
  simp only [Contribution.At, additions, List.forall_mem_cons, List.forall_mem_append,
    List.forall_mem_map, List.forall_mem_flatMap, Slot.forall_mem_addition, List.not_mem_nil,
    false_imp_iff, implies_true, and_true]
  exact ⟨⟨⟨⟨hmass, hacceleration⟩, hforces⟩, fun w hw => ⟨(hi.2 w hw).1, (hi.2 w hw).2, hvelocity⟩⟩,
    fun w hw => ⟨(ho.2 w hw).1, (ho.2 w hw).2, hvelocity⟩⟩

end NewtonBalance

/-- How the contribution of the law ends. -/
theorem RateBalance.contribution_ends {b : RateBalance} (hb : ∀ s ∈ b.slots, s.index ∈ is)
    (energyScale scale : α) (h₀ : Refuses fails is x₀.size) (h : Refuses fails is x.size) :
    Ends fails (fun c => Fits x.size b.slots ∧ c.At is)
      (b.contribution energyScale scale x₀ x dt) := by
  simp only [slots, List.forall_mem_cons] at hb
  obtain ⟨hquantity, hrate, -⟩ := hb
  have hviolation : Ends fails (fun _ => b.quantity.index < x.size ∧ b.rate.index < x.size)
      (b.violation x₀ x dt) :=
    (Slot.readPair_ends h₀ h hquantity).bind fun _ hq =>
      (Slot.readPair_ends h₀ h hrate).bind fun _ hr => ⟨hq, hr⟩
  refine hviolation.bind fun _ hlt => ⟨fits_cons.2 ⟨hlt.1, fits_cons.2 ⟨hlt.2, fits_nil⟩⟩, ?_⟩
  simp only [Contribution.At, List.forall_mem_cons, Slot.forall_mem_addition]
  exact ⟨hquantity, hrate, nofun⟩

/-- How the contribution of the law ends. -/
theorem VersorConstraint.contribution_ends {c : VersorConstraint}
    (h : Refuses fails (Placed.indices c.quat) x.size) :
    Ends fails (fun r => (∀ i ∈ Placed.indices c.quat, i < x.size) ∧ r.At (Placed.indices c.quat))
      (c.contribution scales x) := by
  have hread : Ends fails (fun _ => ∀ i ∈ Placed.indices c.quat, i < x.size) (c.quat.read x) :=
    (checkIndices_ends h fun _ hi => hi).bind fun _ hlt => hlt
  exact hread.bind fun q hlt => ⟨hlt, List.forall_mem_singleton.2 fun e he =>
    List.mem_map_of_mem (f := Prod.fst) he⟩

/-- How the contribution of the law ends. -/
theorem FieldForce.contribution_ends {c : FieldForce α} (hc : ∀ s ∈ c.slots, s.index ∈ is)
    (h : Refuses fails is x.size) :
    Ends fails (fun r => Fits x.size c.slots ∧ r.At is) (c.contribution scales x) := by
  simp only [slots, List.forall_mem_cons] at hc
  obtain ⟨hforce, hmass, -⟩ := hc
  refine (Slot.read_ends h hforce).bind fun _ hf => (Slot.read_ends h hmass).bind fun _ hm =>
    ⟨fits_cons.2 ⟨hf, fits_cons.2 ⟨hm, fits_nil⟩⟩, ?_⟩
  simp only [Contribution.At, List.forall_mem_cons, Slot.forall_mem_addition]
  exact ⟨hforce, hmass, nofun⟩

namespace Term

/-- States with `n` components have all positions of the term. -/
def FitsIn (t : Term α) (n : ℕ) : Prop := ∀ i ∈ t.law.indices, i < n

variable {t : Term α}

omit [Scalar α] in
/-- States that have the positions have the dimension that the term requires. -/
theorem FitsIn.requiredDimension_le {n : ℕ} (h : t.FitsIn n) : t.requiredDimension ≤ n :=
  Placed.FitsIn.requiredDimension_le h

omit [Scalar α] in
/-- **The required dimension of an addressable term** is that of the states that have its positions. -/
theorem requiredDimension_le_iff {n : ℕ} (ht : Placed.Addressable t) :
    t.requiredDimension ≤ n ↔ t.FitsIn n := ht.requiredDimension_le

theorem forall_indices {n : ℕ} {l : List Slot} : (∀ i ∈ l.map Slot.index, i < n) ↔ Fits n l :=
  List.forall_mem_map

/-- **How a contribution ends**: the states have all positions of the term, and it is at them, or the states
lack one of them. -/
theorem contribution_ends (h₀ : Refuses fails t.law.indices x₀.size)
    (h : Refuses fails t.law.indices x.size) :
    Ends fails (fun c => t.FitsIn x.size ∧ c.At t.law.indices) (t.contribution x₀ x dt) := by
  obtain ⟨law, scales⟩ := t
  have hslots : ∀ {l : List Slot} {r : Except (Fault α) (Contribution α)},
      Ends fails (fun c => Fits x.size l ∧ c.At (l.map Slot.index)) r →
      Ends fails (fun c => (∀ i ∈ l.map Slot.index, i < x.size) ∧ c.At (l.map Slot.index)) r :=
    fun h => h.mono fun _ hc => ⟨forall_indices.2 hc.1, hc.2⟩
  cases law with
  | mass b => exact hslots (MassBalance.contribution_ends (fun _ => List.mem_map_of_mem) h₀ h)
  | momentum b => exact hslots (MomentumBalance.contribution_ends (fun _ => List.mem_map_of_mem) h₀ h)
  | newton b => exact hslots (NewtonBalance.contribution_ends (fun _ => List.mem_map_of_mem) h)
  | position b => exact hslots (RateBalance.contribution_ends (fun _ => List.mem_map_of_mem) _ _ h₀ h)
  | velocity b => exact hslots (RateBalance.contribution_ends (fun _ => List.mem_map_of_mem) _ _ h₀ h)
  | versor c => exact VersorConstraint.contribution_ends h
  | field c => exact hslots (FieldForce.contribution_ends (fun _ => List.mem_map_of_mem) h)

/-- Contributions are at the positions of their terms, also over states of different lengths. -/
theorem at_of_contribution {c : Contribution α} (h : t.contribution x₀ x dt = .ok c) :
    t.FitsIn x.size ∧ c.At t.law.indices := by
  have hends : Ends (fun _ => True) (fun c => t.FitsIn x.size ∧ c.At t.law.indices)
      (t.contribution x₀ x dt) := contribution_ends (fun _ _ _ => trivial) fun _ _ _ => trivial
  exact hends.of_ok h

/-- **A term that gives a contribution** makes all its additions to a gradient that has its positions. -/
theorem evaluate_of_contribution {c : Contribution α} (h : t.contribution x₀ x dt = .ok c)
    {g : Components α} (hg : t.FitsIn g.size) :
    t.evaluate x₀ x dt g = (.ok c.energy, g.bumpAll c.additions.flatten) := by
  have hin : ∀ e ∈ c.additions.flatten, e.1 < g.size := by
    intro e he
    obtain ⟨a, ha, hea⟩ := List.mem_flatten.1 he
    exact hg _ ((at_of_contribution h).2 a ha e hea)
  unfold evaluate
  rw [h]
  dsimp only
  rw [deliver_eq _ _ hin]
  rfl

end Term
end EnergyStep
