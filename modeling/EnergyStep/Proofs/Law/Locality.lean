import EnergyStep.Proofs.Law.Reading

/-!
# What a term sees of the states

A term reads at its positions and nowhere else, so over states that are the same there it gives the same
contribution, in any arithmetic and whatever else the states hold. Only a fault can be another one, because
it names the length of the state.

* `Repeats`: a result of one evaluation is also that of another; `Repeats.bind`: so in a row.
* `Agree`: states that are the same at some positions.
* `contribution_repeats`, for each law: its contribution over states that agree.
* `Term.contribution_repeats`: terms see only what is at their positions.
-/

namespace EnergyStep

/-- **A result of the first evaluation is also that of the second.** -/
def Repeats {ε β : Type} (r s : Except ε β) : Prop := ∀ b, r = .ok b → s = .ok b

namespace Repeats

variable {ε β γ : Type}

theorem refl (r : Except ε β) : Repeats r r := fun _ h => h

/-- **One evaluation after another.** -/
theorem bind {r s : Except ε β} {f g : β → Except ε γ} (h : Repeats r s)
    (h' : ∀ b, Repeats (f b) (g b)) : Repeats (r >>= f) (s >>= g) := by
  intro c hc
  obtain ⟨b, hb, hc⟩ := bind_eq_ok.1 hc
  exact bind_eq_ok.2 ⟨b, h b hb, h' b c hc⟩

theorem mapM {f g : β → Except ε γ} : ∀ {l : List β}, (∀ b ∈ l, Repeats (f b) (g b)) →
    Repeats (l.mapM f) (l.mapM g) := by
  intro l
  induction l with
  | nil => intro _; exact refl _
  | cons b l ih =>
    intro h
    obtain ⟨hb, hl⟩ := List.forall_mem_cons.1 h
    rw [List.mapM_cons, List.mapM_cons]
    exact hb.bind fun _ => (ih hl).bind fun _ => refl _

theorem foldlM {f g : γ → β → Except ε γ} : ∀ {l : List β}, (∀ b ∈ l, ∀ c, Repeats (f c b) (g c b)) →
    ∀ c, Repeats (l.foldlM f c) (l.foldlM g c) := by
  intro l
  induction l with
  | nil => intro _ _; exact refl _
  | cons b l ih =>
    intro h c
    obtain ⟨hb, hl⟩ := List.forall_mem_cons.1 h
    rw [List.foldlM_cons, List.foldlM_cons]
    exact (hb c).bind fun _ => ih hl _

end Repeats

variable {α : Type}

/-- **The states are the same at the given positions**, or both have none of them. -/
def Agree (is : List ℕ) (x y : Components α) : Prop := ∀ i ∈ is, y[i]? = x[i]?

namespace Agree

variable {is : List ℕ} {x y : Components α}

theorem lt_size (h : Agree is x y) {i : ℕ} (hi : i ∈ is) (hlt : i < x.size) : i < y.size := by
  have hy : y[i]? = some x[i] := (h i hi).trans (Array.getElem?_eq_getElem hlt)
  exact (Array.getElem?_eq_some_iff.1 hy).1

theorem component_eq [Scalar α] (h : Agree is x y) {i : ℕ} (hi : i ∈ is) :
    y.component i = x.component i := Components.component_congr (h i hi)

end Agree

variable [Scalar α] {is : List ℕ} {x₀ y₀ x y : Components α} {dt : α} {scales : Scales α}

theorem Slot.read_repeats {s : Slot} (h : Agree is x y) (hs : s.index ∈ is) :
    Repeats (s.read x) (s.read y) := by
  intro v hv
  obtain ⟨hlt, rfl⟩ := Slot.read_eq_ok.1 hv
  exact Slot.read_eq_ok.2 ⟨h.lt_size hs hlt, h.component_eq hs⟩

theorem Slot.readPair_repeats {s : Slot} (h₀ : Agree is x₀ y₀) (h : Agree is x y) (hs : s.index ∈ is) :
    Repeats (s.readPair x₀ x) (s.readPair y₀ y) :=
  (Slot.read_repeats h₀ hs).bind fun _ => (Slot.read_repeats h hs).bind fun _ => .refl _

theorem Slot.mapM_read_repeats {l : List Slot} (h : Agree is x y) (hl : ∀ s ∈ l, s.index ∈ is) :
    Repeats (l.mapM (·.read x)) (l.mapM (·.read y)) :=
  .mapM fun s hs => Slot.read_repeats h (hl s hs)

theorem Transfer.mapM_read_repeats {ts : List Transfer} (h : Agree is x y)
    (hts : ∀ s ∈ ts.flatMap Transfer.slots, s.index ∈ is) :
    Repeats (ts.mapM (·.read x)) (ts.mapM (·.read y)) := by
  refine .mapM fun t ht => ?_
  refine (Slot.read_repeats h (hts _ (Transfer.rate_mem_slots ht))).bind fun _ => ?_
  exact (Slot.read_repeats h (hts _ (Transfer.velocity_mem_slots ht))).bind fun _ => .refl _

theorem QuatSlots.read_repeats {s : QuatSlots} (h : Agree (Placed.indices s) x y) :
    Repeats (s.read x) (s.read y) := by
  intro q hq
  obtain ⟨hlt, rfl⟩ := QuatSlots.read_eq_ok.1 hq
  have hw : y.component s.w = x.component s.w := h.component_eq (by simp [Placed.indices])
  have hi : y.component s.i = x.component s.i := h.component_eq (by simp [Placed.indices])
  have hj : y.component s.j = x.component s.j := h.component_eq (by simp [Placed.indices])
  have hk : y.component s.k = x.component s.k := h.component_eq (by simp [Placed.indices])
  refine QuatSlots.read_eq_ok.2 ⟨fun i hi => h.lt_size hi (hlt i hi), ?_⟩
  rw [hw, hi, hj, hk]

namespace MassBalance

variable {b : MassBalance}

theorem netRate_repeats (hb : ∀ s ∈ b.slots, s.index ∈ is) (h : Agree is x y) :
    Repeats (b.netRate x) (b.netRate y) := by
  simp only [slots, List.forall_mem_cons, List.forall_mem_append] at hb
  obtain ⟨-, hi, ho⟩ := hb
  exact (Slot.mapM_read_repeats h hi).bind fun _ => (Slot.mapM_read_repeats h ho).bind fun _ => .refl _

theorem contribution_repeats (hb : ∀ s ∈ b.slots, s.index ∈ is) (h₀ : Agree is x₀ y₀)
    (h : Agree is x y) :
    Repeats (b.contribution scales x₀ x dt) (b.contribution scales y₀ y dt) := by
  have hviolation : Repeats (b.violation x₀ x dt) (b.violation y₀ y dt) := by
    refine (Slot.readPair_repeats h₀ h (hb _ List.mem_cons_self)).bind fun _ => ?_
    exact (netRate_repeats hb h₀).bind fun _ => (netRate_repeats hb h).bind fun _ => .refl _
  exact hviolation.bind fun _ => .refl _

end MassBalance

namespace MomentumBalance

variable {b : MomentumBalance}

theorem rate_repeats (hb : ∀ s ∈ b.slots, s.index ∈ is) (h : Agree is x y) :
    Repeats (b.rate x) (b.rate y) := by
  simp only [slots, List.forall_mem_append] at hb
  obtain ⟨⟨⟨-, hf⟩, hi⟩, ho⟩ := hb
  refine (Transfer.mapM_read_repeats h hi).bind fun _ => ?_
  refine (Transfer.mapM_read_repeats h ho).bind fun _ => ?_
  exact (Slot.mapM_read_repeats h hf).bind fun _ => .refl _

theorem contribution_repeats (hb : ∀ s ∈ b.slots, s.index ∈ is) (h₀ : Agree is x₀ y₀)
    (h : Agree is x y) :
    Repeats (b.contribution scales x₀ x dt) (b.contribution scales y₀ y dt) := by
  have hrate₀ := rate_repeats hb h₀
  have hrate := rate_repeats hb h
  simp only [slots, List.forall_mem_append, List.forall_mem_cons] at hb
  obtain ⟨⟨⟨⟨hmass, hvelocity, -⟩, -⟩, hinflows⟩, houtflows⟩ := hb
  refine (Slot.readPair_repeats h₀ h hmass).bind fun _ => ?_
  refine (Slot.readPair_repeats h₀ h hvelocity).bind fun _ => hrate₀.bind fun _ => hrate.bind fun _ => ?_
  refine (Transfer.mapM_read_repeats h hinflows).bind fun _ => ?_
  exact (Transfer.mapM_read_repeats h houtflows).bind fun _ => .refl _

end MomentumBalance

theorem NewtonBalance.contribution_repeats {b : NewtonBalance} (hb : ∀ s ∈ b.slots, s.index ∈ is)
    (h : Agree is x y) : Repeats (b.contribution scales x) (b.contribution scales y) := by
  simp only [slots, List.forall_mem_append, List.forall_mem_cons] at hb
  obtain ⟨⟨⟨⟨hmass, hvelocity, hacceleration, -⟩, hforces⟩, hinflows⟩, houtflows⟩ := hb
  refine (Slot.read_repeats h hmass).bind fun _ => (Slot.read_repeats h hvelocity).bind fun _ => ?_
  refine (Slot.read_repeats h hacceleration).bind fun _ => ?_
  refine (Slot.mapM_read_repeats h hforces).bind fun _ => ?_
  refine (Transfer.mapM_read_repeats h hinflows).bind fun _ => ?_
  exact (Transfer.mapM_read_repeats h houtflows).bind fun _ => .refl _

theorem RateBalance.contribution_repeats {b : RateBalance} (hb : ∀ s ∈ b.slots, s.index ∈ is)
    (energyScale scale : α) (h₀ : Agree is x₀ y₀) (h : Agree is x y) :
    Repeats (b.contribution energyScale scale x₀ x dt) (b.contribution energyScale scale y₀ y dt) := by
  simp only [slots, List.forall_mem_cons] at hb
  obtain ⟨hquantity, hrate, -⟩ := hb
  have hviolation : Repeats (b.violation x₀ x dt) (b.violation y₀ y dt) :=
    (Slot.readPair_repeats h₀ h hquantity).bind fun _ =>
      (Slot.readPair_repeats h₀ h hrate).bind fun _ => .refl _
  exact hviolation.bind fun _ => .refl _

theorem VersorConstraint.contribution_repeats {c : VersorConstraint}
    (h : Agree (Placed.indices c.quat) x y) :
    Repeats (c.contribution scales x) (c.contribution scales y) :=
  (QuatSlots.read_repeats h).bind fun _ => .refl _

theorem FieldForce.contribution_repeats {c : FieldForce α} (hc : ∀ s ∈ c.slots, s.index ∈ is)
    (h : Agree is x y) : Repeats (c.contribution scales x) (c.contribution scales y) := by
  simp only [slots, List.forall_mem_cons] at hc
  obtain ⟨hforce, hmass, -⟩ := hc
  exact (Slot.read_repeats h hforce).bind fun _ => (Slot.read_repeats h hmass).bind fun _ => .refl _

namespace Term

variable {t : Term α}

/-- **A term sees only what is at its positions.** -/
theorem contribution_repeats (h₀ : Agree t.law.indices x₀ y₀) (h : Agree t.law.indices x y) :
    Repeats (t.contribution x₀ x dt) (t.contribution y₀ y dt) := by
  obtain ⟨law, scales⟩ := t
  cases law with
  | mass b => exact MassBalance.contribution_repeats (fun _ => List.mem_map_of_mem) h₀ h
  | momentum b => exact MomentumBalance.contribution_repeats (fun _ => List.mem_map_of_mem) h₀ h
  | newton b => exact NewtonBalance.contribution_repeats (fun _ => List.mem_map_of_mem) h
  | position b => exact RateBalance.contribution_repeats (fun _ => List.mem_map_of_mem) _ _ h₀ h
  | velocity b => exact RateBalance.contribution_repeats (fun _ => List.mem_map_of_mem) _ _ h₀ h
  | versor c => exact VersorConstraint.contribution_repeats h
  | field c => exact FieldForce.contribution_repeats (fun _ => List.mem_map_of_mem) h

end Term
end EnergyStep
