import EnergyStep.Proofs.Ends

/-!
# Evaluations that keep a record

Searches and covers are written over any monad that can fail. In one that has a record beside its
faults the same text runs as before, and the record says which evaluations it made. A failed one has
been recorded too.

* `Recording`: an evaluation with a record.
* `recorded`: a function that records the places at which it is evaluated.
* `Recording.ran_bind`: one evaluation after another.
-/

namespace EnergyStep

/-- An evaluation that keeps a record. -/
abbrev Recording (ρ α β : Type) := ExceptT (Fault α) (StateM ρ) β

/-- The function with the places of its evaluations recorded in order. -/
def recorded {α β : Type} (f : α → Except (Fault α) β) (x : α) : Recording (List α) α β := do
  modify (· ++ [x])
  liftExcept (f x)

namespace Recording

variable {ρ α β γ : Type} {r : Recording ρ α β} {a b : ρ}

/-- How an evaluation ends, and the record after it. -/
def ran (r : Recording ρ α β) (a : ρ) : Except (Fault α) β × ρ := r.run.run a

@[simp] theorem ran_pure (c : β) : ran (pure c : Recording ρ α β) a = (.ok c, a) := rfl

@[simp] theorem ran_throw (e : Fault α) : ran (throw e : Recording ρ α β) a = (.error e, a) := rfl

@[simp] theorem ran_get : ran (get : Recording ρ α ρ) a = (.ok a, a) := rfl

@[simp] theorem ran_modify (g : ρ → ρ) : ran (modify g : Recording ρ α PUnit) a = (.ok ⟨⟩, g a) := rfl

@[simp] theorem ran_liftExcept (s : Except (Fault α) β) :
    ran (liftExcept s : Recording ρ α β) a = (s, a) := by
  cases s <;> rfl

@[simp] theorem ran_recorded (f : α → Except (Fault α) β) (x : α) (places : List α) :
    ran (recorded f x) places = (f x, places ++ [x]) := by
  unfold recorded
  cases h : f x <;> rfl

/-- **One evaluation after another**: the second begins with the record of the first. -/
theorem ran_bind (r : Recording ρ α β) (f : β → Recording ρ α γ) (a : ρ) :
    ran (r >>= f) a = match r.ran a with
      | (.ok c, b) => (f c).ran b
      | (.error e, b) => (.error e, b) := by
  show (ExceptT.bindCont f (r.ran a).1).run (r.ran a).2 = _
  cases r.ran a with
  | mk s b => cases s <;> rfl

/-- **Evaluations in a row**, each of which leaves the record as it was. -/
theorem ran_mapM {g : β → Recording ρ α γ} {f : β → Except (Fault α) γ} {l : List β}
    (h : ∀ b ∈ l, ∀ c, f b = .ok c → (g b).ran a = (.ok c, a)) :
    ∀ {cs : List γ}, l.mapM f = .ok cs → (l.mapM g).ran a = (.ok cs, a) := by
  induction l with
  | nil => intro cs hcs; cases hcs; rfl
  | cons b l ih =>
    intro cs hcs
    obtain ⟨hb, hl⟩ := List.forall_mem_cons.1 h
    rw [List.mapM_cons] at hcs ⊢
    obtain ⟨c, hc, hcs⟩ := bind_eq_ok.1 hcs
    obtain ⟨cs', hcs', hcs⟩ := bind_eq_ok.1 hcs
    cases hcs
    rw [ran_bind, hb c hc]
    dsimp only
    rw [ran_bind, ih hl hcs']
    rfl

/-- **Evaluations in a row that do not see the record**, as long as it has a property that they keep. -/
theorem ran_mapM_fst {kept : ρ → Prop} {g : β → Recording ρ α γ} {f : β → Except (Fault α) γ}
    (h : ∀ b a, kept a → ∃ a', kept a' ∧ (g b).ran a = (f b, a')) (l : List β) :
    ∀ {a : ρ}, kept a → ((l.mapM g).ran a).1 = l.mapM f := by
  induction l with
  | nil => intro a _; rfl
  | cons b l ih =>
    intro a ha
    obtain ⟨a', ha', hb⟩ := h b a ha
    rw [List.mapM_cons, List.mapM_cons, ran_bind, hb]
    cases f b with
    | error e => rfl
    | ok c =>
      have hl := ih ha'
      show (ran ((l.mapM g) >>= fun cs => pure (c :: cs)) a').1 = (l.mapM f >>= fun cs => pure (c :: cs))
      rw [ran_bind, ← hl]
      cases (l.mapM g).ran a' with
      | mk s b => cases s <;> rfl

/-- What is observed has been recorded. -/
theorem ran_observing {s : Except (Fault α) β} (h : r.ran a = (s, b)) :
    ran (observing r) a = (.ok s, b) := by
  have hcatch : ∀ (m : Recording ρ α (Except (Fault α) β))
      (g : Fault α → Recording ρ α (Except (Fault α) β)),
      ran (tryCatch m g) a = match m.ran a with
        | (.ok c, b) => (.ok c, b)
        | (.error e, b) => (g e).ran b := by
    intro m g
    cases hm : m.ran a with
    | mk s b =>
      simp only [ran, ExceptT.run, StateT.run, tryCatch, tryCatchThe, MonadExceptOf.tryCatch,
        ExceptT.tryCatch, ExceptT.mk, bind, StateT.bind]
      rw [show m a = (s, b) from hm]
      cases s <;> rfl
  unfold observing
  rw [hcatch, ran_bind, h]
  cases s <;> rfl

end Recording
end EnergyStep
