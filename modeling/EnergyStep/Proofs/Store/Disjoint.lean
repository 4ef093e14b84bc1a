import EnergyStep.Proofs.Recording
import EnergyStep.Proofs.Store.Access
import EnergyStep.Store.Layout

/-!
# Disjoint positions

Positions that were not handed out by a layout are looked through in order. The first one that does not
exist, or that occurred before, ends the search, so of several mistakes the fault tells the first. The
positions seen so far can be kept as flags, one for each component of the state, and the sets can be gone
through one after the other; that is the same search, because the flags that are up are those of the
positions seen so far.

* `occupy_eq_ok`, `checkDisjoint_eq_ok`: positions that exist and of which none occurs twice.
* `Refused`, `FirstRefused`: what is wrong at a place of the list, and at the first such place.
* `occupy_ends`: how the search ends, from a part of the list in which nothing is wrong.
* `claim`, `checkDisjointInPlace`: the search with flags; `ran_claim` is one step of it, `ran_claims` a run.
* `checkDisjoint_decides`: the check as a whole.
-/

namespace EnergyStep

variable {α : Type} {n : ℕ}

/-- The three ways to go on at one position. -/
theorem occupy_cons (taken : List ℕ) (i : ℕ) (l : List ℕ) :
    (occupy n taken (i :: l) : Except (Fault α) Unit) =
      if n ≤ i then .error (.index i n)
      else if i ∈ taken then .error (.config (.sharedIndex i))
      else occupy n (i :: taken) l := by
  rw [occupy]
  unfold checkIndex
  by_cases hi : n ≤ i
  · rw [if_neg (Nat.not_lt.2 hi), if_pos hi]
    rfl
  · rw [if_pos (Nat.not_le.1 hi), if_neg hi]
    simp only [List.contains_iff_mem]
    rfl

theorem occupy_eq_ok : ∀ {l taken : List ℕ}, (occupy n taken l : Except (Fault α) Unit) = .ok () ↔
    (∀ i ∈ l, i < n) ∧ l.Nodup ∧ ∀ i ∈ l, i ∉ taken := by
  intro l
  induction l with
  | nil => intro taken; simp [occupy]
  | cons i l ih =>
    intro taken
    rw [occupy_cons, List.forall_mem_cons, List.nodup_cons, List.forall_mem_cons]
    split_ifs with hmissing hmem
    · exact ⟨by rintro ⟨⟩, fun h => absurd h.1.1 (Nat.not_lt.2 hmissing)⟩
    · exact ⟨by rintro ⟨⟩, fun h => absurd hmem h.2.2.1⟩
    · rw [ih]
      constructor
      · rintro ⟨hl, hn, hfree⟩
        -- what comes later is neither this position nor one that was taken before
        have hne : i ∉ l := fun hi => hfree i hi List.mem_cons_self
        exact ⟨⟨Nat.not_le.1 hmissing, hl⟩, ⟨hne, hn⟩, hmem,
          fun k hk hkt => hfree k hk (List.mem_cons_of_mem _ hkt)⟩
      · rintro ⟨⟨-, hl⟩, ⟨hne, hn⟩, -, hfree⟩
        refine ⟨hl, hn, fun k hk hkt => ?_⟩
        rcases List.mem_cons.1 hkt with rfl | hkt
        · exact hne hk
        · exact hfree k hk hkt

/-- **Positions are accepted** when they all exist and none of them occurs twice. -/
theorem checkDisjoint_eq_ok {sets : List (List ℕ)} :
    (checkDisjoint sets n : Except (Fault α) Unit) = .ok () ↔
      (∀ i ∈ sets.flatten, i < n) ∧ sets.flatten.Nodup := by
  unfold checkDisjoint
  simp [occupy_eq_ok]

section First

variable {l : List ℕ} {k : ℕ} {e e' : Fault α}

/-- **What is wrong at place `k`** of the list: the position there does not exist, or it stands at an
earlier place too. -/
inductive Refused (n : ℕ) (l : List ℕ) (k : ℕ) : Fault α → Prop
  | missing {i : ℕ} (hi : l[k]? = some i) (h : n ≤ i) : Refused n l k (.index i n)
  | shared {i : ℕ} (hi : l[k]? = some i) (h : i ∈ l.take k) :
    Refused n l k (.config (.sharedIndex i))

/-- The fault is that of **the first place** at which something is wrong. -/
def FirstRefused (n : ℕ) (l : List ℕ) (e : Fault α) : Prop :=
  ∃ k, Refused n l k e ∧ ∀ j < k, ∀ e' : Fault α, ¬ Refused n l j e'

/-- At the first place only one thing is wrong: a position that does not exist and stands at an earlier
place is wrong there already. -/
theorem Refused.missing_of_shared {i : ℕ} (hmem : i ∈ l.take k) (h : n ≤ i) :
    ∃ j < k, Refused n l j (.index i n : Fault α) := by
  obtain ⟨j, hj⟩ := List.mem_iff_getElem?.1 hmem
  rw [List.getElem?_take] at hj
  split_ifs at hj with hjk
  exact ⟨j, hjk, .missing hj h⟩

theorem FirstRefused.unique (h : FirstRefused n l e) (h' : FirstRefused n l e') : e = e' := by
  obtain ⟨k, hk, hfirst⟩ := h
  obtain ⟨k', hk', hfirst'⟩ := h'
  obtain rfl : k = k' := by
    rcases lt_trichotomy k k' with hlt | heq | hlt
    · exact absurd hk (hfirst' k hlt e)
    · exact heq
    · exact absurd hk' (hfirst k' hlt e')
  have hearlier : ∀ {i : ℕ}, i ∈ l.take k → ¬ n ≤ i := by
    intro i hmem hi
    obtain ⟨j, hj, hrefused⟩ := Refused.missing_of_shared (α := α) hmem hi
    exact hfirst j hj _ hrefused
  cases hk with
  | missing hi hn =>
    cases hk' with
    | missing hi' _ => cases hi.symm.trans hi'; rfl
    | shared hi' hmem => cases hi.symm.trans hi'; exact absurd hn (hearlier hmem)
  | shared hi hmem =>
    cases hk' with
    | missing hi' hn => cases hi.symm.trans hi'; exact absurd hn (hearlier hmem)
    | shared hi' _ => cases hi.symm.trans hi'; rfl

/-- **How the search ends**, if nothing is wrong in the part of the list that it has gone through: at the
first place where something is, or at the end of the list when nothing is. -/
theorem occupy_ends : ∀ rest before : List ℕ,
    (∀ j < before.length, ∀ e : Fault α, ¬ Refused n (before ++ rest) j e) →
    Ends (FirstRefused n (before ++ rest)) (fun _ => ∀ j, ∀ e : Fault α, ¬ Refused n (before ++ rest) j e)
      (occupy n before.reverse rest : Except (Fault α) Unit) := by
  intro rest
  induction rest with
  | nil =>
    intro before h j e hrefused
    rw [List.append_nil] at h hrefused
    have hj : j < before.length := by
      cases hrefused with
      | missing hi _ => exact (List.getElem?_eq_some_iff.1 hi).1
      | shared hi _ => exact (List.getElem?_eq_some_iff.1 hi).1
    exact h j hj e hrefused
  | cons i rest ih =>
    intro before h
    -- the next position stands right after those that have been gone through
    have hi : (before ++ i :: rest)[before.length]? = some i := by simp
    have htake : (before ++ i :: rest).take before.length = before := List.take_left ..
    rw [occupy_cons]
    simp only [List.mem_reverse]
    split_ifs with hmissing hmem
    · exact ⟨before.length, .missing hi hmissing, h⟩
    · exact ⟨before.length, .shared hi (by rwa [htake]), h⟩
    · have hnext := ih (before ++ [i])
      rw [List.append_assoc, List.singleton_append, List.reverse_concat', List.length_append,
        List.length_singleton] at hnext
      refine hnext fun j hj e hrefused => ?_
      rcases Nat.lt_succ_iff_lt_or_eq.1 hj with hj | rfl
      · exact h j hj e hrefused
      · cases hrefused with
        | missing hi' hn =>
          cases hi.symm.trans hi'
          exact hmissing hn
        | shared hi' hs =>
          cases hi.symm.trans hi'
          rw [htake] at hs
          exact hmem hs

/-- **Positions are refused** with the fault of the first place at which something is wrong. -/
theorem checkDisjoint_eq_error {sets : List (List ℕ)} :
    (checkDisjoint sets n : Except (Fault α) Unit) = .error e ↔ FirstRefused n sets.flatten e := by
  have hends := occupy_ends (α := α) (n := n) sets.flatten [] (by rintro j ⟨⟩)
  have hcheck : checkDisjoint sets n = (occupy n [] sets.flatten : Except (Fault α) Unit) := rfl
  rw [List.nil_append, List.reverse_nil, ← hcheck] at hends
  constructor
  · exact hends.of_error
  · intro h
    cases hr : (checkDisjoint sets n : Except (Fault α) Unit) with
    | ok _ =>
      obtain ⟨k, hk, -⟩ := h
      exact absurd hk (hends.of_ok hr k e)
    | error e' => rw [(hends.of_error hr).unique h]

end First

section Flags

/-- Takes a position that exists and whose flag is down, and puts the flag up. -/
def claim (n i : ℕ) : Recording (Array Bool) α PUnit := do
  liftExcept (checkIndex (α := α) n i)
  let claimed ← get
  if claimed.getD i false then throw (Fault.config (.sharedIndex i))
  else modify (·.setIfInBounds i true)

/-- The check with flags in one place, set by set. -/
def checkDisjointInPlace (sets : List (List ℕ)) (n : ℕ) : Except (Fault α) Unit :=
  (Recording.ran (forM sets fun set => forM set (claim n)) (Array.replicate n false)).1

/-- The flags of the positions that are taken. -/
def flags (n : ℕ) (taken : List ℕ) : Array Bool := Array.ofFn fun i : Fin n => decide (i.val ∈ taken)

theorem flags_nil : flags n [] = Array.replicate n false := by
  apply Array.ext
  · simp [flags]
  · intro i h₁ h₂
    simp [flags]

theorem getD_flags {i : ℕ} (h : i < n) (taken : List ℕ) :
    (flags n taken).getD i false = decide (i ∈ taken) := by
  simp [flags, h]

theorem setIfInBounds_flags (i : ℕ) (taken : List ℕ) :
    (flags n taken).setIfInBounds i true = flags n (i :: taken) := by
  apply Array.ext
  · simp [flags]
  · intro j h₁ h₂
    rw [Array.getElem_setIfInBounds (by simpa [flags] using h₁)]
    by_cases hij : i = j
    · simp [flags, hij]
    · simp [flags, hij, Ne.symm hij]

/-- **One step of the search with flags** does what one step without them does. -/
theorem ran_claim (taken : List ℕ) (i : ℕ) :
    (claim n i : Recording (Array Bool) α PUnit).ran (flags n taken) =
    if n ≤ i then (.error (.index i n), flags n taken)
    else if i ∈ taken then (.error (.config (.sharedIndex i)), flags n taken)
    else (.ok ⟨⟩, flags n (i :: taken)) := by
  unfold claim
  rw [Recording.ran_bind, Recording.ran_liftExcept]
  unfold checkIndex
  rcases Nat.lt_or_ge i n with hi | hi
  · rw [if_pos hi, if_neg (Nat.not_le.2 hi)]
    dsimp only
    rw [Recording.ran_bind, Recording.ran_get]
    dsimp only
    rw [getD_flags hi]
    by_cases hmem : i ∈ taken
    · rw [if_pos (decide_eq_true hmem), if_pos hmem, Recording.ran_throw]
    · rw [if_neg (by simpa using hmem), if_neg hmem, Recording.ran_modify, setIfInBounds_flags]
  · rw [if_neg (Nat.not_lt.2 hi), if_pos hi]

/-- **A run of the search with flags**, from the flags of the positions that are taken: it ends as the
search without them does, and if it comes to its end, the positions that it went through are taken too. -/
theorem ran_claims : ∀ l taken : List ℕ, ∃ claimed,
    (forM l (claim n) : Recording (Array Bool) α PUnit).ran (flags n taken) = (occupy n taken l, claimed) ∧
      ((occupy n taken l : Except (Fault α) Unit) = .ok () → claimed = flags n (l.reverse ++ taken)) := by
  intro l
  induction l with
  | nil => intro taken; exact ⟨_, rfl, fun _ => rfl⟩
  | cons i l ih =>
    intro taken
    rw [List.forM_cons, Recording.ran_bind, ran_claim, occupy_cons]
    split_ifs with hmissing hmem
    · exact ⟨_, rfl, by rintro ⟨⟩⟩
    · exact ⟨_, rfl, by rintro ⟨⟩⟩
    · obtain ⟨claimed, hran, hclaimed⟩ := ih (i :: taken)
      refine ⟨claimed, hran, fun hok => ?_⟩
      rw [hclaimed hok, List.reverse_cons, List.append_assoc, List.singleton_append]

/-- Set by set or all in one list, the steps are the same. -/
theorem forM_flatten {m : Type → Type} [Monad m] [LawfulMonad m] (f : ℕ → m PUnit)
    (sets : List (List ℕ)) : (forM sets fun set => forM set f) = forM sets.flatten f := by
  induction sets with
  | nil => rfl
  | cons set sets ih => rw [List.forM_cons, ih, List.flatten_cons, List.forM_append]

theorem checkDisjointInPlace_eq (sets : List (List ℕ)) :
    (checkDisjointInPlace sets n : Except (Fault α) Unit) = checkDisjoint sets n := by
  obtain ⟨claimed, hran, -⟩ := ran_claims (α := α) (n := n) sets.flatten []
  unfold checkDisjointInPlace checkDisjoint
  rw [forM_flatten, ← flags_nil, hran]

end Flags

/-- **The check decides disjointness.** It accepts exactly the lists of positions that all exist and of
which none occurs twice, be it in two sets or in one; otherwise its fault is that of the first place, in
order, where the position does not exist or has occurred before. With flags in one place, set by set, it
does the same. -/
theorem checkDisjoint_decides (sets : List (List ℕ)) (n : ℕ) :
    ((checkDisjoint sets n : Except (Fault α) Unit) = .ok () ↔
      (∀ i ∈ sets.flatten, i < n) ∧ sets.flatten.Nodup) ∧
    (∀ e : Fault α, checkDisjoint sets n = .error e ↔ FirstRefused n sets.flatten e) ∧
    (checkDisjointInPlace sets n : Except (Fault α) Unit) = checkDisjoint sets n :=
  ⟨checkDisjoint_eq_ok, fun _ => checkDisjoint_eq_error, checkDisjointInPlace_eq sets⟩

/-- Of two mistakes the first is told, whichever it is. -/
theorem checkDisjoint_decides_mistakes :
    FirstRefused 4 [0, 2, 2, 7] (.config (.sharedIndex 2) : Fault ℚ) ∧
      FirstRefused 4 [0, 7, 0] (.index 7 4 : Fault ℚ) :=
  ⟨((checkDisjoint_decides [[0, 2], [2, 7]] 4).2.1 _).1 (by decide),
    ((checkDisjoint_decides [[0, 7], [0]] 4).2.1 _).1 (by decide)⟩

end EnergyStep
