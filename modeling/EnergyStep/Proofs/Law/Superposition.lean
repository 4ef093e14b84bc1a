import EnergyStep.Proofs.Law.Holds
import EnergyStep.Proofs.Law.InPlace
import EnergyStep.Proofs.Law.Locality

/-!
# Superposition

Terms share one gradient, and each adds to it at its own positions what it reads off its own positions. So
a term neither sees what others have added nor where they have; the energy of a step and its gradient are
sums over the terms, in any order; and of two systems that share no position each has the gradient that it
would have alone.

* `Term.Contributes`, `Term.contributes_of_evaluate`: what a term adds to any gradient.
* `StepEnergy.only`: the step with one term.
* `StepEnergy.breakdownInPlace`: the parts of the energy, with a gradient that all terms share.
* `StepEnergy.evaluate_iff_only`: energy and gradient as sums over the terms.
* `StepEnergy.evaluate_of_disjoint`: a part of the terms that has positions of its own.
* `superposition`: all of it.
-/

namespace EnergyStep

variable {α : Type}

section

variable [Scalar α] {t : Term α} {f : StepEnergy α} {x₀ y₀ x y g : Components α} {dt e : α}

/-- An energy is that of a contribution. -/
theorem Term.contribution_of_evaluate (h : (t.evaluate x₀ x dt g).1 = .ok e) :
    ∃ c, t.contribution x₀ x dt = .ok c ∧ c.energy = e := by
  unfold evaluate at h
  cases hc : t.contribution x₀ x dt with
  | ok c =>
    rw [hc] at h
    obtain ⟨_, -, he⟩ := map_eq_ok.1 h
    exact ⟨c, rfl, he⟩
  | error fault => rw [hc] at h; cases h

/-- **The same states at the positions of a term** are the same to it, whatever the gradient holds. -/
theorem Term.evaluate_of_agree (h₀ : Agree t.law.indices x₀ y₀) (h : Agree t.law.indices x y)
    (he : (t.evaluate x₀ x dt g).1 = .ok e) : t.evaluate y₀ y dt g = t.evaluate x₀ x dt g := by
  obtain ⟨c, hc, -⟩ := contribution_of_evaluate he
  unfold evaluate
  rw [hc, contribution_repeats h₀ h c hc]

namespace StepEnergy

/-- The step with this term only. -/
def only (f : StepEnergy α) (t : Term α) : StepEnergy α := { f with terms := [t] }

/-- The name and the energy of one term. What it adds stays in the gradient. -/
def partInPlace (f : StepEnergy α) (state : Components α) (t : Term α) :
    Components.InPlace α (String × α) := do
  let e ← t.evaluateInPlace f.initial state f.dt
  pure (t.name, e)

/-- The name and the energy of every term, with a gradient that they share. -/
def breakdownInPlace (f : StepEnergy α) (state : Components α) :
    Components.InPlace α (List (String × α)) := do
  liftExcept (checkDimension (α := α) .candidateState f.dimension state.size)
  f.terms.mapM (f.partInPlace state)

theorem ran_partInPlace (f : StepEnergy α) (t : Term α) (hg : g.size = x.size) :
    ∃ g', g'.size = x.size ∧ (f.partInPlace x t).ran g =
      (t.contribution f.initial x f.dt >>= fun c => pure (t.name, c.energy), g') := by
  unfold partInPlace
  rw [Recording.ran_bind, Term.ran_evaluateInPlace]
  cases hc : t.contribution f.initial x f.dt with
  | error fault =>
    refine ⟨g, hg, ?_⟩
    unfold Term.evaluate
    rw [hc]
    rfl
  | ok c =>
    refine ⟨g.bumpAll c.additions.flatten, (Components.size_bumpAll _ g).trans hg, ?_⟩
    rw [Term.evaluate_of_contribution hc (hg ▸ (Term.at_of_contribution hc).1)]
    rfl

/-- **No term sees what others have added** to the gradient that they share. -/
theorem ran_breakdownInPlace (f : StepEnergy α) (hg : g.size = x.size) :
    ((f.breakdownInPlace x).ran g).1 = f.breakdown x := by
  unfold breakdownInPlace breakdown
  rw [Recording.ran_bind, Recording.ran_liftExcept]
  cases checkDimension Subject.candidateState f.dimension x.size with
  | error fault => rfl
  | ok _ => exact Recording.ran_mapM_fst (fun t _ ha => f.ran_partInPlace t ha) f.terms hg

/-- **The same states at the positions of the terms** have the same energy and gradient. -/
theorem evaluate_repeats (hsize₀ : y₀.size = f.dimension) (hsize : y.size = x.size)
    (h₀ : Agree (f.terms.flatMap Placed.indices) f.initial y₀)
    (h : Agree (f.terms.flatMap Placed.indices) x y) :
    Repeats (f.evaluate x) ({ f with initial := y₀ }.evaluate y) := by
  have hterm : ∀ t ∈ f.terms, ∀ a, Repeats (f.accumulate x a t)
      ({ f with initial := y₀ }.accumulate y a t) := by
    intro t ht a b hb
    have hmem : ∀ i ∈ t.law.indices, i ∈ f.terms.flatMap Placed.indices :=
      fun i hi => List.mem_flatMap.2 ⟨t, ht, hi⟩
    obtain ⟨e, he, -⟩ := map_eq_ok.1 hb
    have hsame := Term.evaluate_of_agree (fun i hi => h₀ i (hmem i hi)) (fun i hi => h i (hmem i hi)) he
    unfold accumulate at hb ⊢
    dsimp only at hb ⊢
    rw [hsame]
    exact hb
  show Repeats _ (checkDimension .candidateState y₀.size y.size >>= fun _ => _)
  rw [hsize₀, hsize]
  exact (Repeats.refl _).bind fun _ => .foldlM hterm _

end StepEnergy
end

variable [Exact α]

/-- **What a term contributes** to any gradient, over all states that are the same at its positions: its
energy `e`, and the amounts `d`, with reading and writing in turn as well. -/
def Term.Contributes (t : Term α) (x₀ x : Components α) (dt e : α) (d : ℕ → α) : Prop :=
  ∀ y₀ y g, Agree (Placed.indices t) x₀ y₀ → Agree (Placed.indices t) x y → t.FitsIn g.size →
    ∃ g', t.evaluate y₀ y dt g = (.ok e, g') ∧ (t.evaluateInPlace y₀ y dt).ran g = (.ok e, g') ∧
      g'.size = g.size ∧ ∀ i < g.size, g'.component i = g.component i + d i

variable {t : Term α} {f : StepEnergy α} {x₀ x g : Components α} {dt e : α}

/-- **A term that is evaluated contributes**, and only at its positions. -/
theorem Term.contributes_of_evaluate (h : (t.evaluate x₀ x dt g).1 = .ok e) : t.FitsIn x.size ∧
    ∃ d, (∀ i ∉ Placed.indices t, d i = 0) ∧ t.Contributes x₀ x dt e d := by
  obtain ⟨c, hc, rfl⟩ := contribution_of_evaluate h
  have hat : ∀ i ∉ Placed.indices t, i ∉ c.additions.flatten.map Prod.fst := by
    intro i hi hmem
    obtain ⟨p, hp, rfl⟩ := List.mem_map.1 hmem
    obtain ⟨a, ha, hpa⟩ := List.mem_flatten.1 hp
    exact hi ((at_of_contribution hc).2 a ha p hpa)
  refine ⟨(at_of_contribution hc).1, total c.additions.flatten,
    fun i hi => total_of_notMem (hat i hi), fun y₀ y g' h₀ hy hg' => ?_⟩
  have heval := evaluate_of_contribution (contribution_repeats h₀ hy c hc) hg'
  exact ⟨_, heval, (t.ran_evaluateInPlace y₀ y dt g').trans heval, Components.size_bumpAll _ g',
    fun i hi => Components.component_bumpAll _ hi⟩

/-- A component of a sum of amounts, none of which has been added before. -/
theorem Components.component_bumpAll_flatMap {β : Type} (n : ℕ) (l : List β) (a : β → List (ℕ × α))
    (i : ℕ) : ((zeros n : Components α).bumpAll (l.flatMap a)).component i =
      (l.map fun b => ((zeros n).bumpAll (a b)).component i).sum := by
  rcases Nat.lt_or_ge i n with hi | hi
  · have hone : ∀ es : List (ℕ × α), ((zeros n).bumpAll es).component i = total es i := by
      intro es
      rw [component_bumpAll es (by rwa [size_zeros]), component_zeros, zero_add]
    simp only [hone, total_flatMap]
  · -- beyond the end there is nothing to add to
    have hone : ∀ es : List (ℕ × α), ((zeros n).bumpAll es).component i = 0 :=
      fun es => component_of_le (by rwa [size_bumpAll, size_zeros])
    simp only [hone, List.map_const', List.sum_replicate, nsmul_zero]

namespace StepEnergy

theorem only_evaluate_eq_ok (hx : f.dimension = x.size) {r : α × Components α} :
    (f.only t).evaluate x = .ok r ↔ t.FitsIn x.size ∧
      (t.energyAt f.initial.component x.component f.dt,
        (Components.zeros x.size).bumpAll (t.slopes f.initial.component x.component f.dt)) = r := by
  obtain ⟨e, g⟩ := r
  have henergy : (f.only t).energyAt x.component = t.energyAt f.initial.component x.component f.dt :=
    List.sum_singleton
  have hslopes : (f.only t).slopes x.component = t.slopes f.initial.component x.component f.dt :=
    List.append_nil _
  rw [evaluate_eq_ok, henergy, hslopes, Prod.mk.injEq]
  show f.dimension = x.size ∧ (∀ u ∈ [t], u.FitsIn x.size) ∧ _ ↔ _
  rw [List.forall_mem_singleton, and_iff_right hx]

/-- **Energy and gradient are sums over the terms**, each evaluated alone. -/
theorem evaluate_iff_only : f.evaluate x = .ok (e, g) ↔ f.dimension = x.size ∧ g.size = x.size ∧
    ∃ rs, f.terms.mapM (fun t => (f.only t).evaluate x) = .ok rs ∧ (rs.map Prod.fst).sum = e ∧
      ∀ i, (rs.map fun r => r.2.component i).sum = g.component i := by
  have hsum : ∀ i, ((Components.zeros x.size).bumpAll (f.slopes x.component)).component i =
      (f.terms.map fun t => ((Components.zeros x.size).bumpAll
        (t.slopes f.initial.component x.component f.dt)).component i).sum :=
    Components.component_bumpAll_flatMap x.size f.terms _
  rw [evaluate_eq_ok]
  constructor
  · rintro ⟨hx, hfit, rfl, rfl⟩
    refine ⟨hx, by rw [Components.size_bumpAll, Components.size_zeros], _,
      (mapM_eq_ok fun _ _ => only_evaluate_eq_ok hx).2 ⟨hfit, rfl⟩, ?_, fun i => ?_⟩
    · rw [List.map_map]
      rfl
    · rw [hsum, List.map_map]
      rfl
  · rintro ⟨hx, hg, rs, hrs, rfl, hcomponent⟩
    obtain ⟨hfit, rfl⟩ := (mapM_eq_ok fun _ _ => only_evaluate_eq_ok hx).1 hrs
    refine ⟨hx, hfit, ?_, Components.ext_component ?_ fun i _ => ?_⟩
    · rw [List.map_map]
      rfl
    · rw [Components.size_bumpAll, Components.size_zeros, hg]
    · rw [hsum, ← hcomponent, List.map_map]
      rfl

/-- Terms are evaluated in any order. -/
theorem evaluate_perm {ts : List (Term α)} (h : f.terms.Perm ts) :
    { f with terms := ts }.evaluate x = .ok (e, g) ↔ f.evaluate x = .ok (e, g) := by
  have henergy : { f with terms := ts }.energyAt x.component = f.energyAt x.component :=
    (h.map _).sum_eq.symm
  have hslopes : (f.slopes x.component).Perm ({ f with terms := ts }.slopes x.component) :=
    h.flatMap_right _
  rw [evaluate_eq_ok, evaluate_eq_ok, henergy, Components.bumpAll_perm hslopes]
  exact and_congr_right' (and_congr_left' (forall_congr' fun t => by rw [h.mem_iff]))

/-- **A part of the terms with positions of its own** has the gradient there that it has alone. -/
theorem evaluate_of_disjoint {as bs : List (Term α)} (hterms : f.terms.Perm (as ++ bs))
    (hdisjoint : (as.flatMap Placed.indices).Disjoint (bs.flatMap Placed.indices))
    (h : f.evaluate x = .ok (e, g)) : ∃ e' g', { f with terms := as }.evaluate x = .ok (e', g') ∧
      ∀ i ∈ as.flatMap Placed.indices, g.component i = g'.component i := by
  obtain ⟨hx, hfit, -, rfl⟩ := evaluate_eq_ok.1 h
  have hfit' : ∀ t ∈ as, t.FitsIn x.size :=
    fun t ht => hfit t (hterms.mem_iff.2 (List.mem_append_left _ ht))
  refine ⟨_, _, evaluate_eq_ok.2 ⟨hx, hfit', rfl, rfl⟩, fun i hi => ?_⟩
  let slopes (t : Term α) := t.slopes f.initial.component x.component f.dt
  have hslopes : (f.slopes x.component).Perm (as.flatMap slopes ++ bs.flatMap slopes) := by
    rw [← List.flatMap_append]
    exact hterms.flatMap_right _
  -- the other terms add nothing at these positions
  have hother : i ∉ (bs.flatMap slopes).map Prod.fst := by
    intro hmem
    obtain ⟨p, hp, rfl⟩ := List.mem_map.1 hmem
    obtain ⟨t, ht, hpt⟩ := List.mem_flatMap.1 hp
    exact hdisjoint hi (List.mem_flatMap.2 ⟨t, ht, Term.index_mem_of_mem_slopes hpt⟩)
  have hframe : ((Components.zeros x.size).bumpAll (f.slopes x.component))[i]? =
      ((Components.zeros x.size).bumpAll (as.flatMap slopes))[i]? := by
    rw [Components.bumpAll_perm hslopes, Components.bumpAll_append]
    exact Components.getElem?_bumpAll _ hother
  exact Components.component_congr hframe

/-- **What changes elsewhere** does not change the gradient of such a part. -/
theorem evaluate_of_agree {as bs : List (Term α)} (hterms : f.terms.Perm (as ++ bs))
    (hdisjoint : (as.flatMap Placed.indices).Disjoint (bs.flatMap Placed.indices))
    (h : f.evaluate x = .ok (e, g)) {y₀ y : Components α} (hsize₀ : y₀.size = f.dimension)
    (hsize : y.size = x.size) (h₀ : Agree (as.flatMap Placed.indices) f.initial y₀)
    (hy : Agree (as.flatMap Placed.indices) x y) :
    ∃ e' g', { f with initial := y₀ }.evaluate y = .ok (e', g') ∧
      ∀ i ∈ as.flatMap Placed.indices, g'.component i = g.component i := by
  obtain ⟨hx, hfit, -, -⟩ := evaluate_eq_ok.1 h
  have hthere : { f with initial := y₀ }.evaluate y = .ok _ :=
    evaluate_eq_ok.2 ⟨hsize₀.trans (hx.trans hsize.symm), by rwa [hsize], rfl, rfl⟩
  obtain ⟨_, d, hd, hcomponent⟩ := evaluate_of_disjoint hterms hdisjoint h
  obtain ⟨_, d', hd', hcomponent'⟩ :=
    evaluate_of_disjoint (f := { f with initial := y₀ }) hterms hdisjoint hthere
  -- alone the part has one gradient, here and there
  have halone := evaluate_repeats (f := { f with terms := as }) hsize₀ hsize h₀ hy _ hd
  have hsame : d = d' := (Prod.mk.inj (Except.ok.inj (halone.symm.trans hd'))).2
  refine ⟨_, _, hthere, fun i hi => ?_⟩
  rw [hcomponent' i hi, hcomponent i hi, hsame]

end StepEnergy

/-- **Terms superpose.** A term that can be evaluated adds to a gradient with its positions always the same
amounts, and only at its positions, whatever the gradient holds and whatever the states are elsewhere; so is
its energy. The energy of a step and its gradient are the sums of those of its terms, which have to be
evaluated for it, in any order; the parts of the energy add up to it, and are the same when the terms share
one gradient. If the terms are of two systems without a common position, each has there the gradient that
it has alone, and a change of the states elsewhere does not change it. -/
theorem superposition :
    (∀ (t : Term α) (x₀ x : Components α) (dt : α) (g : Components α) (e : α),
      (t.evaluate x₀ x dt g).1 = .ok e → t.FitsIn x.size ∧
        ∃ d, (∀ i ∉ Placed.indices t, d i = 0) ∧ t.Contributes x₀ x dt e d) ∧
    (∀ (f : StepEnergy α) (x : Components α),
      (∀ e g, f.evaluate x = .ok (e, g) ↔ f.dimension = x.size ∧ g.size = x.size ∧
        ∃ rs, f.terms.mapM (fun t => (f.only t).evaluate x) = .ok rs ∧ (rs.map Prod.fst).sum = e ∧
          ∀ i, (rs.map fun r => r.2.component i).sum = g.component i) ∧
      (∀ scratch, scratch.size = x.size → ((f.breakdownInPlace x).ran scratch).1 = f.breakdown x) ∧
      (∀ e g, f.evaluate x = .ok (e, g) →
        ∃ parts, f.breakdown x = .ok parts ∧ (parts.map Prod.snd).sum = e) ∧
      ∀ ts e g, f.terms.Perm ts →
        ({ f with terms := ts }.evaluate x = .ok (e, g) ↔ f.evaluate x = .ok (e, g))) ∧
    ∀ (f : StepEnergy α) (as bs : List (Term α)) (x : Components α) (e : α) (g : Components α),
      f.terms.Perm (as ++ bs) →
      (as.flatMap Placed.indices).Disjoint (bs.flatMap Placed.indices) →
      f.evaluate x = .ok (e, g) →
        (∃ e' g', { f with terms := as }.evaluate x = .ok (e', g') ∧
          ∀ i ∈ as.flatMap Placed.indices, g.component i = g'.component i) ∧
        ∀ y₀ y, y₀.size = f.dimension → y.size = x.size →
          Agree (as.flatMap Placed.indices) f.initial y₀ → Agree (as.flatMap Placed.indices) x y →
            ∃ e' g', { f with initial := y₀ }.evaluate y = .ok (e', g') ∧
              ∀ i ∈ as.flatMap Placed.indices, g'.component i = g.component i := by
  refine ⟨fun t x₀ x dt g e h => t.contributes_of_evaluate h, fun f x =>
    ⟨fun e g => StepEnergy.evaluate_iff_only, fun scratch h => f.ran_breakdownInPlace h,
      fun e g h => ?_, fun ts e g h => StepEnergy.evaluate_perm h⟩,
    fun f as bs x e g hterms hdisjoint h =>
      ⟨StepEnergy.evaluate_of_disjoint hterms hdisjoint h, fun y₀ y hsize₀ hsize h₀ hy =>
        StepEnergy.evaluate_of_agree hterms hdisjoint h hsize₀ hsize h₀ hy⟩⟩
  obtain ⟨hx, hfit, he, -⟩ := StepEnergy.evaluate_eq_ok.1 h
  refine ⟨_, StepEnergy.breakdown_eq_ok.2 ⟨hx, hfit, rfl⟩, ?_⟩
  rw [List.map_map]
  exact he

/-- A mass that should stay. -/
def keptMass : Term ℚ := ⟨.mass ⟨⟨0⟩, [], []⟩, Scales.unit⟩

/-- A quaternion beside it. -/
def keptNorm : Term ℚ := ⟨.versor ⟨⟨1, 2, 3, 4⟩⟩, Scales.unit⟩

/-- A quaternion and a mass, which has changed. -/
def sideBySide : StepEnergy ℚ := ⟨#[1, 1, 0, 0, 0], 1, [keptNorm, keptMass]⟩

/-- The mass over other states and with another gradient, the terms in the other order, the parts of the
energy, and another quaternion beside the mass. -/
theorem superposition_sideBySide :
    (∃ g, keptMass.evaluate #[1, 7] #[2, 8] 1 #[5, 5] = (.ok 1, g) ∧ g.component 1 = 5) ∧
    { sideBySide with terms := [keptMass, keptNorm] }.evaluate #[2, 1, 0, 0, 0] =
      .ok (1, #[2, 0, 0, 0, 0]) ∧
    (∃ parts, sideBySide.breakdown #[2, 1, 0, 0, 0] = .ok parts ∧ (parts.map Prod.snd).sum = 1) ∧
    ∃ e g, sideBySide.evaluate #[2, 3, 0, 1, 0] = .ok (e, g) ∧ g.component 0 = 2 := by
  obtain ⟨hterm, hsum, hdisjoint⟩ := superposition (α := ℚ)
  have hswap : sideBySide.terms.Perm [keptMass, keptNorm] := List.Perm.swap _ _ _
  have heval : sideBySide.evaluate #[2, 1, 0, 0, 0] = .ok (1, #[2, 0, 0, 0, 0]) := by decide +kernel
  obtain ⟨-, -, hparts, hperm⟩ := hsum sideBySide #[2, 1, 0, 0, 0]
  refine ⟨?_, (hperm _ _ _ hswap).2 heval, hparts _ _ heval, ?_⟩
  · obtain ⟨-, d, hd, hcontributes⟩ :=
      hterm keptMass #[1] #[2] 1 (.zeros 1) 1 (by decide +kernel)
    obtain ⟨g, hg, -, -, hcomponent⟩ :=
      hcontributes #[1, 7] #[2, 8] #[5, 5] (by unfold Agree; decide) (by unfold Agree; decide)
        (by unfold Term.FitsIn; decide)
    refine ⟨g, hg, (hcomponent 1 (by decide)).trans ?_⟩
    rw [hd 1 (by decide)]
    decide +kernel
  · obtain ⟨-, hagree⟩ := hdisjoint sideBySide [keptMass] [keptNorm] #[2, 1, 0, 0, 0] 1
      #[2, 0, 0, 0, 0] hswap (by unfold List.Disjoint; decide) heval
    obtain ⟨e, g, hg, hcomponent⟩ := hagree sideBySide.initial #[2, 3, 0, 1, 0] rfl rfl
      (fun _ _ => rfl) (by unfold Agree; decide)
    exact ⟨e, g, hg, hcomponent 0 (by decide)⟩

end EnergyStep
