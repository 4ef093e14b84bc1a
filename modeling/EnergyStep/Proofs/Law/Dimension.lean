import EnergyStep.Proofs.Law.InPlace
import EnergyStep.Proofs.Law.Reading

/-!
# The dimension that a term requires

A term says how many components a state needs to have its positions. Over states and a gradient of one
dimension it is evaluated where they have as many, and elsewhere nothing happens: a position that is
missing has been found missing before the first amount is written.

* `Term.evaluate_fits_or_missing`: a term is evaluated, or nothing has happened.
* `Term.evaluates_iff_required`: the required dimension decides which.
-/

namespace EnergyStep
namespace Term

variable {α : Type} [Scalar α] {t : Term α} {x₀ x : Components α} {dt : α}

/-- **A term is evaluated, or nothing has happened**: the gradient is the one before, and the fault names a
position of the term that the states lack. -/
theorem evaluate_fits_or_missing (t : Term α) (dt : α) {g : Components α} (hx : x₀.size = x.size)
    (hg : g.size = x.size) :
    (t.FitsIn x.size ∧ ∃ e g', g'.size = g.size ∧ t.evaluate x₀ x dt g = (.ok e, g')) ∨
      ∃ i ∈ t.law.indices, x.size ≤ i ∧ t.evaluate x₀ x dt g = (.error (.index i x.size), g) := by
  have hends : Ends (fun fault => ∃ i ∈ t.law.indices, x.size ≤ i ∧ fault = .index i x.size)
      (fun c => t.FitsIn x.size ∧ c.At t.law.indices) (t.contribution x₀ x dt) :=
    contribution_ends (hx ▸ fun i hi hle => ⟨i, hi, hle, rfl⟩) fun i hi hle => ⟨i, hi, hle, rfl⟩
  cases hc : t.contribution x₀ x dt with
  | error fault =>
    obtain ⟨i, hi, hle, rfl⟩ := hends.of_error hc
    refine .inr ⟨i, hi, hle, ?_⟩
    unfold evaluate
    rw [hc]
  | ok c =>
    have hfit := (hends.of_ok hc).1
    exact .inl ⟨hfit, _, _, Components.size_bumpAll _ g, evaluate_of_contribution hc (by rwa [hg])⟩

/-- **A term requires exactly the dimension that it names.** Let a term have positions that some state can
have. Over states and a gradient of one dimension `n`, it is evaluated where it requires at most `n`, and the
gradient keeps its size. Where it requires more, one of its positions is beyond the `n` components, the fault
names it, and the gradient has stayed as it was. Reading and writing in turn makes no difference to this. -/
theorem evaluates_iff_required (t : Term α) (ht : Placed.Addressable t) {n : ℕ} {x₀ x g : Components α}
    (dt : α) (h₀ : x₀.size = n) (hx : x.size = n) (hg : g.size = n) :
    (t.evaluateInPlace x₀ x dt).ran g = t.evaluate x₀ x dt g ∧
    ((∃ e, (t.evaluate x₀ x dt g).1 = .ok e) ↔ t.requiredDimension ≤ n) ∧
    (t.requiredDimension ≤ n → ∃ e g', g'.size = n ∧ t.evaluate x₀ x dt g = (.ok e, g')) ∧
    (n < t.requiredDimension → ∃ i ∈ Placed.indices t, n ≤ i ∧
      t.evaluate x₀ x dt g = (.error (.index i n), g)) := by
  refine ⟨t.ran_evaluateInPlace x₀ x dt g, ?_⟩
  subst hx
  rw [← not_le, requiredDimension_le_iff ht]
  rcases t.evaluate_fits_or_missing dt h₀ hg with ⟨hfit, e, g', hg', heval⟩ | ⟨i, hi, hle, heval⟩
  · exact ⟨⟨fun _ => hfit, fun _ => ⟨e, by rw [heval]⟩⟩, fun _ => ⟨e, g', hg'.trans hg, heval⟩,
      fun hmissing => absurd hfit hmissing⟩
  · have hmissing : ¬ t.FitsIn x.size := fun hfit => absurd (hfit i hi) (not_lt.2 hle)
    refine ⟨⟨fun ⟨e, he⟩ => ?_, fun hfit => absurd hfit hmissing⟩, fun hfit => absurd hfit hmissing,
      fun _ => ⟨i, hi, hle, heval⟩⟩
    rw [heval] at he
    cases he

/-- Thrust on a body that burns mass and lets it go at a velocity of its own. -/
def thrust : Term ℚ :=
  ⟨.newton ⟨⟨0⟩, ⟨1⟩, ⟨2⟩, [⟨3⟩], [], [⟨⟨4⟩, ⟨5⟩⟩]⟩, Scales.unit⟩

/-- The velocity of what is let go is the last of six components. -/
theorem evaluates_iff_required_thrust :
    (∃ e g', g'.size = 6 ∧
      thrust.evaluate (.zeros 6) #[2, 1, 3, 4, 1, -1] 1 (.zeros 6) = (.ok e, g')) ∧
    (thrust.evaluateInPlace (.zeros 5) #[2, 1, 3, 4, 1] 1).ran #[7, 7, 7, 7, 7] =
      (.error (.index 5 5), #[7, 7, 7, 7, 7]) := by
  obtain ⟨-, -, hsix, -⟩ := thrust.evaluates_iff_required (by decide) (x := #[2, 1, 3, 4, 1, -1]) 1
    (Components.size_zeros 6) rfl (Components.size_zeros 6)
  obtain ⟨hran, -, -, hfive⟩ := thrust.evaluates_iff_required (by decide) (x := #[2, 1, 3, 4, 1])
    (g := #[7, 7, 7, 7, 7]) 1 (Components.size_zeros 5) rfl rfl
  refine ⟨hsix (by decide), ?_⟩
  obtain ⟨i, hi, hle, heval⟩ := hfive (by decide)
  obtain rfl : i = 5 := by
    have hbound : ∀ k ∈ Placed.indices thrust, k ≤ 5 := by decide
    exact le_antisymm (hbound i hi) hle
  exact hran.trans heval

end Term
end EnergyStep
