import Mathlib

/-! Computations that stop at a failed assertion, and rules for what they return. -/
namespace Checked

variable {α β : Type} {x : Option α} {f : α → Option β} {P Q : α → Prop} {R : β → Prop} {p : Prop}
  {g : Unit → Option β}

/-- An assertion: the computation has no result when it fails. -/
def assertThat (p : Prop) [Decidable p] : Option Unit := if p then some () else none

/-- The computation passes all its assertions and its result has the property. -/
def Ensures (x : Option α) (Q : α → Prop) : Prop := ∃ a, x = some a ∧ Q a

lemma ensures_some {a : α} (h : Q a) : Ensures (some a) Q := ⟨a, rfl, h⟩

lemma ensures_bind (hx : Ensures x P) (hf : ∀ a, P a → Ensures (f a) R) : Ensures (x >>= f) R := by
  obtain ⟨a, rfl, ha⟩ := hx
  exact hf a ha

@[simp] lemma assertThat_eq_some [Decidable p] {u : Unit} : assertThat p = some u ↔ p := by
  by_cases h : p <;> simp [assertThat, h]

lemma assertThat_of [Decidable p] (h : p) : assertThat p = some () := assertThat_eq_some.mpr h

lemma assert_bind_eq_some [Decidable p] {b : β} :
    (assertThat p >>= g) = some b ↔ p ∧ g () = some b := by
  by_cases h : p <;> simp [assertThat, h]

lemma ensures_assert [Decidable p] (hp : p) (h : Ensures (g ()) R) :
    Ensures (assertThat p >>= g) R := by
  rw [assertThat_of hp]
  exact h

lemma Ensures.mono (h : Ensures x P) (hPQ : ∀ a, P a → Q a) : Ensures x Q := by
  obtain ⟨a, ha, hp⟩ := h
  exact ⟨a, ha, hPQ a hp⟩

/-- What the computation returns, if it returns, has the property. -/
def Allows (x : Option α) (Q : α → Prop) : Prop := ∀ a, x = some a → Q a

lemma allows_some {a : α} (h : Q a) : Allows (some a) Q := by
  rintro _ ⟨⟩
  exact h

lemma allows_bind (hx : Allows x P) (hf : ∀ a, P a → Allows (f a) R) : Allows (x >>= f) R := by
  intro b hb
  obtain ⟨a, ha, hfa⟩ := Option.bind_eq_some_iff.mp hb
  exact hf a (hx a ha) b hfa

lemma allows_assert [Decidable p] (h : p → Allows (g ()) R) : Allows (assertThat p >>= g) R := by
  intro b hb
  obtain ⟨hp, hg⟩ := assert_bind_eq_some.mp hb
  exact h hp b hg

lemma Allows.mono (h : Allows x P) (hPQ : ∀ a, P a → Q a) : Allows x Q := fun a ha => hPQ a (h a ha)

end Checked
