import Mathlib

/-! Reachability in directed graphs, under changes at one vertex, and ranks of acyclic ones. -/
namespace Edges

open Relation

variable {α : Type} {E E' : α → α → Prop} {a b g r : α}

def Acyclic (E : α → α → Prop) : Prop := ∀ a, ¬ TransGen E a a

def addEdge (E : α → α → Prop) (g r : α) : α → α → Prop := fun a b => E a b ∨ a = g ∧ b = r

lemma transGen_addEdge (h : TransGen (addEdge E g r) a b) :
    TransGen E a b ∨ ReflTransGen E a g ∧ ReflTransGen E r b := by
  induction h with
  | single ha =>
    rcases ha with ha | ⟨rfl, rfl⟩
    · exact .inl (.single ha)
    · exact .inr ⟨.refl, .refl⟩
  | tail _ hb ih =>
    rcases hb with hb | ⟨rfl, rfl⟩
    · rcases ih with ha | ⟨hag, hr⟩
      · exact .inl (ha.tail hb)
      · exact .inr ⟨hag, hr.tail hb⟩
    · rcases ih with ha | ⟨hag, -⟩
      · exact .inr ⟨ha.to_reflTransGen, .refl⟩
      · exact .inr ⟨hag, .refl⟩

/-- A new edge closes a cycle exactly when its target reached its source before. -/
lemma acyclic_addEdge_iff (h : Acyclic E) : Acyclic (addEdge E g r) ↔ ¬ ReflTransGen E r g := by
  constructor
  · intro hac hr
    refine hac g (.head' (.inr ⟨rfl, rfl⟩) ?_)
    exact ReflTransGen.mono (fun _ _ => .inl) _ _ hr
  · intro hr a ha
    rcases transGen_addEdge ha with ha | ⟨hag, hra⟩
    · exact h a ha
    · exact hr (hra.trans hag)

lemma reflTransGen_of_agree (ha : ∀ a, a ≠ g → ∀ b, E a b → E' a b)
    (h : ReflTransGen E a b) : ReflTransGen E' a b ∨ ReflTransGen E' a g := by
  induction h with
  | refl => exact .inl .refl
  | @tail b c _ hbc ih =>
    rcases ih with hab | hag
    · by_cases hb : b = g
      · exact .inr (hb ▸ hab)
      · exact .inl (hab.tail (ha b hb c hbc))
    · exact .inr hag

/-- In a finite acyclic graph every vertex has more vertices below it than those it points to. -/
lemma exists_rank [Fintype α] (h : Acyclic E) : ∃ rank : α → Nat,
    (∀ a b, E a b → rank b < rank a) ∧ ∀ a, rank a < Fintype.card α := by
  classical
  refine ⟨fun a => (Finset.univ.filter (TransGen E a)).card, fun a b hab => ?_, fun a => ?_⟩
  · refine Finset.card_lt_card (Finset.ssubset_iff_of_subset ?_ |>.mpr ⟨b, ?_, ?_⟩)
    · intro c hc
      simp only [Finset.mem_filter, Finset.mem_univ, true_and] at hc ⊢
      exact .head hab hc
    · simpa using .single hab
    · simpa using h b
  · refine Finset.card_lt_card ⟨Finset.subset_univ _, fun ha => h a ?_⟩
    simpa using ha (Finset.mem_univ a)

end Edges
