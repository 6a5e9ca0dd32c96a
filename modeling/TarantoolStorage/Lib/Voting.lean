import Mathlib

/-! Votes given once per term: two majorities cannot elect different candidates. -/
namespace Voting

/-- A term and the vote given in it; 0 is no vote yet. -/
@[ext] structure Ballot where
  term : Nat
  vote : Nat
  deriving DecidableEq, Repr

/-- A ballot advances to a later term, or by a vote where there was none. -/
instance : Preorder Ballot where
  le a b := a.term < b.term ∨ a.term = b.term ∧ (a.vote = 0 ∨ a.vote = b.vote)
  le_refl _ := .inr ⟨rfl, .inr rfl⟩
  le_trans a b c hab hbc := by omega

lemma Ballot.le_def {a b : Ballot} :
    a ≤ b ↔ a.term < b.term ∨ a.term = b.term ∧ (a.vote = 0 ∨ a.vote = b.vote) :=
  .rfl

lemma Ballot.term_le {a b : Ballot} (h : a ≤ b) : a.term ≤ b.term := by
  have := Ballot.le_def.mp h
  omega

/-- Of one term there is at most one vote among the ballots. -/
def SingleVote (bs : List Ballot) : Prop :=
  ∀ a ∈ bs, ∀ b ∈ bs, a.term = b.term → a.vote ≠ 0 → b.vote ≠ 0 → a.vote = b.vote

/-- A ballot that all earlier ones lead to keeps the vote of its term unique. -/
lemma singleVote_append {bs : List Ballot} {c : Ballot} (hbs : SingleVote bs)
    (hc : ∀ b ∈ bs, b ≤ c) : SingleVote (bs ++ [c]) := by
  have hl (b : Ballot) (hb : b ∈ bs) (ht : b.term = c.term) (hv : b.vote ≠ 0) :
      b.vote = c.vote := by
    have hle := Ballot.le_def.mp (hc b hb)
    omega
  intro a ha b hb ht hva hvb
  simp only [List.mem_append, List.mem_singleton] at ha hb
  rcases ha with ha | rfl
  · rcases hb with hb | rfl
    · exact hbs a ha b hb ht hva hvb
    · exact hl a ha ht hva
  · rcases hb with hb | rfl
    · exact (hl b hb ht.symm hvb).symm
    · rfl

/-- Two sets of voters that together outnumber the members elect the same candidate. -/
lemma elected_unique {members V W : Finset Nat} {ballots : Nat → List Ballot}
    (hs : ∀ j ∈ members, SingleVote (ballots j)) (hV : V ⊆ members) (hW : W ⊆ members)
    (hc : members.card < V.card + W.card) {t a b : Nat} (ha : a ≠ 0) (hb : b ≠ 0)
    (hv : ∀ j ∈ V, ⟨t, a⟩ ∈ ballots j) (hvb : ∀ j ∈ W, ⟨t, b⟩ ∈ ballots j) : a = b := by
  obtain ⟨j, hj⟩ := Finset.inter_nonempty_of_card_lt_card_add_card hV hW hc
  obtain ⟨hjV, hjW⟩ := Finset.mem_inter.mp hj
  exact hs j (hV hjV) _ (hv j hjV) _ (hvb j hjW) rfl ha hb

end Voting
