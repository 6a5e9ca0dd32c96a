import Mathlib

/-! Binary trees that are searched with a three-way comparator. -/
namespace SearchTree

open List

variable {α : Type} {compare : α → α → Int} {key a : α}

def inorder : BinaryTree α → List α
  | .nil => []
  | .node value left right => inorder left ++ value :: inorder right

/-- The last value that the comparator does not see after the key: the search stops at an equal one,
and else keeps the last one it went right of. -/
def psearch (compare : α → α → Int) (key : α) : BinaryTree α → Option α → Option α
  | .nil, found => found
  | .node value left right, found =>
    if compare key value < 0 then psearch compare key left found
    else if compare key value > 0 then psearch compare key right (some value)
    else some value

/-- What is found is in the tree and does not compare as greater than the key. -/
lemma psearch_eq_some {tree : BinaryTree α} {found : Option α}
    (h : psearch compare key tree found = some a) :
    a ∈ inorder tree ∧ 0 ≤ compare key a ∨ found = some a := by
  induction tree generalizing found with
  | nil => exact .inr h
  | node value left right ihl ihr =>
    rw [psearch] at h
    split_ifs at h with hl hg
    · rcases ihl h with ⟨hm, hle⟩ | hf
      · exact .inl ⟨mem_append_left _ hm, hle⟩
      · exact .inr hf
    · rcases ihr h with ⟨hm, hle⟩ | hf
      · exact .inl ⟨mem_append_right _ (mem_cons_of_mem _ hm), hle⟩
      · obtain rfl := Option.some.inj hf
        exact .inl ⟨mem_append_right _ mem_cons_self, by omega⟩
    · obtain rfl := Option.some.inj h
      exact .inl ⟨mem_append_right _ mem_cons_self, by omega⟩

/-- Where the values that compare as greater than the key come last, the search finds a value
behind which there is none to find. -/
lemma psearch_split {tree : BinaryTree α} (found : Option α)
    (h : (inorder tree).Pairwise fun a b => compare key a < 0 → compare key b < 0) :
    psearch compare key tree found = found ∧ (∀ a ∈ inorder tree, compare key a < 0) ∨
      ∃ front a back, inorder tree = front ++ a :: back ∧
        psearch compare key tree found = some a ∧ 0 ≤ compare key a ∧
        (0 < compare key a → ∀ b ∈ back, compare key b < 0) := by
  induction tree generalizing found with
  | nil => exact .inl ⟨rfl, by simp [inorder]⟩
  | node value left right ihl ihr =>
    obtain ⟨hlf, hn, -⟩ := pairwise_append.mp h
    obtain ⟨haf, hr⟩ := pairwise_cons.mp hn
    rw [psearch]
    split_ifs with hls hg
    · have hb : ∀ a ∈ value :: inorder right, compare key a < 0 :=
        forall_mem_cons.mpr ⟨hls, fun a ha => haf a ha hls⟩
      rcases ihl _ hlf with ⟨he, hal⟩ | ⟨front, a, back, hs, he, hle, hl⟩
      · exact .inl ⟨he, forall_mem_append.mpr ⟨hal, hb⟩⟩
      · refine .inr ⟨front, a, back ++ value :: inorder right, by simp [inorder, hs], he, hle,
          fun ha => forall_mem_append.mpr ⟨hl ha, hb⟩⟩
    · rcases ihr _ hr with ⟨he, hal⟩ | ⟨front, a, back, hs, he, hle, hl⟩
      · exact .inr ⟨inorder left, value, inorder right, rfl, he, by omega, fun _ => hal⟩
      · exact .inr ⟨inorder left ++ value :: front, a, back, by simp [inorder, hs], he, hle, hl⟩
    · exact .inr ⟨inorder left, value, inorder right, rfl, rfl, by omega, fun ha => by omega⟩

end SearchTree
