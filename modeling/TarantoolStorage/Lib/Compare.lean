import Mathlib

/-! Comparison functions with an integer result: negative, zero or positive. -/
namespace Compare

variable {α β : Type*} {cmp : α → α → Int} {A : Set α} {a b c : α}

/-- The three-way result of comparing two values of an order. -/
def compareResult [LT α] [DecidableLT α] (a b : α) : Int :=
  if a < b then -1 else if b < a then 1 else 0

section LinearOrder

variable [LinearOrder α]

lemma compareResult_of_lt (h : a < b) : compareResult a b = -1 := if_pos h

lemma compareResult_of_gt (h : b < a) : compareResult a b = 1 := by
  rw [compareResult, if_neg (not_lt_of_gt h), if_pos h]

@[simp] lemma compareResult_self (a : α) : compareResult a a = 0 := by
  simp [compareResult]

lemma compareResult_neg : compareResult a b < 0 ↔ a < b := by
  unfold compareResult
  split
  · simp [*]
  · split <;> simp [*]

lemma compareResult_eq_zero : compareResult a b = 0 ↔ a = b := by
  rcases lt_trichotomy a b with h | rfl | h
  · simp [compareResult_of_lt h, h.ne]
  · simp
  · simp [compareResult_of_gt h, h.ne']

lemma compareResult_nonpos : compareResult a b ≤ 0 ↔ a ≤ b := by
  rw [le_iff_lt_or_eq, compareResult_neg, compareResult_eq_zero, le_iff_lt_or_eq]

lemma compareResult_swap (a b : α) : compareResult b a = -compareResult a b := by
  rcases lt_trichotomy a b with h | rfl | h
  · rw [compareResult_of_lt h, compareResult_of_gt h]
    rfl
  · simp
  · rw [compareResult_of_lt h, compareResult_of_gt h]

lemma compareResult_nonneg : 0 ≤ compareResult a b ↔ b ≤ a := by
  have h := compareResult_nonpos (a := b) (b := a)
  rw [compareResult_swap a b] at h
  rw [← h]
  omega

/-- One comparison decides another unless the two contradict each other. -/
lemma compareResult_decides_iff [LinearOrder β] {u v : β} :
    (compareResult u v ≠ 0 → compareResult u v = compareResult a b) ↔
      ¬(u < v ∧ b ≤ a ∨ v < u ∧ a ≤ b) := by
  rcases lt_trichotomy u v with h | rfl | h
  · rcases lt_or_ge a b with hab | hab
    · simp [compareResult_of_lt h, compareResult_of_lt hab, h, hab, not_lt_of_gt h]
    · have hn : compareResult a b ≠ -1 := fun he => by
        have := compareResult_nonneg.2 hab
        omega
      simp [compareResult_of_lt h, h, hab, hn.symm]
  · simp
  · rcases lt_or_ge b a with hab | hab
    · simp [compareResult_of_gt h, compareResult_of_gt hab, h, hab, not_lt_of_gt h]
    · have hn : compareResult a b ≠ 1 := fun he => by
        have := compareResult_nonpos.2 hab
        omega
      simp [compareResult_of_gt h, h, hab, hn.symm]

@[simp] lemma sign_compareResult (a b : α) : (compareResult a b).sign = compareResult a b := by
  unfold compareResult
  split
  · rfl
  · split <;> rfl

lemma compareResult_map [LinearOrder β] {f : α → β} (hf : ∀ x y, f x < f y ↔ x < y) (a b : α) :
    compareResult (f a) (f b) = compareResult a b := by
  simp [compareResult, hf]

end LinearOrder

/-- The laws an ordered index needs of its comparator on the values it holds. -/
structure PreorderOn (cmp : α → α → Int) (A : Set α) : Prop where
  antisymm : ∀ a ∈ A, ∀ b ∈ A, (cmp b a).sign = -(cmp a b).sign
  trans : ∀ a ∈ A, ∀ b ∈ A, ∀ c ∈ A, cmp a b ≤ 0 → cmp b c ≤ 0 → cmp a c ≤ 0
  congr : ∀ a ∈ A, ∀ b ∈ A, ∀ c ∈ A, cmp a b = 0 → (cmp a c < 0 ↔ cmp b c < 0)

/-- A comparator that compares the ranks of its arguments is a total preorder. -/
lemma PreorderOn.of_rank [LinearOrder β] (rank : α → β)
    (h : ∀ a ∈ A, ∀ b ∈ A, cmp a b = compareResult (rank a) (rank b)) : PreorderOn cmp A where
  antisymm a ha b hb := by
    rw [h a ha b hb, h b hb a ha, compareResult_swap, Int.sign_neg]
  trans a ha b hb c hc := by
    rw [h a ha b hb, h b hb c hc, h a ha c hc]
    simp only [compareResult_nonpos]
    exact le_trans
  congr a ha b hb c hc hab := by
    rw [h a ha b hb, compareResult_eq_zero] at hab
    rw [h a ha c hc, h b hb c hc, hab]

namespace PreorderOn

variable (P : PreorderOn cmp A) (ha : a ∈ A) (hb : b ∈ A) (hc : c ∈ A)
include P ha hb

lemma nonpos_swap : cmp b a ≤ 0 ↔ 0 ≤ cmp a b := by
  have h := P.antisymm a ha b hb
  rcases lt_trichotomy (cmp a b) 0 with hab | hab | hab <;>
    rcases lt_trichotomy (cmp b a) 0 with hba | hba | hba <;>
    simp_all [Int.sign_eq_one_of_pos, Int.sign_eq_neg_one_of_neg] <;> omega

include hc

lemma nonneg_trans (hab : 0 ≤ cmp a b) (hbc : 0 ≤ cmp b c) : 0 ≤ cmp a c := by
  rw [← P.nonpos_swap ha hc]
  exact P.trans c hc b hb a ha ((P.nonpos_swap hb hc).2 hbc) ((P.nonpos_swap ha hb).2 hab)

lemma sign_congr (hab : cmp a b = 0) : (cmp c a).sign = (cmp c b).sign := by
  have hba : cmp b a = 0 := by
    have h := P.antisymm a ha b hb
    rw [hab] at h
    simpa [Int.sign_eq_zero_iff_zero] using h
  have hl : cmp c a ≤ 0 ↔ cmp c b ≤ 0 :=
    ⟨fun h => P.trans c hc a ha b hb h hab.le, fun h => P.trans c hc b hb a ha h hba.le⟩
  have hg : 0 ≤ cmp c a ↔ 0 ≤ cmp c b :=
    ⟨fun h => P.nonneg_trans hc ha hb h hab.ge, fun h => P.nonneg_trans hc hb ha h hba.ge⟩
  rcases lt_trichotomy (cmp c a) 0 with h | h | h <;>
    rcases lt_trichotomy (cmp c b) 0 with h' | h' | h' <;>
    first
      | omega
      | simp [h, h', Int.sign_eq_one_of_pos, Int.sign_eq_neg_one_of_neg]

end PreorderOn

def lex : List Int → Int
  | [] => 0
  | rc :: rcs => if rc ≠ 0 then rc else lex rcs

lemma lex_append (xs ys : List Int) : lex (xs ++ ys) = if lex xs ≠ 0 then lex xs else lex ys := by
  induction xs with
  | nil => simp [lex]
  | cons x xs ih =>
    by_cases hx : x = 0
    · simpa [lex, hx] using ih
    · simp [lex, hx]

end Compare
