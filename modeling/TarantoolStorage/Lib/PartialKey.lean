import TarantoolStorage.Lib.Compare

/-! Keys made of parts, compared as far as both go. A key with fewer parts equals all the keys it
begins. -/
namespace PartialKey

open Compare

variable {α : Type} [LinearOrder α] {a b c : List α}

def compareKeys : List α → List α → Int
  | a :: as, b :: bs => if a = b then compareKeys as bs else compareResult a b
  | _, _ => 0

lemma compareKeys_swap (a b : List α) : compareKeys b a = -compareKeys a b := by
  fun_induction compareKeys a b with
  | case1 a as bs ih => rw [compareKeys, if_pos rfl, ih]
  | case2 a as b bs hn =>
    rw [compareKeys, if_neg fun h => hn h.symm]
    exact compareResult_swap a b
  | case3 a b hc =>
    obtain _ | ⟨b, bs⟩ := b
    · simp [compareKeys]
    obtain _ | ⟨a, as⟩ := a
    · simp [compareKeys]
    · exact absurd rfl (hc a as b bs rfl)

lemma compareKeys_cons_neg {x y : α} :
    compareKeys (x :: a) (y :: b) < 0 ↔ x < y ∨ x = y ∧ compareKeys a b < 0 := by
  rw [compareKeys]
  split_ifs with h
  · simp [h]
  · simp [h, compareResult_neg]

lemma compareKeys_trans (ha : compareKeys a b < 0) (hb : compareKeys b c < 0) :
    compareKeys a c < 0 := by
  induction a generalizing b c with
  | nil => simp [compareKeys] at ha
  | cons x a ih =>
    obtain _ | ⟨y, b⟩ := b
    · simp [compareKeys] at ha
    obtain _ | ⟨z, c⟩ := c
    · simp [compareKeys] at hb
    rw [compareKeys_cons_neg] at ha hb ⊢
    obtain hx | ⟨rfl, ha⟩ := ha
    · obtain hy | ⟨rfl, -⟩ := hb
      · exact .inl (hx.trans hy)
      · exact .inl hx
    · obtain hy | ⟨rfl, hb⟩ := hb
      · exact .inl hy
      · exact .inr ⟨rfl, ih ha hb⟩

lemma compareKeys_of_start (hp : a <+: b) (h : compareKeys a c ≠ 0) :
    compareKeys b c = compareKeys a c := by
  induction a generalizing b c with
  | nil => simp [compareKeys] at h
  | cons x a ih =>
    obtain ⟨s, rfl⟩ := hp
    obtain _ | ⟨z, c⟩ := c
    · simp [compareKeys] at h
    simp only [List.cons_append, compareKeys] at h ⊢
    split_ifs at h ⊢
    · exact ih (List.prefix_append a s) h
    · rfl

lemma prefix_of_compareKeys (h : compareKeys a b = 0) (hl : a.length ≤ b.length) : a <+: b := by
  induction a generalizing b with
  | nil => exact List.nil_prefix
  | cons x a ih =>
    obtain _ | ⟨y, b⟩ := b
    · simp at hl
    simp only [compareKeys] at h
    split_ifs at h with hx
    · subst hx
      exact (List.prefix_cons_inj x).mpr (ih h (by simpa using hl))
    · exact absurd (compareResult_eq_zero.mp h) hx

end PartialKey
