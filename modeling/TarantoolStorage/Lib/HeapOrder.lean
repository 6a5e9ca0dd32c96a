import Mathlib

/-!
The order of a binary heap in an array, with one place at which it may fail. Only the parents from
`c` on are looked at, so that a heap can be built from its end.
-/
namespace HeapOrder

variable {κ : Type} {le : κ → κ → Prop} {h : Nat → κ} {size c p j : Nat}

def parent (i : Nat) : Nat := (i - 1) / 2

lemma parent_lt {i : Nat} (hi : 0 < i) : parent i < i := by
  unfold parent
  omega

/-- No parent is above its child. -/
def Ordered (le : κ → κ → Prop) (h : Nat → κ) (size c : Nat) : Prop :=
  ∀ i, 0 < i → i < size → c ≤ parent i → le (h (parent i)) (h i)

/-- The order may fail at `p`, but its children are not below its parent. -/
structure Hole (le : κ → κ → Prop) (h : Nat → κ) (size c p : Nat) : Prop where
  edge : ∀ i, 0 < i → i < size → c ≤ parent i → i ≠ p → parent i ≠ p → le (h (parent i)) (h i)
  grand : ∀ i, 0 < i → i < size → parent i = p → 0 < p → c ≤ parent p → le (h (parent p)) (h i)

/-- The order may fail only between `p` and its parent. -/
structure Risen (le : κ → κ → Prop) (h : Nat → κ) (size c p : Nat) : Prop extends
    Hole le h size c p where
  below : ∀ i, 0 < i → i < size → parent i = p → le (h p) (h i)

lemma Risen.ordered (r : Risen le h size c p)
    (hp : 0 < p → c ≤ parent p → le (h (parent p)) (h p)) : Ordered le h size c := by
  intro i hi hs hc
  by_cases hip : i = p
  · subst hip
    exact hp hi hc
  by_cases hpp : parent i = p
  · rw [hpp]
    exact r.below i hi hs hpp
  · exact r.edge i hi hs hc hip hpp

lemma Ordered.congr {h' : Nat → κ} (o : Ordered le h size c) (he : ∀ i < size, h' i = h i) :
    Ordered le h' size c := by
  intro i hi hs hc
  rw [he i hs, he _ ((parent_lt hi).trans hs)]
  exact o i hi hs hc

/-- An element is added at the end. -/
lemma Ordered.push {h' : Nat → κ} (o : Ordered le h size 0) (he : ∀ i < size, h' i = h i) :
    Risen le h' (size + 1) 0 size := by
  have hn {i} (hi : 0 < i) (hs : i < size + 1) (hp : parent i = size) : False := by
    have := parent_lt hi
    omega
  exact ⟨⟨fun i hi _ hc hne _ => o.congr he i hi (by omega) hc,
    fun _ hi hs hp _ _ => (hn hi hs hp).elim⟩, fun _ hi hs hp => (hn hi hs hp).elim⟩

section

variable [IsTrans κ le]

/-- An element is changed, and the last ones may be taken away. -/
lemma Ordered.hole {h' : Nat → κ} {size' : Nat} (o : Ordered le h size 0) (hs : size' ≤ size)
    (he : ∀ i < size', i ≠ p → h' i = h i) : Hole le h' size' 0 p where
  edge := by
    intro i hi his hc hip hpp
    rw [he i his hip, he _ ((parent_lt hi).trans his) hpp]
    exact o i hi (his.trans_le hs) hc
  grand := by
    intro i hi his hip hp hc
    have hlt : p < i := hip ▸ parent_lt hi
    have hlp := parent_lt hp
    rw [he i his hlt.ne', he _ (by omega) hlp.ne]
    exact trans_of le (o p hp (by omega) hc) (hip ▸ o i hi (his.trans_le hs) (Nat.zero_le _))

/-- One round upwards. -/
lemma Risen.swap (r : Risen le h size 0 p) (hp : 0 < p) (hs : p < size)
    (hl : le (h p) (h (parent p))) :
    Risen le (h ∘ Equiv.swap p (parent p)) size 0 (parent p) := by
  have hlt := parent_lt hp
  have hpp (hq : 0 < parent p) : le (h (parent (parent p))) (h (parent p)) :=
    r.edge _ hq (hlt.trans hs) (Nat.zero_le _) hlt.ne ((parent_lt hq).trans hlt).ne
  have hc {i} (hi : 0 < i) (his : i < size) (hip : i ≠ p) (hpi : parent i = parent p) :
      le (h (parent p)) (h i) := hpi ▸ r.edge i hi his (Nat.zero_le _) hip (hpi ▸ hlt.ne)
  refine ⟨⟨?_, ?_⟩, ?_⟩
  · intro i hi his _ hiq hpq
    have hip : i ≠ p := fun he => hpq (he ▸ rfl)
    simp only [Function.comp, Equiv.swap_apply_of_ne_of_ne hip hiq]
    by_cases hpi : parent i = p
    · rw [hpi, Equiv.swap_apply_left]
      exact r.grand i hi his hpi hp (Nat.zero_le _)
    · rw [Equiv.swap_apply_of_ne_of_ne hpi hpq]
      exact r.edge i hi his (Nat.zero_le _) hip hpi
  · intro i hi his hpi hq _
    have hg := parent_lt hq
    simp only [Function.comp]
    rw [Equiv.swap_apply_of_ne_of_ne (by omega) (by omega)]
    by_cases hip : i = p
    · rw [hip, Equiv.swap_apply_left]
      exact hpp hq
    · rw [Equiv.swap_apply_of_ne_of_ne hip (hpi ▸ parent_lt hi).ne']
      exact trans_of le (hpp hq) (hc hi his hip hpi)
  · intro i hi his hpi
    simp only [Function.comp, Equiv.swap_apply_right]
    by_cases hip : i = p
    · rw [hip, Equiv.swap_apply_left]
      exact hl
    · rw [Equiv.swap_apply_of_ne_of_ne hip (hpi ▸ parent_lt hi).ne']
      exact trans_of le hl (hc hi his hip hpi)

end

/-- One round downwards, to the least child. -/
lemma Hole.swap (o : Hole le h size c p) (hj : 0 < j) (hs : j < size) (hp : parent j = p)
    (hc : c ≤ p) (hm : ∀ i, 0 < i → i < size → parent i = p → le (h j) (h i)) :
    Hole le (h ∘ Equiv.swap p j) size c j := by
  have hlt : p < j := hp ▸ parent_lt hj
  refine ⟨?_, ?_⟩
  · intro i hi his hci hij hpj
    simp only [Function.comp, Equiv.swap_apply_def, if_neg hij, if_neg hpj]
    by_cases hip : i = p
    · subst hip
      rw [if_pos rfl, if_neg (parent_lt hi).ne]
      exact o.grand j hj hs hp hi hci
    rw [if_neg hip]
    split_ifs with hpp
    · exact hm i hi his hpp
    · exact o.edge i hi his hci hip hpp
  · intro i hi his hpi _ _
    have hji : j < i := hpi ▸ parent_lt hi
    simp only [Function.comp, hp, Equiv.swap_apply_left]
    rw [Equiv.swap_apply_of_ne_of_ne (by omega) (by omega)]
    exact hpi ▸ o.edge i hi his (by omega) (by omega) (by omega)

/-- The first element is least. -/
lemma Ordered.root [IsTrans κ le] (o : Ordered le h size 0) (hr : ∀ x, le x x) (i : Nat)
    (hi : i < size) : le (h 0) (h i) := by
  induction i using Nat.strong_induction_on with
  | _ i ih =>
    rcases Nat.eq_zero_or_pos i with rfl | h0
    · exact hr _
    · have hlt := parent_lt h0
      exact trans_of le (ih _ hlt (hlt.trans hi)) (o i h0 hi (Nat.zero_le _))

end HeapOrder
