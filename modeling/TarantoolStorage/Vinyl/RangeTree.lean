import TarantoolStorage.Lib.PartialKey

/-! The search for the range an iterator starts from, `vy_range_tree_find_by_key`. -/
namespace TarantoolStorage.VyRange

open PartialKey List

variable {α : Type} [LinearOrder α]

inductive IteratorType where
  | eq | req | lt | le | ge | gt
  deriving DecidableEq

/-- Iterators that go from the last key to the first one. -/
def IteratorType.isReverse : IteratorType → Bool
  | .lt | .le | .req => true
  | _ => false

def IteratorType.Satisfies (type : IteratorType) (key k : List α) : Prop :=
  match type with
  | .eq | .req => compareKeys k key = 0
  | .lt => compareKeys k key < 0
  | .le => compareKeys k key ≤ 0
  | .ge => 0 ≤ compareKeys k key
  | .gt => 0 < compareKeys k key

/-- The tree in its order: the bounds between neighbouring ranges, full or partial keys of
`partCount` parts. The first range begins with minus infinity, the last has no end, and
`vy_range_tree_cmp` orders them. -/
structure RangeTree (α : Type) [LinearOrder α] where
  partCount : Nat
  bounds : List (List α)
  length_le : ∀ b ∈ bounds, b.length ≤ partCount
  sorted : bounds.Pairwise fun a b => compareKeys a b < 0

namespace RangeTree

variable {tree : RangeTree α} {i j n : Nat} {b k key : List α} {p : Nat → Bool}

def beginKey (tree : RangeTree α) : Nat → Option (List α)
  | 0 => none
  | i + 1 => tree.bounds[i]?

def endKey (tree : RangeTree α) (i : Nat) : Option (List α) := tree.bounds[i]?

def last (tree : RangeTree α) : Nat := tree.bounds.length

def Contains (tree : RangeTree α) (i : Nat) (k : List α) : Prop :=
  (∀ b ∈ tree.beginKey i, 0 ≤ compareKeys k b) ∧ ∀ b ∈ tree.endKey i, compareKeys k b < 0

/-- `vy_range_tree_key_cmp`. -/
def keyCmp (tree : RangeTree α) (key : List α) (i : Nat) : Int :=
  match tree.beginKey i with
  | none => 1
  | some b => compareKeys key b

/-- The greatest number below `n`. -/
def greatest (p : Nat → Bool) : Nat → Option Nat
  | 0 => none
  | n + 1 => if p n then some n else greatest p n

/-- The least range with `begin == key`, or the previous one if there is none. -/
def psearch (tree : RangeTree α) (key : List α) : Option Nat :=
  ((range (tree.last + 1)).find? fun i => tree.keyCmp key i = 0).or
    (greatest (fun i => tree.keyCmp key i > 0) (tree.last + 1))

/-- The greatest range with `begin == key`, or the next one if there is none. -/
def nsearch (tree : RangeTree α) (key : List α) : Option Nat :=
  (greatest (fun i => tree.keyCmp key i = 0) (tree.last + 1)).or
    ((range (tree.last + 1)).find? fun i => tree.keyCmp key i < 0)

/-- `vy_range_tree_find_by_key`. -/
def findByKey (tree : RangeTree α) (type : IteratorType) (key : List α) : Nat :=
  if key = [] then if type.isReverse then tree.last else 0
  else if type.isReverse then
    match tree.nsearch key with
    | some i => if (tree.beginKey i).isSome ∧ tree.keyCmp key i ≠ 0 then i - 1 else i
    | none => tree.last
  else
    match tree.psearch key with
    | some i =>
      if (tree.beginKey i).isSome ∧ key.length < tree.partCount ∧ tree.keyCmp key i = 0 then i - 1
      else i
    | none => 0

lemma greatest_eq_some (h : greatest p n = some i) : i < n ∧ p i ∧ ∀ j, i < j → j < n → ¬ p j := by
  induction n with
  | zero => cases h
  | succ n ih =>
    rw [greatest] at h
    split_ifs at h with hp
    · cases h
      exact ⟨by omega, hp, fun j hj hn => by omega⟩
    · obtain ⟨hn, hi, hl⟩ := ih h
      refine ⟨by omega, hi, fun j hj hn => ?_⟩
      obtain rfl | hjn : j = n ∨ j < n := by omega
      · exact hp
      · exact hl j hj hjn

lemma beginKey_lt {c : List α} (hij : i < j) (hi : tree.beginKey i = some b)
    (hj : tree.beginKey j = some c) : compareKeys b c < 0 := by
  obtain _ | i := i
  · cases hi
  obtain _ | j := j
  · cases hj
  obtain ⟨hi', rfl⟩ := List.getElem?_eq_some_iff.mp hi
  obtain ⟨hj', rfl⟩ := List.getElem?_eq_some_iff.mp hj
  exact pairwise_iff_getElem.mp tree.sorted i j hi' hj' (by omega)

lemma keyCmp_eq (h : tree.beginKey i = some b) : tree.keyCmp key i = compareKeys key b := by
  rw [keyCmp, h]

lemma beginKey_of_keyCmp_le (h : tree.keyCmp key i ≤ 0) : ∃ b, tree.beginKey i = some b := by
  rw [keyCmp] at h
  split at h
  · omega
  · exact ⟨_, ‹_›⟩

lemma exists_beginKey (hi : j < i) (h : i ≤ tree.last) : ∃ b, tree.beginKey i = some b := by
  obtain _ | i := i
  · omega
  exact ⟨_, getElem?_eq_getElem h⟩

lemma length_beginKey_le (h : tree.beginKey i = some b) : b.length ≤ tree.partCount := by
  obtain _ | i := i
  · cases h
  exact tree.length_le b (mem_of_getElem? h)

lemma keyCmp_neg_of_lt (hi : i < j) (hj : j ≤ tree.last) (h : tree.keyCmp key i ≤ 0)
    (h0 : tree.keyCmp key i < 0 ∨ tree.keyCmp key j ≠ 0) : tree.keyCmp key j < 0 := by
  obtain ⟨b, hb⟩ := beginKey_of_keyCmp_le h
  obtain ⟨c, hc⟩ := exists_beginKey hi hj
  have hbc := beginKey_lt hi hb hc
  rw [keyCmp_eq hb] at h h0
  rw [keyCmp_eq hc] at h0 ⊢
  by_contra hn
  obtain h0 | h0 := h0
  · exact hn (compareKeys_trans h0 hbc)
  · have hs := compareKeys_swap key c
    have := compareKeys_trans hbc (c := key) (by omega)
    have := compareKeys_swap key b
    omega

/-- Behind a bound above the key there are only keys above it. -/
lemma compareKeys_pos_of_contains (hk : k.length = tree.partCount) (hc : tree.Contains i k)
    (h : tree.keyCmp key i < 0) : 0 < compareKeys k key := by
  obtain ⟨b, hb⟩ := beginKey_of_keyCmp_le h.le
  rw [keyCmp_eq hb] at h
  have hs := compareKeys_swap key b
  have hkb := hc.1 b hb
  obtain h0 | hpo : compareKeys k b = 0 ∨ 0 < compareKeys k b := by omega
  · have hp := prefix_of_compareKeys (a := b) (b := k) (by rw [compareKeys_swap, h0]; rfl)
      (hk ▸ length_beginKey_le hb)
    rw [compareKeys_of_start hp (by omega)]
    omega
  · have hbk := compareKeys_swap k b
    have := compareKeys_trans h (c := k) (by omega)
    have := compareKeys_swap k key
    omega

lemma compareKeys_neg_of_contains (hc : tree.Contains j k) (hij : j < i)
    (hb : tree.beginKey i = some b) : compareKeys k b < 0 := by
  obtain ⟨e, he⟩ : ∃ e, tree.beginKey (j + 1) = some e := by
    obtain _ | i := i
    · omega
    obtain ⟨hi, -⟩ := List.getElem?_eq_some_iff.mp hb
    exact ⟨_, getElem?_eq_getElem (by omega)⟩
  have hk := hc.2 e he
  obtain rfl | hl : j + 1 = i ∨ j + 1 < i := by omega
  · rw [he] at hb
    exact Option.some.inj hb ▸ hk
  · exact compareKeys_trans hk (beginKey_lt hl he hb)

lemma compareKeys_neg_of_keyCmp (hc : tree.Contains j k) (hij : j < i)
    (h : 0 < tree.keyCmp key i) (hi : i ≤ tree.last) : compareKeys k key < 0 := by
  obtain ⟨b, hb⟩ := exists_beginKey hij hi
  rw [keyCmp_eq hb] at h
  have hs := compareKeys_swap key b
  exact compareKeys_trans (compareKeys_neg_of_contains hc hij hb) (by omega)

/-- Reverse iterators: the ranges behind the one found have only keys above the search key. -/
lemma reverse_complete {type : IteratorType} (ht : type.isReverse) (hn : key ≠ [])
    (hk : k.length = tree.partCount) (hj : j ≤ tree.last) (hc : tree.Contains j k)
    (h : tree.findByKey type key < j) : 0 < compareKeys k key := by
  refine compareKeys_pos_of_contains hk hc ?_
  rw [findByKey, if_neg hn, if_pos ht] at h
  split at h
  case h_2 => omega
  case h_1 i hi =>
    rw [nsearch] at hi
    cases he : greatest (fun i => tree.keyCmp key i = 0) (tree.last + 1) with
    | some m =>
      rw [he] at hi
      cases hi
      obtain ⟨-, h0, hl⟩ := greatest_eq_some he
      simp only [decide_eq_true_eq] at h0 hl
      rw [if_neg (by simp [h0])] at h
      exact keyCmp_neg_of_lt h hj h0.le (.inr (hl j h (by omega)))
    | none =>
      rw [he, Option.none_or] at hi
      have h0 : tree.keyCmp key i < 0 := by simpa using find?_some hi
      obtain ⟨b, hb⟩ := beginKey_of_keyCmp_le h0.le
      rw [if_pos ⟨by simp [hb], h0.ne⟩] at h
      obtain rfl | hij : i = j ∨ i < j := by omega
      · exact h0
      · exact keyCmp_neg_of_lt hij hj h0.le (.inl h0)

/-- Forward iterators: the ranges before the one found have only keys below the search key. -/
lemma forward_complete {type : IteratorType} (ht : type.isReverse = false) (hn : key ≠ [])
    (hc : tree.Contains j k) (h : j < tree.findByKey type key) : compareKeys k key < 0 := by
  rw [findByKey, if_neg hn, ht, if_neg (by simp)] at h
  split at h
  case h_2 => omega
  case h_1 i hi =>
    rw [psearch] at hi
    cases he : (range (tree.last + 1)).find? fun i => tree.keyCmp key i = 0 with
    | some m =>
      rw [he] at hi
      cases hi
      obtain ⟨h0, hm, hl⟩ := find?_range_eq_some.mp he
      simp only [decide_eq_true_eq, mem_range, Bool.not_eq_true', decide_eq_false_iff_not]
        at h0 hm hl
      obtain ⟨b, hb⟩ := beginKey_of_keyCmp_le h0.le
      split_ifs at h with hf
      · -- the previous range: its bound is below the key
        have hp : 0 < tree.keyCmp key (i - 1) := by
          by_contra hle
          have := keyCmp_neg_of_lt (show i - 1 < i by omega) (by omega) (not_lt.mp hle)
            (.inl (lt_of_le_of_ne (not_lt.mp hle) (hl _ (by omega))))
          omega
        exact compareKeys_neg_of_keyCmp hc h hp (by omega)
      · -- a full key that the bound begins
        have hk := compareKeys_neg_of_contains hc h hb
        have hfu : tree.partCount ≤ key.length := by
          by_contra hlt
          exact hf ⟨by simp [hb], by omega, h0⟩
        rw [keyCmp_eq hb] at h0
        have hs : compareKeys b key = 0 := by rw [compareKeys_swap, h0]; rfl
        have hp := prefix_of_compareKeys hs ((length_beginKey_le hb).trans hfu)
        have hbk := compareKeys_swap k b
        have hkk := compareKeys_of_start hp (c := k) (by omega)
        have := compareKeys_swap k key
        omega
    | none =>
      rw [he, Option.none_or] at hi
      obtain ⟨hm, h0, -⟩ := greatest_eq_some hi
      simp only [decide_eq_true_eq] at h0
      rw [if_neg (by omega)] at h
      exact compareKeys_neg_of_keyCmp hc h h0 (by omega)

/-- No range that an iterator would have visited before the one found has a key it looks for. -/
theorem findByKey_complete (tree : RangeTree α) (type : IteratorType) (key k : List α) (j : Nat)
    (hk : k.length = tree.partCount) (hj : j ≤ tree.last) (hc : tree.Contains j k)
    (hs : type.Satisfies key k) :
    if type.isReverse then j ≤ tree.findByKey type key else tree.findByKey type key ≤ j := by
  obtain rfl | hn := eq_or_ne key []
  · cases ht : type.isReverse <;> simp [findByKey, ht, hj]
  split
  case isTrue ht =>
    by_contra h
    have := reverse_complete ht hn hk hj hc (by omega)
    cases type <;> simp only [IteratorType.Satisfies, IteratorType.isReverse] at hs ht <;>
      first | omega | cases ht
  case isFalse ht =>
    by_contra h
    have := forward_complete (by simpa using ht) hn hc (by omega)
    cases type <;> simp only [IteratorType.Satisfies, IteratorType.isReverse] at hs ht <;>
      first | omega | exact ht trivial

/-- The first range that begins with the partial key `[10]` has the keys it begins. -/
theorem findByKey_complete_partial_key :
    let tree : RangeTree Nat := ⟨2, [[10], [11, 5]], by decide, by decide⟩
    tree.Contains 1 [10, 7] ∧ tree.findByKey .ge [10] ≤ 1 := by
  intro tree
  have hc : tree.Contains 1 [10, 7] := by
    constructor <;> decide
  have hs : 0 ≤ compareKeys [10, 7] [10] := by decide
  exact ⟨hc, findByKey_complete tree .ge [10] [10, 7] 1 rfl (by decide) hc hs⟩

end RangeTree

end TarantoolStorage.VyRange
