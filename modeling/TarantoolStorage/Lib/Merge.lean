import Mathlib

/-! Merging sorted lists by taking the least head again and again, and working through
the merged list key by key. -/
namespace TarantoolStorage.Merge

open List

variable {α : Type*}

section Sources

variable (less : α → α → Bool) {sources rest : List (List α)}

/-- Take the least head; of heads that are not told apart the first list's is taken. -/
def popLeast : List (List α) → Option (α × List (List α))
  | [] => none
  | [] :: sources => popLeast sources
  | (a :: xs) :: sources =>
    match popLeast sources with
    | none => some (a, xs :: sources)
    | some (b, rest) =>
      if less b a then some (b, (a :: xs) :: rest) else some (a, xs :: sources)

/-- At most `n` elements of the merged lists. -/
def mergeUpTo : Nat → List (List α) → List α
  | 0, _ => []
  | n + 1, sources =>
    match popLeast less sources with
    | none => []
    | some (a, rest) => a :: mergeUpTo n rest

def merge (sources : List (List α)) : List α :=
  mergeUpTo less sources.flatten.length sources

variable {less}

lemma popLeast_eq_none (h : popLeast less sources = none) : sources.flatten = [] := by
  induction sources with
  | nil => rfl
  | cons xs sources ih =>
    cases xs with
    | nil => exact ih h
    | cons a xs =>
      unfold popLeast at h
      split at h
      · cases h
      · split at h <;> cases h

lemma popLeast_perm {a : α} (h : popLeast less sources = some (a, rest)) :
    sources.flatten.Perm (a :: rest.flatten) := by
  induction sources generalizing a rest with
  | nil => cases h
  | cons xs sources ih =>
    cases xs with
    | nil => exact ih h
    | cons b xs =>
      unfold popLeast at h
      split at h
      · cases h
        rfl
      · rename_i c rest' hp
        split at h
        · cases h
          have := (ih hp).append_left (b :: xs)
          exact this.trans perm_middle
        · cases h
          rfl

lemma mergeUpTo_perm {n : Nat} (hn : sources.flatten.length ≤ n) :
    (mergeUpTo less n sources).Perm sources.flatten := by
  induction n generalizing sources with
  | zero =>
    rw [eq_nil_of_length_eq_zero (Nat.le_zero.mp hn)]
    rfl
  | succ n ih =>
    unfold mergeUpTo
    split
    · rename_i hno
      rw [popLeast_eq_none hno]
    · rename_i a rest hpo
      have hp := popLeast_perm hpo
      have hl := hp.length_eq
      rw [length_cons] at hl
      exact ((ih (by omega)).cons a).trans hp.symm

lemma merge_perm (sources : List (List α)) : (merge less sources).Perm sources.flatten :=
  mergeUpTo_perm (Nat.le_refl _)

/-- Every list is in order, and elements of different lists are told apart. -/
structure Mergeable (less : α → α → Bool) (R : α → α → Prop) (sources : List (List α)) : Prop where
  sorted : ∀ xs ∈ sources, xs.Pairwise R
  apart : sources.Pairwise fun xs ys => ∀ a ∈ xs, ∀ b ∈ ys, if less b a then R b a else R a b

variable {R : α → α → Prop}

lemma popLeast_mem {a : α} (h : popLeast less sources = some (a, rest)) :
    (∃ xs ∈ sources, a ∈ xs) ∧ ∀ ys ∈ rest, ∃ xs ∈ sources, ys.Sublist xs := by
  induction sources generalizing a rest with
  | nil => cases h
  | cons xs sources ih =>
    cases xs with
    | nil =>
      obtain ⟨⟨xs, hx, ha⟩, hr⟩ := ih h
      refine ⟨⟨xs, by simp [hx], ha⟩, fun ys hy => ?_⟩
      obtain ⟨zs, hz, hs⟩ := hr ys hy
      exact ⟨zs, by simp [hz], hs⟩
    | cons b xs =>
      have ht : (∃ zs ∈ (b :: xs) :: sources, b ∈ zs) ∧
          ∀ ys ∈ xs :: sources, ∃ zs ∈ (b :: xs) :: sources, ys.Sublist zs := by
        refine ⟨⟨b :: xs, by simp, by simp⟩, fun ys hy => ?_⟩
        rcases mem_cons.mp hy with rfl | hy
        · exact ⟨b :: ys, by simp, sublist_cons_self b ys⟩
        · exact ⟨ys, by simp [hy], Sublist.refl ys⟩
      unfold popLeast at h
      split at h
      · cases h
        exact ht
      · rename_i c rest' hp
        split at h
        · cases h
          obtain ⟨⟨zs, hz, ha⟩, hr⟩ := ih hp
          refine ⟨⟨zs, by simp [hz], ha⟩, fun ys hy => ?_⟩
          rcases mem_cons.mp hy with rfl | hy
          · exact ⟨b :: xs, by simp, Sublist.refl _⟩
          · obtain ⟨ws, hw, hs⟩ := hr ys hy
            exact ⟨ws, by simp [hw], hs⟩
        · cases h
          exact ht

lemma Mergeable.tail {xs : List α} {sources : List (List α)}
    (h : Mergeable less R (xs :: sources)) : Mergeable less R sources where
  sorted := fun ys hy => h.sorted ys (by simp [hy])
  apart := (pairwise_cons.mp h.apart).2

/-- A list in front that is told apart from all the others. -/
lemma Mergeable.cons {xs : List α} {sources : List (List α)} (h : Mergeable less R sources)
    (hx : xs.Pairwise R)
    (ha : ∀ ys ∈ sources, ∀ a ∈ xs, ∀ b ∈ ys, if less b a then R b a else R a b) :
    Mergeable less R (xs :: sources) where
  sorted := by
    intro ys hy
    rcases mem_cons.mp hy with rfl | hy
    · exact hx
    · exact h.sorted ys hy
  apart := pairwise_cons.mpr ⟨ha, h.apart⟩

/-- What is taken comes before all that is left, and what is left can be merged. -/
lemma Mergeable.popLeast (ht : ∀ a b c, R a b → R b c → R a c) {a : α}
    (hm : Mergeable less R sources) (h : popLeast less sources = some (a, rest)) :
    Mergeable less R rest ∧ ∀ x ∈ rest.flatten, R a x := by
  induction sources generalizing a rest with
  | nil => cases h
  | cons xs sources ih =>
    have hcr := (pairwise_cons.mp hm.apart).1
    cases xs with
    | nil => exact ih hm.tail h
    | cons b xs =>
      obtain ⟨hb, hxs⟩ := pairwise_cons.mp (hm.sorted (b :: xs) (by simp))
      have hle : Mergeable less R (xs :: sources) :=
        hm.tail.cons hxs fun ys hys x hx y hy => hcr ys hys x (by simp [hx]) y hy
      unfold Merge.popLeast at h
      split at h
      · rename_i hn
        cases h
        refine ⟨hle, fun x hx => ?_⟩
        rw [flatten_cons, popLeast_eq_none hn, append_nil] at hx
        exact hb x hx
      · rename_i c rest' hp
        obtain ⟨hr, hc⟩ := ih hm.tail hp
        obtain ⟨⟨zs, hz, hcz⟩, hs⟩ := popLeast_mem hp
        have hbc := hcr zs hz b (by simp) c hcz
        split at h
        · rename_i hl
          cases h
          rw [if_pos hl] at hbc
          refine ⟨hr.cons (hm.sorted (b :: xs) (by simp)) fun ys hys x hx y hy => ?_,
            fun x hx => ?_⟩
          · obtain ⟨ws, hw, hs⟩ := hs ys hys
            exact hcr ws hw x hx y (hs.subset hy)
          · rw [flatten_cons, mem_append, mem_cons] at hx
            rcases hx with (rfl | hx) | hx
            · exact hbc
            · exact ht _ _ _ hbc (hb x hx)
            · exact hc x hx
        · rename_i hl
          cases h
          rw [if_neg hl] at hbc
          refine ⟨hle, fun x hx => ?_⟩
          rw [flatten_cons, mem_append] at hx
          rcases hx with hx | hx
          · exact hb x hx
          · rcases mem_cons.mp ((popLeast_perm hp).subset hx) with rfl | hx
            · exact hbc
            · exact ht _ _ _ hbc (hc x hx)

lemma Mergeable.pairwise_merge (ht : ∀ a b c, R a b → R b c → R a c)
    (hm : Mergeable less R sources) : (merge less sources).Pairwise R := by
  have hu : ∀ (n : Nat) (sources : List (List α)), Mergeable less R sources →
      sources.flatten.length ≤ n → (mergeUpTo less n sources).Pairwise R := by
    intro n
    induction n with
    | zero =>
      intro sources _ _
      exact Pairwise.nil
    | succ n ih =>
      intro sources hm hn
      unfold mergeUpTo
      split
      · exact Pairwise.nil
      · rename_i a rest hp
        obtain ⟨hr, ha⟩ := hm.popLeast ht hp
        have hl := (popLeast_perm hp).length_eq
        rw [length_cons] at hl
        have hle : rest.flatten.length ≤ n := by omega
        refine pairwise_cons.mpr ⟨fun x hx => ?_, ih rest hr hle⟩
        exact ha x ((mergeUpTo_perm hle).subset hx)
  exact hu _ _ hm (Nat.le_refl _)

end Sources

section Keys

variable {κ β : Type*} [LinearOrder κ] {k : κ} {entries : List (κ × β)}

def ofKey (k : κ) (entries : List (κ × β)) : List β :=
  (entries.filter fun e => e.1 = k).map Prod.snd

/-- Rewrite the values of each key, for at most `n` keys. -/
def eachKey (f : List β → List β) : Nat → List (κ × β) → List (κ × β)
  | 0, _ => []
  | _, [] => []
  | n + 1, (k, b) :: rest =>
    (f (b :: (rest.takeWhile fun e => e.1 = k).map Prod.snd)).map (Prod.mk k) ++
      eachKey f n (rest.dropWhile fun e => e.1 = k)

lemma ofKey_append (k : κ) (xs ys : List (κ × β)) :
    ofKey k (xs ++ ys) = ofKey k xs ++ ofKey k ys := by
  simp [ofKey]

lemma ofKey_of_all (h : ∀ e ∈ entries, e.1 = k) : ofKey k entries = entries.map Prod.snd := by
  rw [ofKey, filter_eq_self.mpr (by simpa using h)]

lemma ofKey_of_none (h : ∀ e ∈ entries, e.1 ≠ k) : ofKey k entries = [] := by
  rw [ofKey, filter_eq_nil_iff.mpr (by simpa using h), map_nil]

lemma ofKey_perm {xs ys : List (κ × β)} (h : xs.Perm ys) : (ofKey k xs).Perm (ofKey k ys) :=
  (h.filter _).map _

/-- Behind the entries of the first key there are none of it. -/
lemma ne_of_mem_dropWhile (hs : entries.Pairwise fun a b => a.1 ≤ b.1)
    (hk : ∀ e ∈ entries, k ≤ e.1) : ∀ e ∈ entries.dropWhile fun e => e.1 = k, e.1 ≠ k := by
  induction entries with
  | nil =>
    intro e he
    cases he
  | cons a entries ih =>
    obtain ⟨ha, hs⟩ := pairwise_cons.mp hs
    intro e he
    by_cases hak : a.1 = k
    · rw [dropWhile_cons_of_pos (by simpa using hak)] at he
      exact ih hs (fun e he => hk e (by simp [he])) e he
    · rw [dropWhile_cons_of_neg (by simpa using hak)] at he
      have hl : k < a.1 := lt_of_le_of_ne (hk a (by simp)) (Ne.symm hak)
      rcases mem_cons.mp he with rfl | he
      · exact hak
      · exact (lt_of_lt_of_le hl (ha e he)).ne'

lemma ofKey_eachKey_of_ne {f : List β → List β} {n : Nat} (h : ∀ e ∈ entries, e.1 ≠ k) :
    ofKey k (eachKey f n entries) = [] := by
  induction n generalizing entries with
  | zero => rfl
  | succ n ih =>
    cases entries with
    | nil => rfl
    | cons a rest =>
      obtain ⟨l, b⟩ := a
      have hl : l ≠ k := h (l, b) (by simp)
      rw [eachKey, ofKey_append, ih fun e he => h e (by
        simp [(dropWhile_sublist _).subset he]), append_nil]
      exact ofKey_of_none (by simpa using fun _ _ => hl)

/-- In a list that is sorted by keys, the values of every key are rewritten as a whole. -/
lemma ofKey_eachKey {f : List β → List β} (hf : f [] = []) {n : Nat} (hn : entries.length ≤ n)
    (hso : entries.Pairwise fun a b => a.1 ≤ b.1) (k : κ) :
    ofKey k (eachKey f n entries) = f (ofKey k entries) := by
  induction n generalizing entries with
  | zero =>
    rw [eq_nil_of_length_eq_zero (Nat.le_zero.mp hn)]
    exact hf.symm
  | succ n ih =>
    cases entries with
    | nil => exact hf.symm
    | cons a rest =>
      obtain ⟨l, b⟩ := a
      obtain ⟨hfi, hr⟩ := pairwise_cons.mp hso
      have hb := ne_of_mem_dropWhile hr hfi
      have hs := takeWhile_append_dropWhile (p := fun e : κ × β => e.1 = l) (l := rest)
      have ht : ∀ e ∈ rest.takeWhile fun e => e.1 = l, e.1 = l :=
        fun e he => by simpa using all_eq_true.mp all_takeWhile e he
      rw [eachKey, ofKey_append]
      by_cases hk : l = k
      · subst hk
        rw [ofKey_eachKey_of_ne hb, append_nil, ofKey_of_all (by simp), map_map]
        have hv : ofKey l ((l, b) :: rest) =
            b :: (rest.takeWhile fun e => e.1 = l).map Prod.snd := by
          conv_lhs => rw [← hs]
          rw [← cons_append, ofKey_append, ofKey_of_none hb, append_nil,
            ofKey_of_all (by simpa using ht), map_cons]
        rw [hv]
        exact map_id _
      · have hl : (rest.dropWhile fun e => e.1 = l).length ≤ n := by
          have hle := (dropWhile_sublist (l := rest) fun e => decide (e.1 = l)).length_le
          rw [length_cons] at hn
          omega
        rw [ih hl (hr.sublist (dropWhile_sublist _)),
          ofKey_of_none (by simpa using fun _ _ => hk), nil_append]
        have ho : ofKey k ((l, b) :: rest.takeWhile fun e => e.1 = l) = [] := by
          refine ofKey_of_none fun e he => ?_
          rcases mem_cons.mp he with rfl | he
          · exact hk
          · rw [ht e he]
            exact hk
        conv_rhs => rw [← hs]
        rw [← cons_append, ofKey_append, ho, nil_append]

end Keys

end TarantoolStorage.Merge
