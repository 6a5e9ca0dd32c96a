import TarantoolStorage.Vinyl.Compaction

/-! Deferred DELETEs of secondary indexes: the calls of the handler, and the flags in the output. -/
namespace TarantoolStorage.Vinyl.WriteIterator

open Schema List History Terminal

variable {V F K : Type*} {S : Schema V F K} {κ : Type*} [LinearOrder κ] {it : WriteIterator κ S}
  {stmts : List S.Stmt} {j : Nat}

/-- The call of the handler in `vy_write_iterator_deferred_delete`: the overwritten statement and
the one that overwrote it. -/
def processed (deferred : Option S.Terminal) : S.Stmt → List (S.Terminal × S.Terminal)
  | .upsert _ => []
  | .terminal stmt => if stmt.isDelete then [] else deferred.toList.map (stmt, ·)

/-- The calls in the loop of `vy_write_iterator_build_history`. -/
def handlerCalls (it : WriteIterator κ S) :
    HistoryBuilder S → List S.Stmt → List (S.Terminal × S.Terminal)
  | _, [] => []
  | builder, stmt :: stmts =>
    (if it.isPrimary then processed builder.deferredDelete stmt else []) ++
      it.handlerCalls (it.buildStep builder stmt) stmts

/-- What a statement overwrites: the next older one that is not an UPSERT, if any. -/
def Overwrites (stmts : List S.Stmt) (stmt : S.Terminal) (old : Option S.Terminal) : Prop :=
  ∃ newer older, stmts = newer ++ .terminal stmt :: older ∧ (collect older).terminal = old

lemma overwrites_cons {first : S.Stmt} {stmt : S.Terminal} {old : Option S.Terminal} :
    Overwrites (first :: stmts) stmt old ↔
      first = .terminal stmt ∧ (collect stmts).terminal = old ∨ Overwrites stmts stmt old := by
  constructor
  · rintro ⟨_ | ⟨x, newer⟩, older, he, ho⟩
    · cases he
      exact .inl ⟨rfl, ho⟩
    · cases he
      exact .inr ⟨newer, older, rfl, ho⟩
  · rintro (⟨rfl, ho⟩ | ⟨newer, older, rfl, ho⟩)
    · exact ⟨[], stmts, rfl, ho⟩
    · exact ⟨first :: newer, older, rfl, ho⟩

/-- The handler is called for the statement that is remembered and for those that come to be. -/
lemma mem_handlerCalls {builder : HistoryBuilder S} {old new : S.Terminal} :
    (old, new) ∈ it.handlerCalls builder stmts ↔ it.isPrimary = true ∧ old.isDelete = false ∧
      (builder.deferredDelete = some new ∧ (collect stmts).terminal = some old ∨
        new.deferredDelete = true ∧ Overwrites stmts new (some old)) := by
  induction stmts generalizing builder with
  | nil => simp [handlerCalls, collect, Overwrites]
  | cons stmt stmts ih =>
    rw [handlerCalls, mem_append, ih, overwrites_cons, (buildStep_flags _ _).2]
    cases hp : it.isPrimary with
    | false => simp
    | true =>
      cases stmt with
      | upsert u => simp [processed, deferDelete, collect]
      | terminal t =>
        simp only [processed, deferDelete, collect]
        by_cases hd : t.isDelete = true <;> by_cases hf : t.deferredDelete = true <;> grind

lemma handlerCalls_sublist (builder : HistoryBuilder S) :
    ((it.handlerCalls builder stmts).map fun call => Stmt.terminal call.1).Sublist stmts := by
  induction stmts generalizing builder with
  | nil => exact Sublist.refl _
  | cons stmt stmts ih =>
    have hf : ((if it.isPrimary then processed builder.deferredDelete stmt else []).map
        fun call => Stmt.terminal call.1).Sublist [stmt] := by
      cases stmt with
      | upsert u => simp [processed]
      | terminal t =>
        by_cases hd : t.isDelete = true <;> cases builder.deferredDelete <;>
          cases it.isPrimary <;> simp [processed, hd]
    rw [handlerCalls, map_append]
    exact hf.append (ih _)

lemma finishMerge_flagged {deferred : Option S.Terminal} {isFirstInsert : Bool}
    {prev : Option S.Stmt} {stmt : S.Stmt} {t : S.Terminal} (hf : t.deferredDelete = true)
    (h : finishMerge deferred isFirstInsert prev stmt = some (.terminal t)) :
    stmt = .terminal t ∧ deferred.map lsn = some t.lsn := by
  cases stmt with
  | upsert u => cases h
  | terminal t' =>
    simp only [finishMerge] at h
    by_cases hl : deferred.map lsn = some t'.lsn
    · rw [if_pos hl] at h
      cases prev <;> cases isFirstInsert <;> cases t' <;> cases h <;>
        first | exact ⟨rfl, hl⟩ | cases hf
    · rw [if_neg hl] at h
      cases prev <;> cases isFirstInsert <;> cases t' <;> cases h <;> cases hf

lemma mem_of_lastDeferred {stmt : S.Terminal}
    (h : it.lastDeferred (it.buildHistory stmts) = some stmt) : .terminal stmt ∈ stmts := by
  obtain ⟨-, -, -, -, newer, older, rfl, -⟩ := lastDeferred_eq_some h
  simp

section Output

variable [DecidableEq K]

lemma made_origin (hso : Descending stmts) (j : Nat) : ∀ m ∈ it.made stmts j,
    ∃ stmt prev, finishMerge (it.lastDeferred (it.buildHistory stmts))
        (it.buildHistory stmts).isFirstInsert prev stmt = some m ∧
      ∃ s ∈ stmts, stmt.lsn = s.lsn ∧ (stmt = s ∨ s.isUpsert = true) := by
  refine made_induction (P := fun _ m => ∃ stmt prev,
    finishMerge (it.lastDeferred (it.buildHistory stmts)) (it.buildHistory stmts).isFirstInsert
      prev stmt = some m ∧ ∃ s ∈ stmts, stmt.lsn = s.lsn ∧ (stmt = s ∨ s.isUpsert = true))
      hso ?_ ?_ j
  · exact fun _ _ h => h
  intro i stmt m _ hme hm
  obtain ⟨s, hs, ho⟩ := hme.origin
  exact ⟨stmt, _, hm, s, (mem_filter.mp (mem_part_of_mem_summary hs)).1, ho⟩

/-- In the output the flag is on the last seen statement with a deferred DELETE only. -/
lemma mem_writeKey_iff (hso : Descending stmts) {stmt : S.Terminal}
    (hfl : stmt.deferredDelete = true) : .terminal stmt ∈ it.writeKey stmts ↔
      it.lastDeferred (it.buildHistory stmts) = some stmt := by
  constructor
  · intro h
    obtain ⟨tail, he, ht⟩ := it.writeKey_eq stmts
    rw [he, mem_append] at h
    rcases h with h | h
    · obtain ⟨s, prev, hf, origin, hme, hls, ho⟩ := made_origin hso _ _ h
      obtain ⟨rfl, hd⟩ := finishMerge_flagged hfl hf
      obtain ⟨last, hl, hl'⟩ := Option.map_eq_some_iff.mp hd
      obtain rfl : origin = .terminal last :=
        eq_of_lsn hso hme (mem_of_lastDeferred hl) (hls.symm.trans hl'.symm)
      rcases ho with ho | hu
      · cases ho
        exact hl
      · cases hu
    · rcases ht with rfl | ⟨last, hl, rfl⟩
      · cases h
      · cases mem_singleton.mp h
        exact hl
  · intro h
    obtain ⟨-, -, -, hfi, -⟩ := lastDeferred_eq_some h
    unfold writeKey
    dsimp only
    rw [h]
    dsimp only
    split
    next hl =>
      obtain ⟨m, hm, hls⟩ := Option.map_eq_some_iff.mp hl
      have hma : m ∈ it.made stmts 0 := mem_of_getLast? hm
      obtain ⟨s, prev, hf, origin, hme, hs, ho⟩ := made_origin hso _ _ hma
      have ha := (adjusted_of_finishMerge hf).lsn
      obtain rfl : origin = .terminal stmt :=
        eq_of_lsn hso hme (mem_of_lastDeferred h) (by rw [← hs, ← ha, hls]; rfl)
      rcases ho with rfl | hu
      · have hk : m = .terminal stmt := by
          rw [h, hfi] at hf
          cases prev <;> cases stmt <;> simp_all [finishMerge, deferredDelete]
        exact hk ▸ hma
      · cases hu
    · simp

end Output

/-- A compaction of a primary index with a read view at 4, not of the last level. -/
def withView (sources : List (List (Nat × keyOnSecond.Stmt)))
    (h : ∀ source ∈ sources, ∀ e ∈ source, 0 < e.2.lsn ∧ e.2.lsn ≤ int64Max) :
    WriteIterator Nat keyOnSecond where
  isPrimary := true
  isLastLevel := false
  sources := sources
  vlsns := [4]
  lsn_pos := fun source hs e he => (h source hs e he).1
  lsn_le := fun source hs e he => (h source hs e he).2
  vlsns_sorted := by decide
  vlsns_le := by decide

/-- A REPLACE that waits for its deferred DELETE. -/
def flagged : keyOnSecond.Terminal := .replace 5 true false ⟨[9, 2], rfl, true⟩

def flaggedOverInsert : WriteIterator Nat keyOnSecond :=
  withView [[(1, .terminal flagged)], [(1, .terminal (.insert 3 ⟨[7, 2], rfl, true⟩))]] (by decide)

/-- The REPLACE over an UPSERT, and what was written compacted once more. -/
def flaggedOverUpsert : WriteIterator Nat keyOnSecond :=
  withView [[(1, .terminal flagged), (1, .upsert (upsertOf 3 []))]] (by decide)

def compactedAgain : WriteIterator Nat keyOnSecond :=
  withView [flaggedOverUpsert.output] (by decide)

end TarantoolStorage.Vinyl.WriteIterator
