import TarantoolStorage.Vinyl.WriteIterator

/-! The histories that the write iterator builds for each read view. -/
namespace TarantoolStorage.Vinyl

open Schema List History

variable {V F K : Type*} {S : Schema V F K} {κ : Type*} [LinearOrder κ]

lemma History.collect_concat (stmts : List S.Stmt) (stmt : S.Stmt) : collect (stmts ++ [stmt]) =
      if (collect stmts).terminal.isSome then collect stmts
      else match stmt with
        | .terminal t => { collect stmts with terminal := some t }
        | .upsert u => { collect stmts with upserts := (collect stmts).upserts ++ [u] } := by
  induction stmts with
  | nil => cases stmt <;> rfl
  | cons first stmts ih =>
    cases first with
    | terminal t => rfl
    | upsert u =>
      simp only [cons_append, collect, ih]
      by_cases hs : (collect stmts).terminal.isSome = true
      · simp [hs]
      · cases stmt <;> simp [hs]

namespace WriteIterator

variable (it : WriteIterator κ S) {j : Nat} {stmts : List S.Stmt} {stmt : S.Stmt}

@[simp] lemma getVlsn_zero : it.getVlsn 0 = int64Max := rfl

lemma getVlsn_of_ge (h : it.readViews.length ≤ j) : it.getVlsn j = -1 := by
  unfold getVlsn
  rw [getElem?_eq_none h]

lemma getVlsn_of_lt (h : j < it.readViews.length) : it.getVlsn j = (it.readViews[j] : Int) := by
  unfold getVlsn
  rw [getElem?_eq_getElem h]

lemma lt_of_le_getVlsn {lsn : Nat} (h : (lsn : Int) ≤ it.getVlsn j) : j < it.readViews.length := by
  by_contra hg
  rw [it.getVlsn_of_ge (Nat.not_lt.mp hg)] at h
  omega

lemma readViews_pairwise : it.readViews.Pairwise fun a b => b ≤ a := by
  refine pairwise_cons.mpr ⟨?_, pairwise_reverse.mpr it.vlsns_sorted⟩
  intro vlsn hv
  exact it.vlsns_le vlsn (mem_reverse.mp hv)

lemma getVlsn_anti {k : Nat} (h : j ≤ k) : it.getVlsn k ≤ it.getVlsn j := by
  rcases Nat.lt_or_ge k it.readViews.length with hk | hk
  · have hj : j < it.readViews.length := by omega
    rw [it.getVlsn_of_lt hk, it.getVlsn_of_lt hj]
    rcases Nat.eq_or_lt_of_le h with rfl | hl
    · exact le_rfl
    · exact_mod_cast pairwise_iff_getElem.mp it.readViews_pairwise j k hj hk hl
  · rw [it.getVlsn_of_ge hk]
    rcases Nat.lt_or_ge j it.readViews.length with hj | hj
    · rw [it.getVlsn_of_lt hj]
      omega
    · rw [it.getVlsn_of_ge hj]

/-- The statements that are visible to a read view but not to the next older one. -/
def part (j : Nat) (stmts : List S.Stmt) : List S.Stmt :=
  stmts.filter fun stmt => decide (it.getVlsn (j + 1) < stmt.lsn ∧ (stmt.lsn : Int) ≤ it.getVlsn j)

abbrev InView (j : Nat) (stmt : S.Stmt) : Prop :=
  it.getVlsn (j + 1) < stmt.lsn ∧ (stmt.lsn : Int) ≤ it.getVlsn j

/-- Whether a DELETE of the read view is skipped: optimization 1. -/
def skipsDelete (j : Nat) : Bool :=
  it.isLastLevel && decide (it.getVlsn (j + 1) < 0)

def summary (j : Nat) (stmts : List S.Stmt) : WriteHistory S :=
  let history := collect (it.part j stmts)
  { oldest := if it.skipsDelete j then history.terminal.filter fun stmt => !stmt.isDelete
      else history.terminal
    upserts := history.upserts.reverse }

variable {it}

lemma part_concat_of_mem (h : it.InView j stmt) :
    it.part j (stmts ++ [stmt]) = it.part j stmts ++ [stmt] := by
  simp [part, h]

lemma part_concat_of_not_mem (h : ¬ it.InView j stmt) :
    it.part j (stmts ++ [stmt]) = it.part j stmts := by
  simp [part, h]

lemma part_eq_nil (h : ∀ stmt ∈ stmts, it.getVlsn j < stmt.lsn) : it.part j stmts = [] := by
  refine filter_eq_nil_iff.mpr fun stmt hs => ?_
  have := h stmt hs
  simp only [decide_eq_true_eq]
  omega

lemma summary_concat_of_not_mem (h : ¬ it.InView j stmt) :
    it.summary j (stmts ++ [stmt]) = it.summary j stmts := by
  unfold summary
  rw [part_concat_of_not_mem h]

lemma summary_concat_of_isSome (h : (collect (it.part j stmts)).terminal.isSome) :
    it.summary j (stmts ++ [stmt]) = it.summary j stmts := by
  by_cases hm : it.InView j stmt
  · unfold summary
    rw [part_concat_of_mem hm, collect_concat, if_pos h]
  · exact summary_concat_of_not_mem hm

lemma summary_concat_delete (hm : it.InView j stmt)
    (hn : (collect (it.part j stmts)).terminal = none) (hd : stmt.isDelete = true)
    (hs : it.skipsDelete j = true) : it.summary j (stmts ++ [stmt]) = it.summary j stmts := by
  unfold summary
  rw [part_concat_of_mem hm, collect_concat, hn]
  cases stmt with
  | terminal t =>
    have ht : t.isDelete = true := hd
    simp [hs, hn, ht]
  | upsert u => cases hd

lemma summary_concat_push (hm : it.InView j stmt) (hn : (collect (it.part j stmts)).terminal = none)
    (hk : ¬ (stmt.isDelete = true ∧ it.skipsDelete j = true)) :
    it.summary j (stmts ++ [stmt]) = (it.summary j stmts).push stmt := by
  unfold summary
  rw [part_concat_of_mem hm, collect_concat, hn]
  cases stmt with
  | terminal t =>
    have ht : ¬ (t.isDelete = true ∧ it.skipsDelete j = true) := hk
    by_cases hs : it.skipsDelete j = true
    · have : t.isDelete = false := by simpa [hs] using ht
      simp [WriteHistory.push, hs, this]
    · simp [WriteHistory.push, hs]
  | upsert u => simp [WriteHistory.push, hn]

lemma skipViews_fields (lsn n : Nat) (builder : HistoryBuilder S) :
    (it.skipViews lsn n builder).histories = builder.histories ∧
      (it.skipViews lsn n builder).isFirstInsert = builder.isFirstInsert ∧
      (it.skipViews lsn n builder).deferredDelete = builder.deferredDelete := by
  induction n generalizing builder with
  | zero => exact ⟨rfl, rfl, rfl⟩
  | succ n ih =>
    unfold skipViews
    split
    · exact ih _
    · exact ⟨rfl, rfl, rfl⟩

lemma skipViews_spec (lsn n : Nat) (builder : HistoryBuilder S)
    (hn : it.readViews.length ≤ n + builder.currentRvI)
    (hr : builder.currentRvLsn = it.getVlsn builder.currentRvI)
    (hu : builder.mergeUntilLsn = it.getVlsn (builder.currentRvI + 1))
    (hl : (lsn : Int) ≤ builder.currentRvLsn) :
    let found := it.skipViews lsn n builder
    builder.currentRvI ≤ found.currentRvI ∧ found.currentRvLsn = it.getVlsn found.currentRvI ∧
      found.mergeUntilLsn = it.getVlsn (found.currentRvI + 1) ∧
      (lsn : Int) ≤ it.getVlsn found.currentRvI ∧
      it.getVlsn (found.currentRvI + 1) < lsn ∧
      ∀ j, builder.currentRvI ≤ j → j < found.currentRvI → (lsn : Int) ≤ it.getVlsn (j + 1) := by
  induction n generalizing builder with
  | zero =>
    have := it.lt_of_le_getVlsn (hr ▸ hl)
    omega
  | succ n ih =>
    unfold skipViews
    split
    · rename_i hs
      have hne := ih (it.nextView builder) (by simp [nextView]; omega)
        (by simp [nextView]; exact hu) rfl (by simp [nextView]; exact hs)
      obtain ⟨hle, hr', hu', hg, hlt, hb⟩ := hne
      simp only [nextView] at hle hb
      refine ⟨by simp [nextView]; omega, hr', hu', hg, hlt, fun j hj hjf => ?_⟩
      rcases Nat.eq_or_lt_of_le hj with rfl | hj
      · rw [← hu]
        exact hs
      · exact hb j hj hjf
    · rename_i hst
      refine ⟨le_rfl, hr, hu, hr ▸ hl, ?_, fun j hj hjf => by omega⟩
      rw [← hu]
      omega

/-- The loop after some statements: the histories are those of these, and every read view before the
current one is fully built. -/
structure Built (it : WriteIterator κ S) (builder : HistoryBuilder S) (stmts : List S.Stmt) :
    Prop where
  length : builder.histories.length = it.readViews.length
  histories : ∀ j < it.readViews.length, builder.histories[j]? = some (it.summary j stmts)
  until_eq : builder.mergeUntilLsn = it.getVlsn (builder.currentRvI + 1)
  above : ∀ stmt ∈ stmts, it.getVlsn (builder.currentRvI + 1) < stmt.lsn
  closed : ∀ j < builder.currentRvI, (collect (it.part j stmts)).terminal.isSome ∨
    ∃ stmt ∈ stmts, (stmt.lsn : Int) ≤ it.getVlsn (j + 1)
  /-- the current read view is open, or the rest of the key is skipped -/
  current : builder.currentRvLsn = it.getVlsn builder.currentRvI ∧
      (collect (it.part builder.currentRvI stmts)).terminal = none ∨
    builder.currentRvLsn = -1 ∧ it.getVlsn (builder.currentRvI + 1) < 0 ∧
      (collect (it.part builder.currentRvI stmts)).terminal.isSome

lemma startHistory_built : it.Built it.startHistory [] where
  length := by simp [startHistory]
  histories := by
    intro j hj
    have hs : it.summary j [] = .empty := by
      simp [summary, part, collect, WriteHistory.empty]
    simp [startHistory, hj, hs]
  until_eq := rfl
  above := by simp
  closed := by
    intro j hj
    simp [startHistory] at hj
  current := .inl ⟨rfl, rfl⟩

lemma isSome_collect_concat (stmt : S.Stmt) (h : (collect (it.part j stmts)).terminal.isSome) :
    (collect (it.part j (stmts ++ [stmt]))).terminal.isSome := by
  by_cases hm : it.InView j stmt
  · rw [part_concat_of_mem hm, collect_concat, if_pos h]
    exact h
  · rw [part_concat_of_not_mem hm]
    exact h

/-- The loop on its way to a further statement: the current read view is the one that sees it, and
nothing but the statement is left to be added. -/
structure Opened (it : WriteIterator κ S) (found : HistoryBuilder S) (stmts : List S.Stmt)
    (stmt : S.Stmt) : Prop where
  length : found.histories.length = it.readViews.length
  histories : ∀ j < it.readViews.length, found.histories[j]? = some (it.summary j stmts)
  current_eq : found.currentRvLsn = it.getVlsn found.currentRvI
  until_eq : found.mergeUntilLsn = it.getVlsn (found.currentRvI + 1)
  inView : it.InView found.currentRvI stmt
  terminal_eq : (collect (it.part found.currentRvI stmts)).terminal = none
  above : ∀ s ∈ stmts ++ [stmt], it.getVlsn (found.currentRvI + 1) < s.lsn
  closed : ∀ j < found.currentRvI, (collect (it.part j (stmts ++ [stmt]))).terminal.isSome ∨
    ∃ s ∈ stmts ++ [stmt], (s.lsn : Int) ≤ it.getVlsn (j + 1)

section Step

variable {builder : HistoryBuilder S} {stmts : List S.Stmt} {stmt : S.Stmt}

section

variable (h : it.Built builder stmts)
include h

lemma Built.closed_concat {j : Nat} (hj : j < builder.currentRvI) :
    (collect (it.part j (stmts ++ [stmt]))).terminal.isSome ∨
      ∃ s ∈ stmts ++ [stmt], (s.lsn : Int) ≤ it.getVlsn (j + 1) := by
  rcases h.closed j hj with hso | ⟨s, hs, hl⟩
  · exact .inl (isSome_collect_concat stmt hso)
  · exact .inr ⟨s, by simp [hs], hl⟩

/-- A statement that is skipped belongs to a read view that is fully built. -/
lemma Built.skip (ho : ∀ s ∈ stmts, stmt.lsn < s.lsn)
    (hsk : builder.currentRvLsn < (stmt.lsn : Int)) : it.Built builder (stmts ++ [stmt]) := by
  have ha : it.getVlsn (builder.currentRvI + 1) < stmt.lsn := by
    rcases h.current with ⟨hr, _⟩ | ⟨_, hne, _⟩
    · have := it.getVlsn_anti (Nat.le_add_right builder.currentRvI 1)
      omega
    · omega
  have hb : ∀ j, it.InView j stmt → (collect (it.part j stmts)).terminal.isSome := by
    rintro j ⟨hl, hle⟩
    have hc (hj : j < builder.currentRvI) : (collect (it.part j stmts)).terminal.isSome := by
      refine (h.closed j hj).resolve_right ?_
      rintro ⟨s, hs, hsl⟩
      have := ho s hs
      omega
    rcases Nat.lt_trichotomy j builder.currentRvI with hj | rfl | hj
    · exact hc hj
    · rcases h.current with ⟨hr, _⟩ | ⟨_, _, hso⟩
      · omega
      · exact hso
    · have := it.getVlsn_anti (show builder.currentRvI + 1 ≤ j from hj)
      omega
  refine ⟨h.length, fun j hj => ?_, h.until_eq, ?_, fun j hj => h.closed_concat hj, ?_⟩
  · rw [h.histories j hj]
    by_cases hm : it.InView j stmt
    · rw [summary_concat_of_isSome (hb j hm)]
    · rw [summary_concat_of_not_mem hm]
  · intro s hs
    rcases mem_append.mp hs with hs | hs
    · exact h.above s hs
    · rw [mem_singleton.mp hs]
      exact ha
  · rcases h.current with ⟨hr, hn⟩ | ⟨hr, hne, hso⟩
    · refine .inl ⟨hr, ?_⟩
      rwa [part_concat_of_not_mem (by omega)]
    · exact .inr ⟨hr, hne, isSome_collect_concat stmt hso⟩

lemma Built.skipViews (ho : ∀ s ∈ stmts, stmt.lsn < s.lsn)
    (hle : ¬ builder.currentRvLsn < (stmt.lsn : Int)) :
    it.Opened (it.skipViews stmt.lsn it.readViews.length builder) stmts stmt := by
  rcases h.current with ⟨hr, hn⟩ | ⟨hr, _, _⟩
  · obtain ⟨hi, hr', hu, hg, hl, hb⟩ := skipViews_spec stmt.lsn
      it.readViews.length builder (by omega) hr h.until_eq (by omega)
    have hh : (it.skipViews stmt.lsn it.readViews.length builder).histories = builder.histories :=
      (skipViews_fields _ _ _).1
    refine ⟨hh ▸ h.length, hh ▸ h.histories, hr', hu, ⟨hl, hg⟩, ?_, fun s hs => ?_, fun j hj => ?_⟩
    · rcases Nat.eq_or_lt_of_le hi with he | hgt
      · rw [← he]
        exact hn
      · rw [part_eq_nil]
        · rfl
        · intro s hs
          have := it.getVlsn_anti (show builder.currentRvI + 1 ≤ _ from hgt)
          have := h.above s hs
          omega
    · rcases mem_append.mp hs with hs | hs
      · have := ho s hs
        omega
      · rw [mem_singleton.mp hs]
        exact hl
    · rcases Nat.lt_or_ge j builder.currentRvI with hl | hg
      · exact h.closed_concat hl
      · exact .inr ⟨stmt, by simp, hb j hg hj⟩
  · omega

end

section

variable {found : HistoryBuilder S} (h : it.Opened found stmts stmt)
include h

lemma Opened.histories_of_ne (hj : j < it.readViews.length) (hne : found.currentRvI ≠ j) :
    found.histories[j]? = some (it.summary j (stmts ++ [stmt])) := by
  obtain ⟨hlt, hg⟩ := h.inView
  rw [summary_concat_of_not_mem, h.histories j hj]
  rintro ⟨hj1, hj2⟩
  rcases Nat.lt_or_gt_of_ne hne with hgt | hlt
  · have := it.getVlsn_anti (show found.currentRvI + 1 ≤ j from hgt)
    omega
  · have := it.getVlsn_anti (show j + 1 ≤ found.currentRvI from hlt)
    omega

lemma Opened.terminal_concat :
    (collect (it.part found.currentRvI (stmts ++ [stmt]))).terminal.isSome = !stmt.isUpsert := by
  rw [part_concat_of_mem h.inView, collect_concat, h.terminal_eq]
  cases stmt with
  | terminal t => rfl
  | upsert u => simp [h.terminal_eq, Stmt.isUpsert]

/-- Optimization 1: the rest of the key is skipped. -/
lemma Opened.skipDelete (hd : stmt.isDelete = true)
    (hsk : it.skipsDelete found.currentRvI = true) :
    it.Built { found with currentRvLsn := -1 } (stmts ++ [stmt]) := by
  have hng : it.getVlsn (found.currentRvI + 1) < 0 := by
    simp only [skipsDelete, Bool.and_eq_true, decide_eq_true_eq] at hsk
    exact hsk.2
  refine ⟨h.length, fun j hj => ?_, h.until_eq, h.above, h.closed, .inr ⟨rfl, hng, ?_⟩⟩
  · by_cases hne : found.currentRvI = j
    · rw [← hne, summary_concat_delete h.inView h.terminal_eq hd hsk]
      exact h.histories _ (hne ▸ hj)
    · exact h.histories_of_ne hj hne
  · rw [h.terminal_concat]
    cases stmt with
    | terminal t => rfl
    | upsert u => cases hd

section Push

variable (hk : ¬ (stmt.isDelete = true ∧ it.skipsDelete found.currentRvI = true))
include hk

lemma Opened.push (hj : j < it.readViews.length) :
    (found.histories.modify found.currentRvI fun hist => hist.push stmt)[j]? =
      some (it.summary j (stmts ++ [stmt])) := by
  rw [getElem?_modify]
  by_cases hne : found.currentRvI = j
  · subst hne
    rw [h.histories _ hj, summary_concat_push h.inView h.terminal_eq hk]
    simp
  · rw [h.histories_of_ne hj hne]
    simp [hne]

lemma Opened.pushUpsert (hu : stmt.isUpsert = true) :
    it.Built { found with
      histories := found.histories.modify found.currentRvI fun hist => hist.push stmt }
      (stmts ++ [stmt]) := by
  refine ⟨by simpa using h.length, fun j hj => h.push hk hj, h.until_eq, h.above, h.closed,
    .inl ⟨h.current_eq, ?_⟩⟩
  have ht := h.terminal_concat
  rw [hu] at ht
  simpa using ht

/-- Optimization 2: the read view is fully built. -/
lemma Opened.pushTerminal (hu : ¬ stmt.isUpsert = true) :
    it.Built (it.nextView { found with
      histories := found.histories.modify found.currentRvI fun hist => hist.push stmt })
      (stmts ++ [stmt]) := by
  have ht := h.terminal_concat
  rw [Bool.not_eq_true] at hu
  rw [hu] at ht
  refine ⟨by simpa [nextView] using h.length, fun j hj => h.push hk hj, rfl, fun s hs => ?_,
    fun j hj => ?_, .inl ⟨h.until_eq, ?_⟩⟩
  · have := it.getVlsn_anti (Nat.le_add_right (found.currentRvI + 1) 1)
    have := h.above s hs
    simp only [nextView]
    omega
  · rcases Nat.lt_succ_iff_lt_or_eq.mp hj with hj | rfl
    · exact h.closed j hj
    · exact .inl ht
  · simp only [nextView]
    rw [part_eq_nil h.above]
    rfl

end Push

end

lemma Built.step (h : it.Built builder stmts) (ho : ∀ s ∈ stmts, stmt.lsn < s.lsn) :
    it.Built (it.buildStep builder stmt) (stmts ++ [stmt]) := by
  unfold buildStep
  dsimp only
  split
  · rename_i hsp
    obtain ⟨hl, hh, hu, ha, hc, hcu⟩ := h.skip ho hsp
    exact ⟨hl, hh, hu, ha, hc, hcu⟩
  · rename_i hle
    -- the flags of the builder play no role for the histories
    have hfl (flag : Bool) (deferred : Option S.Terminal) :
        it.Built { builder with isFirstInsert := flag, deferredDelete := deferred } stmts :=
      ⟨h.length, h.histories, h.until_eq, h.above, h.closed, h.current⟩
    have hf := (hfl (stmt.isInsert it.isPrimary) (if it.isPrimary = true then
      deferDelete builder.deferredDelete stmt else builder.deferredDelete)).skipViews ho hle
    generalize it.skipViews stmt.lsn it.readViews.length _ = found at hf ⊢
    have hsk : (it.isLastLevel && decide (found.mergeUntilLsn < 0)) =
        it.skipsDelete found.currentRvI := by
      rw [hf.until_eq]
      rfl
    rw [Bool.and_assoc, hsk]
    by_cases hd : (stmt.isDelete && it.skipsDelete found.currentRvI) = true
    · rw [if_pos hd]
      rw [Bool.and_eq_true] at hd
      exact hf.skipDelete hd.1 hd.2
    · rw [if_neg hd]
      rw [Bool.and_eq_true] at hd
      split
      · exact hf.pushUpsert hd ‹_›
      · exact hf.pushTerminal hd ‹_›

end Step

lemma buildHistory_built (it : WriteIterator κ S) (hso : stmts.Pairwise fun a b => b.lsn < a.lsn) :
    it.Built (it.buildHistory stmts) stmts := by
  induction stmts using List.reverseRecOn with
  | nil => exact startHistory_built
  | append_singleton stmts stmt ih =>
    rw [pairwise_append] at hso
    unfold buildHistory
    rw [foldl_append]
    exact (ih hso.1).step fun s hs => hso.2.2 s hs stmt (by simp)

lemma buildStep_flags (builder : HistoryBuilder S) (stmt : S.Stmt) :
    (it.buildStep builder stmt).isFirstInsert = stmt.isInsert it.isPrimary ∧
      (it.buildStep builder stmt).deferredDelete =
        if it.isPrimary then deferDelete builder.deferredDelete stmt
        else builder.deferredDelete := by
  have hf (builder : HistoryBuilder S) :
      (it.skipViews stmt.lsn it.readViews.length builder).isFirstInsert = builder.isFirstInsert ∧
        (it.skipViews stmt.lsn it.readViews.length builder).deferredDelete =
          builder.deferredDelete :=
    (skipViews_fields _ _ _).2
  unfold buildStep
  dsimp only
  generalize (if it.isPrimary = true then deferDelete builder.deferredDelete stmt
    else builder.deferredDelete) = deferred
  split
  · exact ⟨rfl, rfl⟩
  · split
    · exact hf _
    · split
      · exact hf _
      · exact hf _

/-- Whether the key begins with an INSERT is decided by the oldest statement. -/
lemma isFirstInsert_buildHistory (stmts : List S.Stmt) (stmt : S.Stmt) :
    (it.buildHistory (stmts ++ [stmt])).isFirstInsert = stmt.isInsert it.isPrimary := by
  unfold buildHistory
  rw [foldl_append]
  exact (buildStep_flags _ _).1

lemma deferredDelete_concat (stmts : List S.Stmt) (stmt : S.Stmt) :
    (it.buildHistory (stmts ++ [stmt])).deferredDelete = if it.isPrimary then
      deferDelete (it.buildHistory stmts).deferredDelete stmt
      else (it.buildHistory stmts).deferredDelete := by
  unfold buildHistory
  rw [foldl_append]
  exact (buildStep_flags _ _).2

/-- The statement with a deferred DELETE that is left in the end: behind it there are
only UPSERTs. -/
lemma deferredDelete_buildHistory_iff {stmt : S.Terminal} :
    (it.buildHistory stmts).deferredDelete = some stmt ↔
      it.isPrimary = true ∧ stmt.deferredDelete = true ∧ ∃ newer older,
        stmts = newer ++ .terminal stmt :: older ∧ ∀ s ∈ older, s.isUpsert = true := by
  constructor
  · intro h
    induction stmts using List.reverseRecOn with
    | nil => cases h
    | append_singleton stmts last ih =>
      rw [deferredDelete_concat] at h
      split at h
      next hp =>
        cases last with
        | upsert u =>
          obtain ⟨-, hf, newer, older, rfl, hu⟩ := ih h
          refine ⟨hp, hf, newer, older ++ [.upsert u], by simp, ?_⟩
          exact forall_mem_append.mpr ⟨hu, forall_mem_singleton.mpr rfl⟩
        | terminal t =>
          simp only [deferDelete] at h
          split at h
          next hf =>
            cases h
            exact ⟨hp, hf, stmts, [], rfl, by simp⟩
          · cases h
      next hs => exact absurd (ih h).1 hs
  · rintro ⟨hp, hf, newer, older, rfl, hu⟩
    induction older using List.reverseRecOn with
    | nil => simp [deferredDelete_concat, hp, deferDelete, hf]
    | append_singleton older last ih =>
      obtain ⟨ho, hl⟩ := forall_mem_append.mp hu
      rw [← cons_append, ← append_assoc, deferredDelete_concat, if_pos hp]
      cases last with
      | terminal t => cases hl (.terminal t) (by simp)
      | upsert u => exact ih ho

end WriteIterator

end TarantoolStorage.Vinyl
