import TarantoolStorage.Vinyl.ViewMerge

/-! Dump and compaction preserve what is read from each of the read views. -/
namespace TarantoolStorage.Vinyl

open Schema List History

variable {V F K : Type*} {S : Schema V F K} {κ : Type*} [LinearOrder κ]

/-- Statements newest first, as the heap supplies those of a key. -/
abbrev Descending (stmts : List S.Stmt) : Prop := stmts.Pairwise fun a b => b.lsn < a.lsn

lemma eq_of_lsn {stmts : List S.Stmt} (h : Descending stmts) {a b : S.Stmt} (ha : a ∈ stmts)
    (hb : b ∈ stmts) (hl : a.lsn = b.lsn) : a = b := by
  by_contra hne
  let distinct : S.Stmt → S.Stmt → Prop := fun a b => a.lsn ≠ b.lsn
  have : Std.Symm distinct := ⟨fun _ _ h => h.symm⟩
  have hd : stmts.Pairwise distinct := h.imp fun h => h.ne'
  exact hd.forall ha hb hne hl

/-- In the order of decreasing LSN, what lies under a bound comes after what is above. -/
lemma filter_lsn_le {stmts : List S.Stmt} (hso : Descending stmts)
    {low high : Int} (h : low ≤ high) :
    (stmts.filter fun s => decide ((s.lsn : Int) ≤ high)) =
      (stmts.filter fun s => decide (low < s.lsn ∧ (s.lsn : Int) ≤ high)) ++
        stmts.filter fun s => decide ((s.lsn : Int) ≤ low) := by
  induction stmts with
  | nil => rfl
  | cons s stmts ih =>
    obtain ⟨hs, hr⟩ := pairwise_cons.mp hso
    by_cases hl : (s.lsn : Int) ≤ low
    · have hn : (stmts.filter fun s => decide (low < s.lsn ∧ (s.lsn : Int) ≤ high)) = [] := by
        refine filter_eq_nil_iff.mpr fun t ht => ?_
        have := hs t ht
        simp only [decide_eq_true_eq]
        omega
      rw [filter_cons_of_pos (by simp; omega), filter_cons_of_neg (by simp; omega),
        filter_cons_of_pos (by simp; omega), ih hr, hn]
      rfl
    · rw [filter_cons_of_neg (p := fun s : S.Stmt => decide ((s.lsn : Int) ≤ low)) (by simp; omega)]
      by_cases hh : (s.lsn : Int) ≤ high
      · rw [filter_cons_of_pos (by simp; omega), filter_cons_of_pos (by simp; omega), ih hr]
        rfl
      · rw [filter_cons_of_neg (by simp; omega), filter_cons_of_neg (by simp; omega), ih hr]

variable [DecidableEq K]

lemma value_collect (stmts : List S.Stmt) (below : Option (Nat × S.Tuple)) :
    value stmts below = value ((collect stmts).upserts.map .upsert ++
      (collect stmts).terminal.toList.map .terminal) below ∧
    (KeepsAlong stmts below → KeepsAlong ((collect stmts).upserts.map .upsert ++
      (collect stmts).terminal.toList.map .terminal) below) := by
  induction stmts with
  | nil => exact ⟨rfl, id⟩
  | cons s stmts ih =>
    cases s with
    | terminal t => exact ⟨rfl, fun _ => trivial⟩
    | upsert u =>
      refine ⟨?_, fun h => ?_⟩
      · simp [value, ih.1, collect]
      · obtain ⟨hk, hr⟩ := h
        rw [ih.1] at hk
        exact ⟨hk, ih.2 hr⟩

lemma keepsAlong_of_terminal {xs : List S.Stmt} (h : ∃ x ∈ xs, x.isUpsert = false)
    (a b : Option (Nat × S.Tuple)) : KeepsAlong xs a → KeepsAlong xs b := by
  induction xs with
  | nil => exact id
  | cons x xs ih =>
    cases x with
    | terminal t => exact id
    | upsert u =>
      obtain ⟨x, hx, ht⟩ := h
      rcases mem_cons.mp hx with rfl | hx
      · cases ht
      · rintro ⟨hk, hr⟩
        rw [value_of_terminal ⟨x, hx, ht⟩ a b] at hk
        exact ⟨hk, ih ⟨x, hx, ht⟩ hr⟩

namespace WriteIterator

variable {it : WriteIterator κ S} {stmts : List S.Stmt} {j : Nat} {below : Option (Nat × S.Tuple)}

def seen (it : WriteIterator κ S) (stmts : List S.Stmt) (j : Nat) : List S.Stmt :=
  stmts.filter fun s => decide ((s.lsn : Int) ≤ it.getVlsn j)

omit [DecidableEq K] in
lemma seen_eq (hs : Descending stmts) (j : Nat) :
    it.seen stmts j = it.part j stmts ++ it.seen stmts (j + 1) :=
  filter_lsn_le hs (it.getVlsn_anti (Nat.le_add_right j 1))

/-- The history of a read view stands for its statements. On the last level a DELETE may be missing,
but nothing is below. -/
lemma value_summary (hsk : it.skipsDelete j = true → below = none) :
    value (stmtsOf (it.summary j stmts)) below = value (it.part j stmts) below ∧
      (KeepsAlong (it.part j stmts) below → KeepsAlong (stmtsOf (it.summary j stmts)) below) := by
  obtain ⟨hv, hk⟩ := value_collect (it.part j stmts) below
  unfold stmtsOf summary
  dsimp only
  rw [reverse_reverse]
  generalize collect (it.part j stmts) = history at hv hk ⊢
  by_cases hs : it.skipsDelete j = true
  · obtain rfl := hsk hs
    rw [if_pos hs]
    obtain ⟨upserts, terminal⟩ := history
    cases terminal with
    | none => exact ⟨hv.symm, hk⟩
    | some t =>
      by_cases hd : t.isDelete = true
      · have hb : value [Stmt.terminal t] none = none := version?_of_isDelete hd
        have hf : (some t).filter (fun stmt : S.Terminal => !stmt.isDelete) = none := by
          simp [hd]
        rw [hf]
        refine ⟨?_, fun h => ?_⟩
        · rw [hv, value_append, value_append]
          exact congrArg _ hb.symm
        · have := (keepsAlong_append (hk h)).1
          rw [show List.map Stmt.terminal (some t).toList = [Stmt.terminal t] from rfl, hb] at this
          simpa using this
      · have hf : (some t).filter (fun stmt : S.Terminal => !stmt.isDelete) = some t := by
          simp [hd]
        rw [hf]
        exact ⟨hv.symm, hk⟩
  · rw [if_neg hs]
    exact ⟨hv.symm, hk⟩

/-- The statements made for a read view and all the older ones. -/
def made (it : WriteIterator κ S) (stmts : List S.Stmt) (j : Nat) : List S.Stmt :=
  it.mergeViews (it.buildHistory stmts) ((it.buildHistory stmts).histories.drop j)

lemma made_of_ge (hs : Descending stmts) (hj : it.readViews.length ≤ j) : it.made stmts j = [] := by
  have hl := (it.buildHistory_built hs).length
  unfold made
  rw [drop_eq_nil_of_le (by omega)]
  rfl

lemma made_eq (hs : Descending stmts) (hj : j < it.readViews.length) : it.made stmts j =
      it.mergeView (it.buildHistory stmts) (it.made stmts (j + 1)) (it.summary j stmts) := by
  have hb := it.buildHistory_built hs
  have hl : j < (it.buildHistory stmts).histories.length := by
    rw [hb.length]
    exact hj
  have hg : (it.buildHistory stmts).histories[j] = it.summary j stmts := by
    have := hb.histories j hj
    rwa [getElem?_eq_getElem hl, Option.some.injEq] at this
  unfold made
  rw [drop_eq_getElem_cons hl, hg]
  rfl

omit [DecidableEq K] in
lemma mem_part_of_mem_summary {s : S.Stmt} (h : s ∈ stmtsOf (it.summary j stmts)) :
    s ∈ it.part j stmts := by
  have hc : ∀ P : List S.Stmt, (∀ u ∈ (collect P).upserts, .upsert u ∈ P) ∧
      ∀ t ∈ (collect P).terminal, .terminal t ∈ P := by
    intro P
    induction P with
    | nil => simp [collect]
    | cons x P ih =>
      cases x with
      | terminal t => simp [collect]
      | upsert u =>
        refine ⟨fun v hv => ?_, fun t ht => mem_cons_of_mem _ (ih.2 t ht)⟩
        rcases mem_cons.mp hv with rfl | hv
        · simp
        · exact mem_cons_of_mem _ (ih.1 v hv)
  obtain ⟨hup, hte⟩ := hc (it.part j stmts)
  unfold stmtsOf summary at h
  dsimp only at h
  rw [reverse_reverse, mem_append, mem_map, mem_map] at h
  rcases h with ⟨u, hu, rfl⟩ | ⟨t, ht, rfl⟩
  · exact hup u hu
  · refine hte t ?_
    rw [Option.mem_toList] at ht
    split at ht
    · exact (Option.filter_eq_some_iff.mp ht).1
    · exact ht

/-- What a read view adds: nothing, or one statement with the LSN of one of its own. -/
lemma made_cases (hso : Descending stmts) (hj : j < it.readViews.length) :
    it.made stmts j = it.made stmts (j + 1) ∨ ∃ m, it.made stmts j = m :: it.made stmts (j + 1) ∧
        ∃ s ∈ it.part j stmts, m.lsn = s.lsn := by
  rw [made_eq hso hj]
  rcases mergeView_cases it (it.buildHistory stmts) (it.made stmts (j + 1)) (it.summary j stmts)
    with ⟨he, -⟩ | ⟨stmt, m, hme, -, hm, he⟩
  · exact .inl he
  · obtain ⟨s, hs, hs', -⟩ := hme.origin
    exact .inr ⟨m, he, s, mem_part_of_mem_summary hs, (adjusted_of_finishMerge hm).lsn.trans hs'⟩

omit [DecidableEq K] in
lemma views_induction {P : Nat → Prop} (it : WriteIterator κ S)
    (hbase : ∀ j, it.readViews.length ≤ j → P j)
    (hstep : ∀ j, j < it.readViews.length → P (j + 1) → P j) (j : Nat) : P j := by
  have ha : ∀ n j, it.readViews.length ≤ n + j → P j := by
    intro n
    induction n with
    | zero =>
      intro j hj
      exact hbase j (by omega)
    | succ n ih =>
      intro j hj
      rcases Nat.lt_or_ge j it.readViews.length with hl | hg
      · exact hstep j hl (ih (j + 1) (by omega))
      · exact hbase j hg
  exact ha it.readViews.length j (by omega)

/-- Induction over what is made: a statement is made for an older read view, or merged for this
one. -/
lemma made_induction {P : Nat → S.Stmt → Prop} (hso : Descending stmts)
    (hold : ∀ i m, P (i + 1) m → P i m)
    (hnew : ∀ i stmt m, (∀ m ∈ it.made stmts (i + 1), P (i + 1) m) →
      Merged it (it.made stmts (i + 1)) (it.summary i stmts) stmt →
      finishMerge (it.lastDeferred (it.buildHistory stmts)) (it.buildHistory stmts).isFirstInsert
        (it.made stmts (i + 1)).head? stmt = some m → P i m) (j : Nat) :
    ∀ m ∈ it.made stmts j, P j m := by
  induction j using views_induction it with
  | hbase j hj =>
    rw [made_of_ge hso hj]
    simp
  | hstep j hj ih =>
    rw [made_eq hso hj]
    rcases mergeView_cases it (it.buildHistory stmts) (it.made stmts (j + 1)) (it.summary j stmts)
      with ⟨heq, -⟩ | ⟨stmt, m, hme, -, hm, heq⟩
    · rw [heq]
      exact fun m hm => hold j m (ih m hm)
    · rw [heq]
      exact forall_mem_cons.mpr ⟨hnew j stmt m ih hme hm, fun m hm => hold j m (ih m hm)⟩

lemma mem_seen_of_mem_made (hso : Descending stmts) (j : Nat) :
    ∀ m ∈ it.made stmts j, ∃ s ∈ it.seen stmts j, m.lsn = s.lsn := by
  refine made_induction (P := fun j m => ∃ s ∈ it.seen stmts j, m.lsn = s.lsn) hso ?_ ?_ j
  · rintro i m ⟨s, hs, hl⟩
    exact ⟨s, by rw [seen_eq hso]; simp [hs], hl⟩
  · intro i stmt m _ hme hm
    obtain ⟨s, hs, hl, -⟩ := hme.origin
    refine ⟨s, ?_, (adjusted_of_finishMerge hm).lsn.trans hl⟩
    rw [seen_eq hso]
    exact mem_append_left _ (mem_part_of_mem_summary hs)

lemma seen_made (hso : Descending stmts) {i : Nat} (hij : i ≤ j) :
    it.seen (it.made stmts i) j = it.made stmts j := by
  induction i using views_induction it with
  | hbase i hi =>
    rw [made_of_ge hso hi, made_of_ge hso (by omega)]
    rfl
  | hstep i hi ih =>
    rcases Nat.eq_or_lt_of_le hij with rfl | hlt
    · refine filter_eq_self.mpr fun m hm => ?_
      obtain ⟨s, hs, hl⟩ := mem_seen_of_mem_made hso i m hm
      rw [hl]
      exact (mem_filter.mp hs).2
    · rcases made_cases hso hi with he | ⟨m, he, s, hs, hl⟩
      · rw [he]
        exact ih hlt
      · have hs' := (mem_filter.mp hs).2
        rw [decide_eq_true_eq] at hs'
        have ha := it.getVlsn_anti (show i + 1 ≤ j from hlt)
        unfold seen
        rw [he, filter_cons_of_neg (by rw [decide_eq_true_eq]; omega)]
        exact ih hlt

lemma isUpsert_made_of_last (hs : Descending stmts) (hl : it.isLastLevel = true) (j : Nat) :
    ∀ m ∈ it.made stmts j, m.isUpsert = false := by
  refine made_induction (P := fun _ m => m.isUpsert = false) hs (fun _ _ h => h) ?_ j
  intro i stmt m ih hme hm
  rw [(adjusted_of_finishMerge hm).isUpsert]
  by_contra ht
  have := (hme.isUpsert fun _ => ih).mp (by simpa using ht)
  rw [hl] at this
  cases this.2.1

lemma value_made (hso : Descending stmts)
    (hin : (it.buildHistory stmts).isFirstInsert = true → below = none)
    (hl : it.isLastLevel = true → below = none) (hk : KeepsAlong (it.seen stmts j) below)
    (hd : ∀ i, j ≤ i → i < it.readViews.length → ¬ DropsUpserts (it.made stmts (i + 1))
      (it.summary i stmts)) : value (it.made stmts j) below = value (it.seen stmts j) below := by
  induction j using views_induction it with
  | hbase j hj =>
    have hse : it.seen stmts j = [] := by
      refine filter_eq_nil_iff.mpr fun s _ => ?_
      rw [it.getVlsn_of_ge hj, decide_eq_true_eq]
      omega
    rw [made_of_ge hso hj, hse]
  | hstep j hj ih =>
    rw [seen_eq hso] at hk ⊢
    obtain ⟨hp, ho⟩ := keepsAlong_append hk
    -- what the older read views see matters only under UPSERTs
    have hb : KeepsAlong (it.part j stmts) (value (it.made stmts (j + 1)) below) ∧
        value (it.part j stmts) (value (it.made stmts (j + 1)) below) =
          value (it.part j stmts) (value (it.seen stmts (j + 1)) below) := by
      by_cases ha : ∀ x ∈ it.part j stmts, x.isUpsert = true
      · rw [ih (ho ha) fun i hi => hd i (by omega)]
        exact ⟨hp, rfl⟩
      · have ht : ∃ x ∈ it.part j stmts, x.isUpsert = false := by
          simpa using ha
        exact ⟨keepsAlong_of_terminal ht _ _ hp, value_of_terminal ht _ _⟩
    have hsk : it.skipsDelete j = true → value (it.made stmts (j + 1)) below = none := by
      intro hs
      rw [skipsDelete, Bool.and_eq_true_iff, decide_eq_true_eq] at hs
      have he : it.readViews.length ≤ j + 1 := by
        by_contra hlt
        rw [it.getVlsn_of_lt (Nat.not_le.mp hlt)] at hs
        omega
      rw [made_of_ge hso he]
      exact hl hs.1
    obtain ⟨hv, hsu⟩ := value_summary hsk
    rw [made_eq hso hj, value_append, ← hb.2, ← hv]
    exact value_mergeView hin (fun h => ⟨hl h, isUpsert_made_of_last hso h (j + 1)⟩)
      (hsu hb.1) (hd j le_rfl hj)

omit [DecidableEq K] in
lemma collect_terminal_eq_none {stmts : List S.Stmt} :
    (collect stmts).terminal = none ↔ ∀ s ∈ stmts, s.isUpsert = true := by
  induction stmts with
  | nil => simp [collect]
  | cons x stmts ih =>
    cases x with
    | terminal t => simp [collect, Stmt.isUpsert]
    | upsert u => simpa [collect, Stmt.isUpsert] using ih

omit [DecidableEq K] in
lemma oldest_summary (hl : it.isLastLevel = false) (j : Nat) :
    (it.summary j stmts).oldest = none ↔ ∀ s ∈ it.part j stmts, s.isUpsert = true := by
  simp [summary, skipsDelete, hl, collect_terminal_eq_none]

lemma isUpsert_made (hso : Descending stmts)
    (hl : it.isLastLevel = false) (h : ∀ s ∈ it.seen stmts j, s.isUpsert = true) :
    ∀ m ∈ it.made stmts j, m.isUpsert = true := by
  refine fun m hm => made_induction (P := fun j m =>
    (∀ s ∈ it.seen stmts j, s.isUpsert = true) → m.isUpsert = true) hso ?_ ?_ j m hm h
  · intro i m ih h
    rw [seen_eq hso] at h
    exact ih fun s hs => h s (by simp [hs])
  · intro i stmt m ih hme hm h
    rw [seen_eq hso] at h
    have ho : (it.summary i stmts).oldest = none :=
      (oldest_summary hl i).mpr fun s hs => h s (by simp [hs])
    rw [(adjusted_of_finishMerge hm).isUpsert]
    refine (hme.isUpsert fun h => ?_).mpr ⟨ho, hl, fun t older heq => ?_⟩
    · rw [hl] at h
      cases h
    · cases ih (.terminal t) (by simp [heq]) fun s hs => h s (by simp [hs])

omit [DecidableEq K] in
lemma lastDeferred_eq_some {stmt : S.Terminal}
    (h : it.lastDeferred (it.buildHistory stmts) = some stmt) :
    it.isLastLevel = false ∧ it.isPrimary = true ∧ stmt.deferredDelete = true ∧
      (it.buildHistory stmts).isFirstInsert = false ∧
      ∃ newer older, stmts = newer ++ .terminal stmt :: older ∧ ∀ s ∈ older, s.isUpsert = true := by
  unfold lastDeferred at h
  split at h
  · cases h
  next hl =>
    obtain ⟨hp, hf, newer, older, hs, hu⟩ := deferredDelete_buildHistory_iff.mp h
    refine ⟨by simpa using hl, hp, hf, ?_, newer, older, hs, hu⟩
    rcases eq_nil_or_concat older with rfl | ⟨rest, u, rfl⟩
    · rw [hs, isFirstInsert_buildHistory]
      cases stmt with
      | insert => cases hf
      | replace => simp [Stmt.isInsert, hp]
      | delete => rfl
    · rw [hs, concat_eq_append, ← cons_append, ← append_assoc, isFirstInsert_buildHistory]
      have := hu u (by simp)
      cases u with
      | terminal t => cases this
      | upsert u => rfl

/-- A read view that sees the statement with a deferred DELETE sees it or a newer one that is not an
UPSERT. -/
lemma exists_terminal_made (hso : Descending stmts) {stmt : S.Terminal}
    (hd : it.lastDeferred (it.buildHistory stmts) = some stmt)
    (hj : (stmt.lsn : Int) ≤ it.getVlsn j) : ∃ m ∈ it.made stmts j, m.isUpsert = false := by
  obtain ⟨hl, -, -, hf, newer, older, hst, hu⟩ := lastDeferred_eq_some hd
  have hol : ∀ s ∈ stmts, s.lsn < stmt.lsn → s.isUpsert = true := by
    intro s hs hlt
    rw [hst] at hs hso
    rcases mem_append.mp hs with hs | hs
    · have : stmt.lsn < s.lsn := (pairwise_append.mp hso).2.2 s hs (.terminal stmt) (by simp)
      omega
    · rcases mem_cons.mp hs with rfl | hs
      · exact absurd hlt (lt_irrefl _)
      · exact hu s hs
  induction j using views_induction it with
  | hbase j hg =>
    rw [it.getVlsn_of_ge hg] at hj
    omega
  | hstep j hlt ih =>
    by_cases hn : (stmt.lsn : Int) ≤ it.getVlsn (j + 1)
    · obtain ⟨m, hm, ht⟩ := ih hn
      refine ⟨m, ?_, ht⟩
      rcases made_cases hso hlt with heq | ⟨m', heq, -⟩
      · rwa [heq]
      · rw [heq]
        exact mem_cons_of_mem _ hm
    · -- the read view of the statement itself
      have hma : ∀ m ∈ it.made stmts (j + 1), m.isUpsert = true := by
        refine isUpsert_made hso hl fun s hs => ?_
        obtain ⟨hs, hle⟩ := mem_filter.mp hs
        rw [decide_eq_true_eq] at hle
        exact hol s hs (by omega)
      have ho : (it.summary j stmts).oldest ≠ none := by
        rw [Ne, oldest_summary hl]
        intro ha
        have hmm : Stmt.terminal stmt ∈ it.part j stmts := by
          refine mem_filter.mpr ⟨by rw [hst]; simp, ?_⟩
          rw [decide_eq_true_eq]
          exact ⟨not_le.mp hn, hj⟩
        cases ha _ hmm
      rw [made_eq hso hlt]
      rcases mergeView_cases it (it.buildHistory stmts) (it.made stmts (j + 1)) (it.summary j stmts)
        with ⟨-, he | ⟨hh, -⟩ | ⟨-, hi, -⟩⟩ | ⟨s, m, hme, -, hm, heq⟩
      · rw [he] at ho
        exact absurd rfl ho
      · rcases hma' : it.made stmts (j + 1) with _ | ⟨t | u, rest⟩
        · rw [hma'] at hh
          cases hh
        · cases hma (.terminal t) (by simp [hma'])
        · rw [hma'] at hh
          cases hh
      · rw [hf] at hi
        cases hi
      · refine ⟨m, by rw [heq]; simp, ?_⟩
        rw [(adjusted_of_finishMerge hm).isUpsert]
        by_contra htr
        refine ho ((hme.isUpsert fun h => ?_).mp (by simpa using htr)).1
        rw [hl] at h
        cases h

/-- The output for a key: the statements of the read views, and maybe the one with a
deferred DELETE. -/
lemma writeKey_eq (it : WriteIterator κ S) (stmts : List S.Stmt) :
    ∃ tail, it.writeKey stmts = it.made stmts 0 ++ tail ∧
      (tail = [] ∨ ∃ stmt, it.lastDeferred (it.buildHistory stmts) = some stmt ∧
        tail = [.terminal stmt]) := by
  unfold writeKey
  dsimp only
  split
  · exact ⟨[], by simp [made], .inl rfl⟩
  · rename_i stmt hd
    split
    · exact ⟨[], by simp [made], .inl rfl⟩
    · exact ⟨[.terminal stmt], by simp [made], .inr ⟨stmt, hd, rfl⟩⟩

omit [DecidableEq K] in
lemma visible_eq_seen {v : Nat} (hv : it.readViews[j]? = some v) (stmts : List S.Stmt) :
    visible v stmts = it.seen stmts j := by
  have hvl : it.getVlsn j = v := by
    simp [getVlsn, hv]
  unfold visible seen
  rw [hvl]
  refine filter_congr fun s _ => ?_
  simp

/-- A read of the output from a read view. The deferred DELETE at the end is never
reached. -/
lemma readAt_output (hso : Descending stmts) {v : Nat}
    (hv : it.readViews[j]? = some v) (older : List S.Stmt) :
    readAt v (it.writeKey stmts ++ older) = value (it.made stmts j) (readAt v older) := by
  obtain ⟨tail, ho, ht⟩ := it.writeKey_eq stmts
  rw [readAt_eq_value, readAt_eq_value, visible_eq_seen hv, visible_eq_seen hv, ho]
  have ha : it.seen (it.made stmts 0 ++ tail ++ older) j =
      it.made stmts j ++ (it.seen tail j ++ it.seen older j) := by
    unfold seen
    rw [filter_append, filter_append, append_assoc]
    exact congrArg (· ++ _) (seen_made hso (Nat.zero_le j))
  rw [ha, value_append, value_append]
  rcases ht with rfl | ⟨stmt, hd, rfl⟩
  · rfl
  · by_cases hl : (stmt.lsn : Int) ≤ it.getVlsn j
    · exact value_of_terminal (exists_terminal_made hso hd hl) _ _
    · have hu : it.seen [Stmt.terminal stmt] j = [] := by
        refine filter_eq_nil_iff.mpr fun s hs => ?_
        rw [mem_singleton.mp hs, decide_eq_true_eq]
        exact hl
      rw [hu]
      rfl

lemma readAt_input {v : Nat} (hv : it.readViews[j]? = some v) (older : List S.Stmt) :
    readAt v (stmts ++ older) = value (it.seen stmts j) (readAt v older) := by
  rw [readAt_eq_value, readAt_eq_value, visible_eq_seen hv, visible_eq_seen hv]
  unfold seen
  rw [filter_append, value_append]

/-- The newest statement is a DELETE. -/
abbrev HeadsDelete (stmts : List S.Stmt) : Prop := stmts.head?.any Stmt.isDelete = true

/-- The key begins with an INSERT. -/
abbrev BeginsInsert (it : WriteIterator κ S) (stmts : List S.Stmt) : Prop :=
  stmts.getLast?.any (Stmt.isInsert it.isPrimary) = true

/-- Statements of the read view are written, were there no other read views: they are not a DELETE
that is on the last level and in the oldest read view, or in a key that begins with an INSERT. -/
def Writes (it : WriteIterator κ S) (stmts : List S.Stmt) (j : Nat) : Prop :=
  (it.part j stmts).isEmpty = false ∧ ¬ (HeadsDelete (it.part j stmts) ∧
    (it.BeginsInsert stmts ∨ it.skipsDelete j = true))

/-- UPSERTs of the key are lost: for some read view they are on top of a DELETE, the newest
statement for the next older one is a DELETE, too, and it or an older one is written. -/
def LosesUpserts (it : WriteIterator κ S) (stmts : List S.Stmt) : Prop :=
  ∃ j < it.readViews.length, ((collect (it.part j stmts)).upserts.isEmpty = false ∧
    (collect (it.part j stmts)).terminal.any Terminal.isDelete = true) ∧
    HeadsDelete (it.seen stmts (j + 1)) ∧
    ∃ i < it.readViews.length, j < i ∧ it.Writes stmts i

instance (it : WriteIterator κ S) (stmts : List S.Stmt) (j : Nat) :
    Decidable (it.Writes stmts j) :=
  inferInstanceAs (Decidable (_ ∧ ¬ (_ ∧ (_ ∨ _))))

instance (it : WriteIterator κ S) (stmts : List S.Stmt) : Decidable (it.LosesUpserts stmts) :=
  inferInstanceAs (Decidable (∃ _ < _, _ ∧ _ ∧ ∃ _ < _, _ ∧ _))

omit [DecidableEq K] in
lemma headsDelete_iff {stmts : List S.Stmt} : HeadsDelete stmts ↔
    (collect stmts).upserts = [] ∧ (collect stmts).terminal.any Terminal.isDelete = true := by
  rcases stmts with _ | ⟨_ | _, stmts⟩ <;> simp [collect, Stmt.isDelete]

omit [DecidableEq K] in
lemma collect_eq_nil {stmts : List S.Stmt} :
    stmts = [] ↔ (collect stmts).upserts = [] ∧ (collect stmts).terminal = none := by
  rcases stmts with _ | ⟨_ | _, stmts⟩ <;> simp [collect]

omit [DecidableEq K] in
lemma beginsInsert_iff : it.BeginsInsert stmts ↔ (it.buildHistory stmts).isFirstInsert = true := by
  rcases eq_nil_or_concat stmts with rfl | ⟨rest, s, rfl⟩
  · simp [BeginsInsert, buildHistory, startHistory]
  · rw [concat_eq_append, isFirstInsert_buildHistory]
    simp

omit [DecidableEq K] in
lemma not_skipsDelete (hj : j + 1 < it.readViews.length) : it.skipsDelete j = false := by
  rw [skipsDelete, it.getVlsn_of_lt hj]
  simp

omit [DecidableEq K] in
/-- A DELETE that is the oldest of a summary was collected and not skipped. -/
lemma summary_delete (h : (it.summary j stmts).oldest.any Terminal.isDelete = true) :
    it.skipsDelete j = false ∧
      (collect (it.part j stmts)).terminal.any Terminal.isDelete = true := by
  by_cases hs : it.skipsDelete j = true
  · simp [summary, hs] at h
  · exact ⟨by simpa using hs, by simpa [summary, hs] using h⟩

omit [DecidableEq K] in
lemma finishMerge_delete (deferred : Option S.Terminal) (lsn : Nat) (flag : Bool) :
    finishMerge deferred true none (.terminal (.delete lsn flag)) = none := by
  simp only [finishMerge]
  by_cases hl : deferred.map Terminal.lsn = some (Terminal.delete (S := S) lsn flag).lsn
  · rw [if_pos hl]
    rfl
  · rw [if_neg hl]
    rfl

section Lost

variable (hso : Descending stmts) (hj : j < it.readViews.length)
include hso hj

/-- What is made of the statements of a read view. -/
lemma made_of_part_nil (hp : it.part j stmts = []) : it.made stmts j = it.made stmts (j + 1) := by
  rw [made_eq hso hj, summary, hp]
  simp [collect, mergeView, readViewMerge]

lemma made_of_headsDelete (hp : HeadsDelete (it.part j stmts)) :
    it.made stmts j = it.made stmts (j + 1) ∧ (it.skipsDelete j = true ∨
        HeadsDelete (it.made stmts (j + 1)) ∨ it.made stmts (j + 1) = [] ∧ it.BeginsInsert stmts) ∨
      it.skipsDelete j = false ∧ (it.BeginsInsert stmts → it.made stmts (j + 1) ≠ []) ∧
        ∃ m, m.isDelete = true ∧ it.made stmts j = m :: it.made stmts (j + 1) := by
  obtain ⟨hu, ht⟩ := headsDelete_iff.mp hp
  obtain ⟨t, hco, hd⟩ := Option.any_eq_true _ _ |>.mp ht
  rw [made_eq hso hj]
  by_cases hs : it.skipsDelete j = true
  · refine .inl ⟨?_, .inl hs⟩
    have hsu : it.summary j stmts = .empty := by
      simp [summary, hs, hu, hco, hd, WriteHistory.empty, Option.filter]
    rw [hsu]
    rfl
  · have hsu : it.summary j stmts = ⟨some t, []⟩ := by simp [summary, hs, hu, hco]
    rw [hsu]
    rcases mergeView_cases it (it.buildHistory stmts) (it.made stmts (j + 1)) ⟨some t, []⟩ with
      ⟨he, hn | ⟨hh, -⟩ | ⟨hn, hf, -⟩⟩ | ⟨stmt, m, hme, -, hm, he⟩
    · cases hn
    · exact .inl ⟨he, .inr (.inl hh)⟩
    · exact .inl ⟨he, .inr (.inr ⟨hn, beginsInsert_iff.mpr hf⟩)⟩
    · have hst : stmt = .terminal t := by cases hme; rfl
      subst hst
      refine .inr ⟨by simpa using hs, fun hb hn => ?_, m, ?_, he⟩
      · rw [hn, beginsInsert_iff.mp hb] at hm
        cases t <;> cases hd
        rw [head?_nil, finishMerge_delete] at hm
        cases hm
      · rw [(adjusted_of_finishMerge hm).isDelete]
        exact hd

lemma made_of_not_headsDelete (hn : it.part j stmts ≠ []) (hp : ¬ HeadsDelete (it.part j stmts)) :
    it.made stmts j = it.made stmts (j + 1) ∧
        DropsUpserts (it.made stmts (j + 1)) (it.summary j stmts) ∨
      ∃ m, m.isDelete = false ∧ it.made stmts j = m :: it.made stmts (j + 1) := by
  have hde : ∀ {stmt}, Merged it (it.made stmts (j + 1)) (it.summary j stmts) stmt →
      stmt.isDelete = false := by
    intro stmt hme
    by_contra hd
    obtain ⟨hu, ho⟩ := hme.isDelete (by simpa using hd)
    exact hp (headsDelete_iff.mpr ⟨by simpa [summary] using hu, (summary_delete ho).2⟩)
  rw [made_eq hso hj]
  rcases mergeView_cases it (it.buildHistory stmts) (it.made stmts (j + 1)) (it.summary j stmts)
    with ⟨he, hem | ⟨hh, hd⟩ | ⟨-, -, stmt, hme, hd⟩⟩ | ⟨stmt, m, hme, -, hm, he⟩
  · -- an empty history of statements that are there can only be a DELETE that was skipped
    obtain ⟨hte, hu⟩ : (it.summary j stmts).oldest = none ∧ (it.summary j stmts).upserts = [] := by
      rw [hem]
      exact ⟨rfl, rfl⟩
    have hu : (collect (it.part j stmts)).upserts = [] := by simpa [summary] using hu
    cases hc : (collect (it.part j stmts)).terminal with
    | none => exact absurd (collect_eq_nil.mpr ⟨hu, hc⟩) hn
    | some t =>
      refine absurd (headsDelete_iff.mpr ⟨hu, ?_⟩) hp
      by_contra hd
      rw [hc, Option.any_some, Bool.not_eq_true] at hd
      simp [summary, hc, hd, Option.filter] at hte
  · refine .inl ⟨he, hh, hd, ?_⟩
    by_contra hu
    exact hp (headsDelete_iff.mpr ⟨by simpa [summary] using hu, (summary_delete hd).2⟩)
  · rw [hde hme] at hd
    cases hd
  · exact .inr ⟨m, (adjusted_of_finishMerge hm).isDelete.trans (hde hme), he⟩

end Lost

/-- Of the read views from one on, the first or one of the others. -/
lemma exists_from_iff {P : Nat → Prop} {n : Nat} (hj : j < n) :
    (∃ i < n, j ≤ i ∧ P i) ↔ P j ∨ ∃ i < n, j + 1 ≤ i ∧ P i := by
  constructor
  · rintro ⟨i, hi, hji, hp⟩
    rcases Nat.eq_or_lt_of_le hji with rfl | hlt
    · exact .inl hp
    · exact .inr ⟨i, hi, hlt, hp⟩
  · rintro (hp | ⟨i, hi, hji, hp⟩)
    · exact ⟨j, hj, le_rfl, hp⟩
    · exact ⟨i, hi, by omega, hp⟩

lemma made_ne_nil_iff (hso : Descending stmts) (j : Nat) : it.made stmts j ≠ [] ↔
    ∃ i < it.readViews.length, j ≤ i ∧ it.Writes stmts i := by
  induction j using views_induction it with
  | hbase j hj =>
    rw [made_of_ge hso hj]
    constructor
    · intro h
      exact absurd rfl h
    · rintro ⟨i, hi, hji, -⟩
      omega
  | hstep j hj ih =>
    rw [exists_from_iff hj, ← ih, Writes]
    by_cases hp : it.part j stmts = []
    · simp [made_of_part_nil hso hj hp, hp]
    by_cases hd : HeadsDelete (it.part j stmts)
    · rcases made_of_headsDelete hso hj hd with ⟨he, hs | hh | ⟨hn, hb⟩⟩ | ⟨hs, hb, m, -, he⟩
      · simp [he, hs, hd]
      · have hm : it.made stmts (j + 1) ≠ [] := fun hn => by simp [HeadsDelete, hn] at hh
        simp [he, hm]
      · simp [he, hn, hb, hd]
      · simp only [he, hs]
        by_cases hbi : it.BeginsInsert stmts
        · simp [hb hbi]
        · simp [hp, hbi]
    · rcases made_of_not_headsDelete hso hj hp hd with ⟨he, hh, -⟩ | ⟨m, -, he⟩
      · have hm : it.made stmts (j + 1) ≠ [] := fun hn => by simp [hn] at hh
        simp [he, hm]
      · simp [he, hp, hd]

/-- The newest statement that is made is a DELETE if the newest one that is seen is, and otherwise
only if UPSERTs were dropped. -/
lemma headsDelete_made (hso : Descending stmts) (j : Nat) :
    (HeadsDelete (it.seen stmts j) → it.made stmts j ≠ [] → HeadsDelete (it.made stmts j)) ∧
      (HeadsDelete (it.made stmts j) → HeadsDelete (it.seen stmts j) ∨
        ∃ i < it.readViews.length, j ≤ i ∧
          DropsUpserts (it.made stmts (i + 1)) (it.summary i stmts)) := by
  induction j using views_induction it with
  | hbase j hj =>
    rw [made_of_ge hso hj]
    exact ⟨fun _ h => absurd rfl h, fun h => by cases h⟩
  | hstep j hj ih =>
    rw [seen_eq hso, exists_from_iff hj]
    by_cases hp : it.part j stmts = []
    · rw [made_of_part_nil hso hj hp, hp, nil_append]
      exact ⟨ih.1, fun h => (ih.2 h).imp_right .inr⟩
    have hh : HeadsDelete (it.part j stmts ++ it.seen stmts (j + 1)) ↔
        HeadsDelete (it.part j stmts) := by
      rw [HeadsDelete, head?_append_of_ne_nil _ hp]
    rw [hh]
    by_cases hd : HeadsDelete (it.part j stmts)
    · refine ⟨fun _ hm => ?_, fun _ => .inl hd⟩
      rcases made_of_headsDelete hso hj hd with ⟨he, hs | hh | ⟨hn, -⟩⟩ | ⟨-, -, m, hmd, he⟩
      · -- in the oldest read view nothing is older
        have hge : it.readViews.length ≤ j + 1 := by
          by_contra hlt
          rw [not_skipsDelete (Nat.not_le.mp hlt)] at hs
          cases hs
        exact absurd (he.trans (made_of_ge hso hge)) hm
      · rwa [he]
      · exact absurd (he.trans hn) hm
      · rw [he]
        simpa [HeadsDelete] using hmd
    · refine ⟨fun h => absurd h hd, fun hm => ?_⟩
      rcases made_of_not_headsDelete hso hj hp hd with ⟨-, hdr⟩ | ⟨m, hmd, he⟩
      · exact .inr (.inl hdr)
      · rw [he] at hm
        simp [HeadsDelete, hmd] at hm

lemma losesUpserts_iff (hso : Descending stmts) : it.LosesUpserts stmts ↔
    ∃ j < it.readViews.length, DropsUpserts (it.made stmts (j + 1)) (it.summary j stmts) := by
  constructor
  · rintro ⟨j, hj, ⟨hu, ht⟩, hse, hw⟩
    have hlt : j + 1 < it.readViews.length := by
      by_contra hge
      have hs : it.seen stmts (j + 1) = [] := by
        refine filter_eq_nil_iff.mpr fun s _ => ?_
        rw [it.getVlsn_of_ge (Nat.not_lt.mp hge), decide_eq_true_eq]
        omega
      rw [hs] at hse
      cases hse
    refine ⟨j, hj, (headsDelete_made hso _).1 hse ((made_ne_nil_iff hso _).mpr hw), ?_, ?_⟩
    · simpa [summary, not_skipsDelete hlt] using ht
    · simpa [summary] using hu
  · -- of the read views at which UPSERTs are dropped, the oldest one is what the condition names
    have hl (j : Nat) : (∃ i < it.readViews.length, j ≤ i ∧
        DropsUpserts (it.made stmts (i + 1)) (it.summary i stmts)) → it.LosesUpserts stmts := by
      induction j using views_induction it with
      | hbase j hj =>
        rintro ⟨i, hi, hji, -⟩
        omega
      | hstep j hj ih =>
        rw [exists_from_iff hj]
        rintro (hd | ho)
        · rcases (headsDelete_made hso (j + 1)).2 hd.1 with hse | ho
          · have hm : it.made stmts (j + 1) ≠ [] := fun hn => by simp [hn, DropsUpserts] at hd
            exact ⟨j, hj, ⟨by simpa [summary] using hd.2.2, (summary_delete hd.2.1).2⟩, hse,
              (made_ne_nil_iff hso _).mp hm⟩
          · exact ih ho
        · exact ih ho
    rintro ⟨j, hj, hd⟩
    exact hl 0 ⟨j, hj, Nat.zero_le j, hd⟩

/-- The older levels agree with the meaning of INSERT: if the key begins with one, then it
is absent from them. -/
def InsertConsistent (it : WriteIterator κ S) (stmts older : List S.Stmt) : Prop :=
  ∀ s ∈ stmts.getLast?, s.isInsert it.isPrimary = true → ∀ v, s.lsn ≤ v → readAt v older = none

/-- One key: the reads are preserved exactly if no UPSERTs are lost. -/
lemma readAt_writeKey_iff (hso : Descending stmts)
    {older : List S.Stmt} (hl : it.isLastLevel = true → older = [])
    (hin : it.InsertConsistent stmts older)
    (hk : ∀ v ∈ it.readViews, KeepsAlong (visible v (stmts ++ older)) none) :
    (∀ v ∈ it.readViews, readAt v (it.writeKey stmts ++ older) = readAt v (stmts ++ older)) ↔
      ¬ it.LosesUpserts stmts := by
  rw [losesUpserts_iff hso]
  constructor
  · rintro hre ⟨j, hj, hdr⟩
    have hv := getElem?_eq_getElem hj
    have hr := hre _ (getElem_mem hj)
    rw [readAt_output hso hv, readAt_input hv, made_eq hso hj, seen_eq hso, value_append] at hr
    obtain ⟨he, hn, hsm⟩ := value_of_dropsUpserts it
      (it.buildHistory stmts) hdr (readAt it.readViews[j] older)
    have hsk := (summary_delete hdr.2.1).1
    rw [he, hn, ← (value_summary (by simp [hsk])).1] at hr
    exact hsm _ hr.symm
  · intro hdr v hv
    obtain ⟨j, hj⟩ := mem_iff_getElem?.mp hv
    rw [readAt_output hso hj, readAt_input hj]
    by_cases hse : it.seen stmts j = []
    · have hma : it.made stmts j = [] := by
        refine eq_nil_iff_forall_not_mem.mpr fun m hm => ?_
        obtain ⟨s, hs, -⟩ := mem_seen_of_mem_made hso j m hm
        rw [hse] at hs
        cases hs
      rw [hse, hma]
    · refine value_made hso (fun hf => ?_) (fun h => ?_) ?_ fun i _ hi hd => hdr ⟨i, hi, hd⟩
      · -- the oldest statement is an INSERT, and this read view sees it
        rcases eq_nil_or_concat stmts with rfl | ⟨rest, s, rfl⟩
        · exact absurd rfl hse
        · rw [concat_eq_append] at *
          rw [isFirstInsert_buildHistory] at hf
          refine hin s (by simp) hf v ?_
          obtain ⟨x, hx⟩ := exists_mem_of_ne_nil _ hse
          obtain ⟨hx, hle⟩ := mem_filter.mp hx
          have hvl : it.getVlsn j = v := by simp [getVlsn, hj]
          rw [hvl, decide_eq_true_eq] at hle
          rcases mem_append.mp hx with hx | hx
          · have := (pairwise_append.mp hso).2.2 x hx s (by simp)
            omega
          · rw [mem_singleton.mp hx] at hle
            exact_mod_cast hle
      · rw [hl h]
        rfl
      · have := hk v hv
        unfold visible at this
        rw [filter_append] at this
        have := (keepsAlong_append this).1
        rw [← visible_eq_seen hj, readAt_eq_value]
        exact this

omit [DecidableEq K] in
lemma Ordered.mergeable {it : WriteIterator κ S} (h : it.Ordered) :
    Merge.Mergeable heapLess Before it.sources where
  sorted := h.sorted
  apart := by
    refine h.distinct.imp fun hd a ha b hb => ?_
    have hl := hd a ha b hb
    unfold heapLess Before
    by_cases hk : b.1 = a.1
    · have hn : b.2.lsn ≠ a.2.lsn := fun h => hl hk.symm h.symm
      simp only [hk, ne_eq, not_true, if_false, hn, not_false_iff, if_true]
      split
      · rename_i hlt
        exact .inr ⟨trivial, by simpa using hlt⟩
      · rename_i hlt
        rw [decide_eq_true_eq] at hlt
        exact .inr ⟨trivial, by omega⟩
    · simp only [ne_eq, hk, not_false_iff, if_true]
      split
      · rename_i hlt
        exact .inl (by simpa using hlt)
      · rename_i hlt
        rw [decide_eq_true_eq, not_lt] at hlt
        exact .inl (lt_of_le_of_ne hlt (Ne.symm hk))

omit [DecidableEq K] in
lemma before_trans (a b c : κ × S.Stmt) (ha : Before a b) (hb : Before b c) : Before a c := by
  rcases ha with ha | ⟨ha, hl⟩
  · rcases hb with hb | ⟨hb, -⟩
    · exact .inl (lt_trans ha hb)
    · exact .inl (hb ▸ ha)
  · rcases hb with hb | ⟨hb, hl'⟩
    · exact .inl (ha ▸ hb)
    · exact .inr ⟨ha.trans hb, lt_trans hl' hl⟩

section Ordered

variable {it : WriteIterator κ S} (h : it.Ordered) (k : κ)
include h

omit [DecidableEq K] in
lemma Ordered.pairwise_merged : it.merged.Pairwise Before :=
  h.mergeable.pairwise_merge before_trans

omit [DecidableEq K] in
lemma Ordered.pairwise_ofKey_merged :
    (Merge.ofKey k it.merged).Pairwise fun a b => b.lsn < a.lsn := by
  unfold Merge.ofKey
  rw [pairwise_map]
  refine (h.pairwise_merged.filter _).imp_of_mem fun ha hb h => ?_
  simp only [mem_filter, decide_eq_true_eq] at ha hb
  rcases h with hlt | ⟨-, hl⟩
  · rw [ha.2, hb.2] at hlt
    exact absurd hlt (lt_irrefl k)
  · exact hl

omit [DecidableEq K] in
/-- The heap supplies the statements of a key newest first. -/
lemma Ordered.ofKey_merged : Merge.ofKey k it.merged = it.versions k := by
  have hs := h.pairwise_ofKey_merged k
  let newer : S.Stmt → S.Stmt → Prop := fun a b => b.lsn ≤ a.lsn
  have : Std.Total newer := ⟨fun a b => le_total b.lsn a.lsn⟩
  have : IsTrans S.Stmt newer := ⟨fun a b c hab hbc => le_trans hbc hab⟩
  have hp : (Merge.ofKey k it.merged).Perm (it.versions k) :=
    (Merge.ofKey_perm (Merge.merge_perm it.sources)).trans (perm_insertionSort newer _).symm
  refine Perm.eq_of_pairwise ?_ (hs.imp fun h => h.le) (pairwise_insertionSort newer _) hp
  intro a b ha hb hab hba
  exact eq_of_lsn hs ha (hp.symm.subset hb) (le_antisymm hba hab)

omit h in
variable (it) in
lemma writeKey_nil : it.writeKey [] = [] := by
  obtain ⟨tail, he, ht⟩ := it.writeKey_eq []
  have hma : it.made [] 0 = [] := by
    refine eq_nil_iff_forall_not_mem.mpr fun m hm => ?_
    obtain ⟨s, hs, -⟩ := mem_seen_of_mem_made Pairwise.nil 0 m hm
    cases hs
  rw [he, hma]
  rcases ht with rfl | ⟨stmt, hd, -⟩
  · rfl
  · unfold lastDeferred at hd
    split at hd <;> cases hd

lemma Ordered.ofKey_output : Merge.ofKey k it.output = it.writeKey (it.versions k) := by
  rw [← h.ofKey_merged k]
  refine Merge.ofKey_eachKey it.writeKey_nil le_rfl (h.pairwise_merged.imp fun h => ?_) k
  rcases h with hl | ⟨he, -⟩
  · exact hl.le
  · exact he.le

end Ordered

end WriteIterator

/-- A dump of an UPSERT in a mem over an INSERT in another one, with a read view between
them. -/
def upsertOverInsert : WriteIterator Nat keyOnSecond where
  isPrimary := true
  isLastLevel := false
  sources := [[(1, .upsert (upsertOf 9 [⟨0, .set 4⟩]))],
    [(1, .terminal (.insert 3 (upsertOf 3 []).tuple))]]
  vlsns := [5]
  lsn_pos := by decide
  lsn_le := by decide
  vlsns_sorted := by decide
  vlsns_le := by decide

/-- A DELETE, a read view, and a DELETE with an UPSERT over it. -/
def upsertOverDeletes : WriteIterator Nat keyOnSecond where
  isPrimary := true
  isLastLevel := false
  sources := [[(1, .upsert (upsertOf 9 [])), (1, .terminal (.delete 8 false)),
    (1, .terminal (.delete 3 false))]]
  vlsns := [5]
  lsn_pos := by decide
  lsn_le := by decide
  vlsns_sorted := by decide
  vlsns_le := by decide

end TarantoolStorage.Vinyl
