import TarantoolStorage.Wal.Batch

/-! What a batch commits is what is in the file: clock, results and LSNs follow the rows written. -/
namespace TarantoolStorage.Wal

open Checked MsgPack Xrow Xlog List

def advance (clock : Clock) (row : Header) : Clock :=
  Function.update clock row.replicaId.toNat row.lsn.toInt.toNat

def advanceAll (clock : Clock) (rows : List Header) : Clock := rows.foldl advance clock

/-- The numbers of the rows, in pairs of a row as it was submitted and as it was written: a new
row has the number after the last one of its component. -/
def Consecutive : Clock → List (Header × Header) → Prop
  | _, [] => True
  | clock, (row, row') :: rest =>
    (row.replicaId = 0 → row'.lsn = Int64.ofNat (clock row'.replicaId.toNat + 1)) ∧
      Consecutive (advance clock row') rest

/-- An entry as it was submitted and as it was written, after a file with this clock. -/
structure WrittenEntry (clock : Clock) (entry entry' : Entry) : Prop where
  same : List.Forall₂ SameRow entry.rows entry'.rows
  consecutive : Consecutive clock (entry.rows.zip entry'.rows)
  res_eq : entry'.res = (advanceAll clock entry'.rows).sum

def WrittenEntries : Clock → List Entry → List Entry → Prop
  | _, [], [] => True
  | clock, entry :: entries, entry' :: entries' => WrittenEntry clock entry entry' ∧
    WrittenEntries (advanceAll clock entry'.rows) entries entries'
  | _, _, _ => False

section

variable {instanceId : UInt32} {clock base : Clock} {flags : UInt8} {start : Option Int64}
  {i n : Nat} {isLast : Bool} {s s' : Numbering} {row row' : Header} {rows out more : List Header}
  {entry entry' : Entry} {entries entries' : List Entry}

lemma advanceAll_append (rows more : List Header) :
    advanceAll clock (rows ++ more) = advanceAll (advanceAll clock rows) more :=
  foldl_append

/-- The same row with the same number; the rest of its marks may differ. -/
structure SameNumber (row row' : Header) : Prop extends SameRow row row' where
  replicaId_eq : row'.replicaId = row.replicaId
  lsn_eq : row'.lsn = row.lsn

lemma advanceAll_sameNumber (h : List.Forall₂ SameNumber rows out) :
    advanceAll clock out = advanceAll clock rows := by
  induction h generalizing clock with
  | nil => rfl
  | @cons row row' rows out hr _ ih =>
    have ha : advance clock row' = advance clock row := by
      rw [advance, advance, hr.replicaId_eq, hr.lsn_eq]
    rw [advanceAll, foldl_cons, ha]
    exact ih

lemma consecutive_sameNumber {submitted : List Header}
    (h : List.Forall₂ SameNumber rows out) (hr : Consecutive clock (submitted.zip rows)) :
    Consecutive clock (submitted.zip out) := by
  induction h generalizing clock submitted with
  | nil => exact hr
  | @cons row row' rows out hro _ ih =>
    cases submitted with
    | nil => trivial
    | cons first submitted =>
      obtain ⟨hn, hre⟩ := hr
      have ha : advance clock row' = advance clock row := by
        rw [advance, advance, hro.replicaId_eq, hro.lsn_eq]
      refine ⟨?_, ha ▸ ih hre⟩
      rw [hro.replicaId_eq, hro.lsn_eq]
      exact hn

lemma sameRow_sameNumber (h : List.Forall₂ SameRow rows out)
    (h' : List.Forall₂ SameNumber out more) : List.Forall₂ SameRow rows more := by
  induction h generalizing more with
  | nil =>
    cases h'
    exact Forall₂.nil
  | cons hro _ ih =>
    cases h' with
    | cons hro' hr =>
      exact Forall₂.cons ⟨hro'.type_eq.trans hro.type_eq,
        hro'.groupId_eq.trans hro.groupId_eq, hro'.sync_eq.trans hro.sync_eq,
        hro'.body_eq.trans hro.body_eq⟩ (ih hr)

lemma sameNumber_refl (row : Header) : SameNumber row row := ⟨⟨rfl, rfl, rfl, rfl⟩, rfl, rfl⟩

lemma sameNumber_fillTsn (s : Numbering) (rows : List Header) :
    List.Forall₂ SameNumber rows (fillTsn s rows) := by
  have hr : ∀ rows, List.Forall₂ SameNumber rows rows := fun rows =>
    forall₂_same.mpr fun row _ => sameNumber_refl row
  have ht : List.Forall₂ SameNumber (rows.take s.firstGlobRow)
      ((rows.take s.firstGlobRow).map (withTsn s.tsn)) :=
    forall₂_map_right_iff.mpr (forall₂_same.mpr fun _ _ => ⟨⟨rfl, rfl, rfl, rfl⟩, rfl, rfl⟩)
  have ha : List.Forall₂ SameNumber
      (rows.take s.firstGlobRow ++ rows.drop s.firstGlobRow) (fillTsn s rows) :=
    rel_append ht (hr (rows.drop s.firstGlobRow))
  rwa [take_append_drop] at ha

lemma sameNumber_stamp (now : UInt64) (rows : List Header) :
    List.Forall₂ SameNumber rows (rows.map (stamp now)) :=
  forall₂_map_right_iff.mpr (forall₂_same.mpr fun _ _ => ⟨⟨rfl, rfl, rfl, rfl⟩, rfl, rfl⟩)

/-- There is room for the LSNs of so many rows more after these. -/
structure RowRoom (clock : Clock) (rows : List Header) (n : Nat) : Prop where
  clock_lt : ∀ id, clock id + n < 2 ^ 63
  rows_lt : ∀ row ∈ rows, row.replicaId ≠ 0 → row.lsn.toInt + n < 2 ^ 63

lemma toNat_ofNat (h : n < 2 ^ 63) : (Int64.ofNat n).toInt.toNat = n := by
  rw [Int64.toInt_ofNat_of_lt h]
  rfl

/-- The clock after a row that is written is the clock after its numbering. -/
lemma advance_assignRow (hr : RowRoom (s.clock base) (row :: rows) (n + 1))
    (h : assignRow instanceId base flags start i isLast s row = some (row', s')) :
    advance (s.clock base) row' = s'.clock base := by
  rw [clock_assignRow h]
  by_cases hne : row.replicaId = 0
  · have hn := assignRow_new h hne
    have hlt := hr.clock_lt (newId instanceId row).toNat
    have hl : row'.lsn.toInt.toNat = s.clock base (newId instanceId row).toNat + 1 := by
      rw [hn.lsn_eq, newLsn, Numbering.clock, toNat_ofNat] <;>
        · rw [Numbering.clock] at hlt
          omega
    rw [advance, nextClock, if_pos hne, hl, hn.replicaId_eq]
  · obtain ⟨rfl, -⟩ := assignRow_old h hne
    rw [advance, nextClock, if_neg hne]

lemma RowRoom.next (hr : RowRoom clock (row :: rows) (n + 1)) :
    RowRoom (nextClock instanceId clock row) rows n := by
  refine ⟨?_, ?_⟩
  · intro id
    have hi := hr.clock_lt id
    by_cases hn : row.replicaId = 0
    · rw [nextClock, if_pos hn]
      by_cases he : id = (newId instanceId row).toNat
      · subst he
        rw [Function.update_self]
        omega
      · rw [Function.update_of_ne he]
        omega
    · rw [nextClock, if_neg hn]
      have hl := hr.rows_lt row mem_cons_self hn
      by_cases he : id = row.replicaId.toNat
      · subst he
        rw [Function.update_self]
        omega
      · rw [Function.update_of_ne he]
        omega
  · intro other ho hol
    have hl := hr.rows_lt other (mem_cons_of_mem _ ho) hol
    omega

lemma RowRoom.after (hr : RowRoom clock (rows ++ more) (rows.length + n)) :
    RowRoom (rows.foldl (nextClock instanceId) clock) more n := by
  induction rows generalizing clock with
  | nil => simpa using hr
  | cons row rows ih =>
    have hl : (row :: rows).length + n = rows.length + n + 1 := by
      rw [length_cons]
      omega
    rw [hl, cons_append] at hr
    exact ih hr.next

lemma RowRoom.left (hr : RowRoom clock (rows ++ more) n) : RowRoom clock rows n :=
  ⟨hr.clock_lt, fun row hro => hr.rows_lt row (mem_append_left _ hro)⟩

lemma written_assignRows (hr : RowRoom (s.clock base) rows n) (hl : rows.length ≤ n)
    (h : assignRows instanceId base flags start i s rows = some (out, s')) :
    List.Forall₂ SameRow rows out ∧ Consecutive (s.clock base) (rows.zip out) ∧
      advanceAll (s.clock base) out = s'.clock base := by
  induction rows generalizing start i s out n with
  | nil =>
    cases h
    exact ⟨Forall₂.nil, trivial, rfl⟩
  | cons row rows ih =>
    obtain ⟨n, rfl⟩ : ∃ m, n = m + 1 := ⟨n - 1, by rw [length_cons] at hl; omega⟩
    obtain ⟨row', rest, s₁, rfl, hro, hre⟩ := assignRows_cons h
    have hne : RowRoom (s₁.clock base) rows n := by
      rw [clock_assignRow hro]
      exact hr.next
    obtain ⟨hs, hc, hcl⟩ := ih hne (Nat.le_of_succ_le_succ hl) hre
    have ha := advance_assignRow hr hro
    refine ⟨Forall₂.cons (sameRow_assignRow hro) hs, ⟨?_, ?_⟩, ?_⟩
    · intro hnw
      have hn := assignRow_new hro hnw
      rw [hn.lsn_eq, hn.replicaId_eq, newLsn, Numbering.clock]
      congr 1
      omega
    · rw [ha]
      exact hc
    · rw [advanceAll, foldl_cons, ha]
      exact hcl

/-- The clock of a batch: what is in the file and what is not. -/
def batchClock (diff base : Clock) : Clock := fun id => diff id + base id

lemma walAssignLsn_spec {diff : Clock} (hi : instanceId.toNat < vclockMax)
    (hw : ∀ row ∈ entry.rows, WellFormed row)
    (ha : Accepts instanceId (batchClock diff base) entry.rows)
    (hro : RowRoom (batchClock diff base) entry.rows n) (hl : entry.rows.length ≤ n) :
    ∃ diff' entry', walAssignLsn instanceId diff base entry = some (diff', entry') ∧
      List.Forall₂ SameRow entry.rows entry'.rows ∧
      Consecutive (batchClock diff base) (entry.rows.zip entry'.rows) ∧
      advanceAll (batchClock diff base) entry'.rows = batchClock diff' base ∧
      (∀ row ∈ entry'.rows, WellFormed row) ∧
      batchClock diff' base = entry.rows.foldl (nextClock instanceId) (batchClock diff base) := by
  obtain ⟨⟨out, s⟩, hr⟩ := Option.isSome_iff_exists.mp
    (assignRows_isSome entry.flags none 0 ⟨diff, 0, 0⟩ hi (fun row hrw => (hw row hrw).replica) ha)
  obtain ⟨hs, hc, hcl⟩ := written_assignRows (s := ⟨diff, 0, 0⟩) hro hl hr
  have hf := sameNumber_fillTsn s out
  refine ⟨s.diff, { entry with rows := fillTsn s out }, ?_, ?_, ?_, ?_, ?_, ?_⟩
  · simp [walAssignLsn, hr]
  · exact sameRow_sameNumber hs hf
  · exact consecutive_sameNumber hf hc
  · rw [advanceAll_sameNumber hf]
    exact hcl
  · exact wellFormed_fillTsn (wellFormed_assignRows hr hw)
  · exact clock_assignRows hr

end

section

variable {env : Env} {log : Log} {fails : Nat → Bool} {result : WriteResult} {now : UInt64}
  {j : Nat}
  {row : Header} {rows : List Header}

lemma wellFormed_stamp (now : UInt64) (h : WellFormed row) : WellFormed (stamp now row) :=
  ⟨h.replica, h.group, h.iov, h.body⟩

lemma writeRow_tx (env : Env) (result : WriteResult) (ha : log.isAutocommit = false)
    (hr : WellFormed row) :
    log.writeRow env false result row = some (((rowBytes row).length : Int), { log with
      current := log.current ++ [row], obuf := some (log.obuf.getD [] ++ rowBytes row) }) := by
  have he := headerEncode_eq hr.replica hr.group hr.iov 0
  rw [Log.writeRow, if_neg (by decide), he, Option.map_some, flatten_cons, ← rowBytes]
  simp [Log.autocommit, Log.addRow, Log.note, ha]

lemma writeRows_spec (fails : Nat → Bool) (now : UInt64) (j : Nat) (hi : log.Inv env)
    (ha : log.isAutocommit = false)
    (hwf : ∀ row ∈ rows, WellFormed row) :
    ∃ buffered log' rows', writeRows env fails now j log rows = some (buffered, log', rows') ∧
      log'.Inv env ∧ log'.blocks = log.blocks ∧
      (buffered = true → rows' = rows.map (stamp now) ∧ log'.pending = log.pending ∧
        log'.current = log.current ++ rows') := by
  induction rows generalizing j log with
  | nil => exact ⟨true, log, [], rfl, hi, rfl, fun _ => ⟨rfl, rfl, by simp⟩⟩
  | cons row rows ih =>
    obtain ⟨hro, hwf⟩ := forall_mem_cons.mp hwf
    cases hf : fails j with
    | true =>
      have hw : log.writeRow env true .written (stamp now row) =
          some (-1, { log with obuf := some (log.obuf.getD []) }) := rfl
      refine ⟨false, { log with obuf := some (log.obuf.getD []) }, stamp now row :: rows, ?_,
        hi.reserve, rfl, by simp⟩
      simp [writeRows, hf, hw]
    | false =>
      have hw := writeRow_tx env .written ha (wellFormed_stamp now hro)
      have hi' := hi.writeRow (wellFormed_stamp now hro) hw
      obtain ⟨buffered, log', rows', hr, hi'', hbl, hb⟩ := ih (j + 1) hi' ha hwf
      refine ⟨buffered, log', stamp now row :: rows', ?_, hi'', hbl, ?_⟩
      · have hpo : ¬ ((rowBytes (stamp now row)).length : Int) < 0 := by omega
        simp [writeRows, hf, hw, hpo, hr]
      · intro ht
        obtain ⟨hr', hp, hc⟩ := hb ht
        refine ⟨by rw [hr', map_cons], hp, ?_⟩
        rw [hc]
        simp

lemma rowBytes_ne_nil (row : Header) : rowBytes row ≠ [] := by
  have hm : mpEncodeMap (row.fields 0).length ≠ [] := by
    unfold mpEncodeMap
    split_ifs <;> simp [storeBe]
  simp [rowBytes, Header.head, hm]

/-- What `xlog_tx_write` can do to a buffer that holds rows. -/
lemma txWrite_spec (result : WriteResult) (hi : log.Inv env) (hc : log.current = [])
    (hn : log.pending.flatten ≠ []) :
    (log.txWrite env result).2.pending = [] ∧
      (log.txWrite env result).2.isAutocommit = log.isAutocommit ∧
      ((log.txWrite env result).1 = -1 ∧ (log.txWrite env result).2.blocks = log.blocks ∨
        (log.txWrite env result).1 = (env.encode log.pending).length ∧
          (log.txWrite env result).2.blocks = log.blocks ++ [log.pending]) := by
  have hr : log.obuf.getD [] = rowsBytes log.pending.flatten := by
    rw [hi.obuf_eq, hc, append_nil]
  have hs : log.obufSize ≠ xlogFixheaderSize := by
    obtain ⟨row, rows, hcons⟩ := exists_cons_of_ne_nil hn
    have hb : log.obuf.getD [] ≠ [] := by
      rw [hr, hcons, rowsBytes, flatMap_cons]
      simp [rowBytes_ne_nil row]
    unfold Log.obufSize
    cases ho : log.obuf with
    | none => decide
    | some bytes =>
      rw [ho, Option.getD_some] at hb
      have hp := length_pos_iff.mpr hb
      simp only
      omega
  rw [Log.txWrite, if_neg hs]
  cases result with
  | written =>
    refine ⟨rfl, rfl, .inr ⟨?_, rfl⟩⟩
    simp [hr, Env.encode]
  | failed left => exact ⟨rfl, rfl, .inl ⟨rfl, rfl⟩⟩

/-- What `xlog_write_entry` can do: the buffer is dropped, the entry is buffered, or it is
written with all that is buffered. -/
lemma xlogWriteEntry_spec (fails : Nat → Bool) (result : WriteResult) (now : UInt64)
    (hi : log.Inv env) (ha : log.isAutocommit = true)
    (hwf : ∀ row ∈ rows, WellFormed row) (hn : rows ≠ []) :
    ∃ rc log' rows', xlogWriteEntry env fails result now log rows = some (rc, log', rows') ∧
      log'.Inv env ∧ log'.isAutocommit = true ∧
      (rc = -1 ∧ log'.pending = [] ∧ log'.blocks = log.blocks ∨ rows' = rows.map (stamp now) ∧
          (rc = 0 ∧ log'.pending = log.pending ++ [rows'] ∧ log'.blocks = log.blocks ∨
            rc = (env.encode (log.pending ++ [rows'])).length ∧ log'.pending = [] ∧
              log'.blocks = log.blocks ++ [log.pending ++ [rows']])) := by
  have hc := hi.autocommit ha
  obtain ⟨buffered, log₁, rows', hr, hi₁, hb, hbu⟩ := writeRows_spec fails now 0 hi.txBegin rfl hwf
  cases ho : buffered with
  | false =>
    refine ⟨-1, log₁.txRollback, rows', ?_, hi₁.txRollback, rfl, .inl ⟨rfl, rfl, hb⟩⟩
    simp [xlogWriteEntry, hr, ho]
  | true =>
    obtain ⟨hr', hp, hc₁⟩ := hbu ho
    have hn' : log₁.current ≠ [] := by
      rw [hc₁, hr']
      simp [hn]
    have hen : log₁.endTx.pending = log.pending ++ [rows'] := by
      have ht : log₁.current = rows' := by
        rw [hc₁]
        simp [Log.txBegin, hc]
      have hpe : log.txBegin.pending = log.pending := rfl
      rw [Log.endTx, if_neg hn', hp, ht, hpe]
    have he : xlogWriteEntry env fails result now log rows =
        some ((log₁.txCommit env result).1, (log₁.txCommit env result).2, rows') := by
      simp [xlogWriteEntry, hr, ho]
    have hf : log₁.endTx.pending.flatten ≠ [] := by
      rw [hen, hr', flatten_append]
      simp [hn]
    obtain ⟨hp', ha', hw⟩ := txWrite_spec result hi₁.endTx rfl hf
    refine ⟨_, _, rows', he, hi₁.txCommit, ?_⟩
    rw [Log.txCommit]
    split
    · refine ⟨ha', ?_⟩
      rcases hw with ⟨hrc, hs⟩ | ⟨hrc, hm⟩
      · exact .inl ⟨hrc, hp', hs.trans hb⟩
      · refine .inr ⟨hr', .inr ⟨?_, hp', ?_⟩⟩
        · rw [hrc, hen]
        · rw [hm, hen]
          exact congrArg (· ++ _) hb
    · exact ⟨rfl, .inr ⟨hr', .inl ⟨rfl, hen, hb⟩⟩⟩

end

end TarantoolStorage.Wal
