import TarantoolStorage.Wal.Assign

/-! A transaction on its way through the log: laid out, numbered, and found again by recovery. -/
namespace TarantoolStorage.Wal

open Checked MsgPack Xrow List Header

/-- `txn_stmt`: its row, unless it is a read, and whether its space is synchronous. -/
structure Stmt where
  row : Option Header
  isSync : Bool := false

/-- `txn`: the statements and the flags that are of interest to the journal. -/
structure Txn where
  stmts : List Stmt
  forceAsync : Bool := false
  waitSync : Bool := false
  waitAck : Bool := false

def Txn.rows (txn : Txn) : List Header := txn.stmts.filterMap Stmt.row

/-- The rows counted by `n_new_rows`, `n_local_rows` and `n_applier_rows`. -/
def Txn.newRows (txn : Txn) : List Header := txn.rows.filter (·.replicaId = 0)
def Txn.localRows (txn : Txn) : List Header := txn.newRows.filter (·.groupId = groupLocal)
def Txn.applierRows (txn : Txn) : List Header := txn.rows.filter (·.replicaId ≠ 0)

def Txn.isFullyNop (txn : Txn) : Bool := txn.rows.all (·.type = iprotoNop)

def Txn.isSync (txn : Txn) : Bool :=
  txn.stmts.any fun stmt => stmt.isSync && stmt.row.any (·.type ≠ iprotoNop)

/-- The flags a transaction gets when its entry is made. -/
def Txn.prepareFlags (txn : Txn) (limboIsEmpty : Bool) : Txn :=
  if txn.forceAsync = false ∧ txn.isFullyNop = false then
    if txn.isSync = true then { txn with waitSync := true, waitAck := true }
    else if limboIsEmpty = false then { txn with waitSync := true }
    else txn
  else txn

def Txn.entryFlags (txn : Txn) : UInt8 :=
  (if txn.waitSync then iprotoFlagWaitSync else 0) |||
    (if txn.waitAck then iprotoFlagWaitAck else 0)

/-- The row that ends a transaction whose last row is local. -/
def nopRow : Header := { Header.zero with type := iprotoNop, groupId := groupDefault }

/-- A global transaction must not end with a local row. -/
def Txn.needsNop (txn : Txn) : Prop :=
  txn.localRows.length > 0 ∧
    (txn.localRows.length ≠ txn.newRows.length ∨ txn.applierRows.length > 0) ∧
    (txn.newRows.getLast?.all (·.groupId = groupLocal)) = true

instance (txn : Txn) : Decidable txn.needsNop := inferInstanceAs (Decidable (_ ∧ _ ∧ _))

/-- The rows of other instances come first. -/
def Txn.journalRows (txn : Txn) : List Header :=
  txn.applierRows ++ (txn.newRows ++ (if txn.needsNop then [nopRow] else []))

def txnJournalEntryNew (limboIsEmpty : Bool) (txn : Txn) : Option (Txn × Entry) := do
  assertThat (txn.newRows.length + txn.applierRows.length > 0)
  let rows := txn.journalRows
  let txn := txn.prepareFlags limboIsEmpty
  return (txn, { rows := rows, flags := txn.entryFlags })

/-- `wal_stream`, with the rows applied in the transaction that is open and the transactions
committed so far. -/
structure Stream where
  tsn : Int64 := 0
  firstRowLsn : Int64 := 0
  hasGlobalRow : Bool := false
  applied : List Header := []
  committed : List (List Header) := []

/-- The transaction a row belongs to: the one that is open, or a new one. -/
def Stream.enter (stream : Stream) (row : Header) : Decode Stream :=
  if stream.tsn = 0 then
    if row.tsn = 0 then throw "found a row without TSN"
    else return { stream with
      tsn := row.tsn, firstRowLsn := row.lsn, hasGlobalRow := false, applied := [] }
  else if row.tsn ≠ stream.tsn then
    throw "found a next transaction with the previous one not yet committed"
  else return stream

/-- The id of a transaction is the LSN of its first global row. -/
def Stream.checkGlobal (stream : Stream) (row : Header) : Decode Stream :=
  if stream.hasGlobalRow = false ∧ row.groupId ≠ groupLocal then
    if row.tsn ≠ row.lsn then
      throw "found a first global row in a transaction with LSN/TSN mismatch"
    else return { stream with hasGlobalRow := true }
  else return stream

def Stream.finish (stream : Stream) (row : Header) : Decode Stream :=
  if row.isCommit = false then return stream
  else if stream.hasGlobalRow = false ∧ stream.tsn ≠ stream.firstRowLsn then
    throw "fully local transaction's TSN does not match LSN of the first row"
  else return { stream with
    tsn := 0, applied := [], committed := stream.committed ++ [stream.applied] }

section

-- What becomes of the request itself: it is found well formed and executed, or refused.
variable (process : Header → Decode Unit)

/-- A NOP is not executed. -/
def execute (row : Header) : Decode Unit :=
  if row.type ≠ iprotoNop then process row else return ()

/-- `wal_stream_apply_dml_row`. -/
def Stream.applyDmlRow (stream : Stream) (row : Header) : Decode Stream := do
  let stream ← stream.enter row
  let stream ← stream.checkGlobal row
  execute process row
  { stream with applied := stream.applied ++ [row] }.finish row

def reread (row : Header) : Decode Header := do
  let iov ← ExceptT.lift (headerEncode row 0)
  let (row, _) ← headerDecode iov.flatten false
  return row

/-- The rows are written to the log and applied one by one. -/
def Stream.replay : Stream → List Header → Decode Stream
  | stream, [] => return stream
  | stream, row :: rows => do
    let row ← reread row
    let stream ← stream.applyDmlRow process row
    stream.replay rows

lemma reread_eq {row : Header} (h : WellFormed row) : reread row = pure (row.readBack 0) := by
  have he := headerEncode_eq h.replica h.group h.iov 0
  have hb : row.body.flatten = [] ∧ (([] : Bytes) = [] ∨ row.type = iprotoNop) ∨
      row.type ≠ iprotoNop ∧ mpCheck row.body.flatten = some [] :=
    h.body.imp_left fun ⟨hn, _⟩ => ⟨hn, .inl rfl⟩
  have hd := headerDecode_append false hb (by simp) 0
  rw [append_nil] at hd
  have hl : (ExceptT.lift (some (row.head 0 :: row.body)) : Decode (List Bytes)) =
      pure (row.head 0 :: row.body) := rfl
  rw [reread, he, hl, pure_bind, flatten_cons, hd, pure_bind]

/-- All but the last row are marked as open, the last one as committed. -/
structure Marked (rows : List Header) : Prop where
  ne : rows ≠ []
  isOpen : ∀ row ∈ rows.dropLast, row.isCommit = false
  isClosed : ∀ row ∈ rows.getLast?, row.isCommit = true

lemma marked_cons {row next : Header} {rows : List Header} (h : Marked (row :: next :: rows)) :
    row.isCommit = false ∧ Marked (next :: rows) := by
  obtain ⟨-, ho, hc⟩ := h
  rw [dropLast_cons_cons, forall_mem_cons] at ho
  rw [getLast?_cons_cons] at hc
  exact ⟨ho.1, by simp, ho.2, hc⟩

def isGlobal (row : Header) : Bool := row.groupId ≠ groupLocal

/-- Rows of one transaction up to its end. -/
structure Tail (tsn : Int64) (rows : List Header) : Prop where
  marked : Marked rows
  nonzero : tsn ≠ 0
  same : ∀ row ∈ rows, row.tsn = tsn

structure Grouped (tsn : Int64) (rows : List Header) : Prop extends Tail tsn rows where
  first : ∀ row ∈ (rows.find? isGlobal).or rows.head?, row.lsn = tsn

/-- The rows are committed as one transaction of exactly these rows. -/
def Regrouped (stream : Stream) (rows : List Header) : Prop :=
  ∃ stream' back, stream.replay process rows = pure stream' ∧ stream'.tsn = 0 ∧
    stream'.committed = stream.committed ++ [back] ∧
    List.Forall₂ (fun row row' => row.Agrees row' 0) rows back

section

variable {process} {stream stream' : Stream} {row : Header} {rows : List Header} {tsn : Int64}

/-- The first row opens a transaction. -/
def Stream.begin (stream : Stream) (row : Header) : Stream :=
  { stream with tsn := row.tsn, firstRowLsn := row.lsn, hasGlobalRow := false, applied := [] }

lemma applyDmlRow_begin (process : Header → Decode Unit) (row : Header) (h : stream.tsn = 0)
    (hro : row.tsn ≠ 0) :
    stream.applyDmlRow process row = (stream.begin row).applyDmlRow process row := by
  have hl : stream.enter row = pure (stream.begin row) := by
    rw [Stream.enter, if_pos h, if_neg hro]
    rfl
  have hr : (stream.begin row).enter row = pure (stream.begin row) := by
    have ht : (stream.begin row).tsn = row.tsn := rfl
    rw [Stream.enter, ht, if_neg hro, if_neg (by simp)]
  simp [Stream.applyDmlRow, hl, hr]

lemma applyDmlRow_open (row : Header) (hp : ∀ row, process row = pure ())
    (hr : row.tsn ≠ 0) (ht : stream.tsn = row.tsn)
    (hgl : stream.hasGlobalRow = false → isGlobal row = true → row.lsn = row.tsn) :
    stream.applyDmlRow process row = { stream with
        hasGlobalRow := stream.hasGlobalRow || isGlobal row
        applied := stream.applied ++ [row] }.finish row := by
  obtain ⟨tsn, firstRowLsn, seen, applied, committed⟩ := stream
  obtain rfl : tsn = row.tsn := ht
  have he : Stream.enter ⟨row.tsn, firstRowLsn, seen, applied, committed⟩ row =
      pure ⟨row.tsn, firstRowLsn, seen, applied, committed⟩ := by
    rw [Stream.enter, if_neg hr, if_neg (by simp)]
  have hc : Stream.checkGlobal ⟨row.tsn, firstRowLsn, seen, applied, committed⟩ row =
      pure ⟨row.tsn, firstRowLsn, seen || isGlobal row, applied, committed⟩ := by
    cases seen with
    | true => simp [Stream.checkGlobal]
    | false =>
      cases hk : isGlobal row with
      | true =>
        have hg : row.groupId ≠ groupLocal := by simpa [isGlobal] using hk
        simp [Stream.checkGlobal, hg, hgl rfl hk]
      | false =>
        have hg : row.groupId = groupLocal := by simpa [isGlobal] using hk
        simp [Stream.checkGlobal, hg]
  simp [Stream.applyDmlRow, he, hc, pure_bind, execute, hp]

/-- What is left of a transaction that is open commits it. -/
lemma replay_open (stream : Stream) (hp : ∀ row, process row = pure ())
    (hwf : ∀ row ∈ rows, WellFormed row) (hm : Marked rows) (hne : tsn ≠ 0)
    (hsm : ∀ row ∈ rows, row.tsn = tsn) (ht : stream.tsn = tsn)
    (hf : stream.hasGlobalRow = false → ∀ row ∈ rows.find? isGlobal, row.lsn = tsn)
    (hl : stream.hasGlobalRow = false → rows.find? isGlobal = none → stream.firstRowLsn = tsn) :
    ∃ stream' back, stream.replay process rows = pure stream' ∧ stream'.tsn = 0 ∧
      stream'.committed = stream.committed ++ [stream.applied ++ back] ∧
      List.Forall₂ (fun row row' => row.Agrees row' 0) rows back := by
  induction rows generalizing stream with
  | nil => exact absurd rfl hm.ne
  | cons row rows ih =>
    obtain ⟨hwf, hw⟩ := forall_mem_cons.mp hwf
    obtain ⟨hro, hsa⟩ := forall_mem_cons.mp hsm
    have ht' : row.tsn ≠ 0 := by
      rw [hro]
      exact hne
    have ha := agrees_readBack ht' 0
    have hk : isGlobal (row.readBack 0) = isGlobal row := by
      simp [isGlobal, ha.groupId_eq]
    have hap := applyDmlRow_open (row.readBack 0) hp (by rw [ha.tsn_eq, hro]; exact hne)
      (by rw [ht, ha.tsn_eq, hro]) (by
        intro hs hg
        rw [hk] at hg
        rw [ha.lsn_eq, ha.tsn_eq, hro]
        exact hf hs row (by rw [find?_cons_of_pos hg]; rfl))
    rw [hk] at hap
    simp only [Stream.replay, reread_eq hwf, pure_bind, hap]
    cases rows with
    | nil =>
      have hco : (row.readBack 0).isCommit = true := by
        rw [ha.isCommit_eq]
        exact hm.isClosed row rfl
      have he : ¬ ((stream.hasGlobalRow || isGlobal row) = false ∧
          stream.tsn ≠ stream.firstRowLsn) := by
        rintro ⟨hn, hd⟩
        obtain ⟨hs, hro⟩ := Bool.or_eq_false_iff.mp hn
        exact hd (by rw [ht, hl hs (by simp [hro])])
      simp only [Stream.finish, hco, Bool.true_eq_false, if_false, if_neg he, pure_bind,
        Stream.replay]
      exact ⟨_, [row.readBack 0], rfl, rfl, rfl, Forall₂.cons ha Forall₂.nil⟩
    | cons next rows =>
      obtain ⟨ho, hm⟩ := marked_cons hm
      have ho : (row.readBack 0).isCommit = false := ha.isCommit_eq.trans ho
      simp only [Stream.finish, ho, if_true, pure_bind]
      obtain ⟨stream', back, hr, hz, hc, hb⟩ := ih { stream with
          hasGlobalRow := stream.hasGlobalRow || isGlobal row
          applied := stream.applied ++ [row.readBack 0] } hw hm hsa ht
        (by
          intro hn
          obtain ⟨hs, hro⟩ := Bool.or_eq_false_iff.mp hn
          have hf := hf hs
          rwa [find?_cons_of_neg (by simp [hro])] at hf)
        (by
          intro hn hal
          obtain ⟨hs, hro⟩ := Bool.or_eq_false_iff.mp hn
          exact hl hs (by rw [find?_cons_of_neg (by simp [hro]), hal]))
      refine ⟨stream', row.readBack 0 :: back, hr, hz, ?_, Forall₂.cons ha hb⟩
      rw [hc]
      simp

/-- Rows numbered as one transaction are committed as one. -/
lemma regrouped_of_grouped (hp : ∀ row, process row = pure ())
    (hw : ∀ row ∈ rows, WellFormed row) (hz : stream.tsn = 0) (h : Grouped tsn rows) :
    Regrouped process stream rows := by
  obtain ⟨row, rows, rfl⟩ := exists_cons_of_ne_nil h.marked.ne
  have hro : row.tsn = tsn := h.same row (by simp)
  have ht : row.tsn ≠ 0 := by
    rw [hro]
    exact h.nonzero
  have ha := agrees_readBack ht 0
  have ho : (stream.begin (row.readBack 0)).tsn = tsn := ha.tsn_eq.trans hro
  have hb : stream.replay process (row :: rows) =
      (stream.begin (row.readBack 0)).replay process (row :: rows) := by
    have hap := applyDmlRow_begin process (row.readBack 0) hz
      (by rw [ha.tsn_eq, hro]; exact h.nonzero)
    simp [Stream.replay, reread_eq (hw row (by simp)), pure_bind, hap]
  obtain ⟨stream', back, hr, hcl, hc, hba⟩ :=
    replay_open _ hp hw h.marked h.nonzero h.same ho
      (fun _ first hf => h.first first (by rw [Option.mem_def.mp hf]; rfl))
      (fun _ hn => by
        have hl : (row.readBack 0).lsn = row.lsn := ha.lsn_eq
        exact hl.trans (h.first row (by rw [hn]; rfl)))
  exact ⟨stream', back, hb.trans hr, hcl, hc, hba⟩

/-- The rest of a transaction is refused. -/
lemma firstRow_of_regrouped (hw : WellFormed row) (hz : stream.tsn = 0) (ht : row.tsn ≠ 0)
    (hg : isGlobal row = true) (h : Regrouped process stream (row :: rows)) :
    row.lsn = row.tsn := by
  obtain ⟨stream', -, hr, -⟩ := h
  have ha := agrees_readBack ht 0
  rw [Stream.replay, reread_eq hw, pure_bind,
    applyDmlRow_begin process _ hz (by rwa [ha.tsn_eq])] at hr
  obtain ⟨stream₁, hr, -⟩ := decode_bind_eq_pure.mp hr
  obtain ⟨stream₂, he, hr⟩ := decode_bind_eq_pure.mp hr
  obtain ⟨stream₃, hc, -⟩ := decode_bind_eq_pure.mp hr
  have hb : (stream.begin (row.readBack 0)).enter (row.readBack 0) =
      pure (stream.begin (row.readBack 0)) := by
    simp [Stream.enter, Stream.begin, ha.tsn_eq, ht]
  cases hb.symm.trans he
  by_contra hne
  have hgl : (row.readBack 0).groupId ≠ groupLocal := by
    simpa [isGlobal, ha.groupId_eq] using hg
  rw [Stream.checkGlobal, if_pos ⟨rfl, hgl⟩, ha.tsn_eq, ha.lsn_eq, if_pos (Ne.symm hne)] at hc
  cases hc

lemma committed_enter {stream₁ : Stream} (h : stream.enter row = pure stream₁) :
    stream₁.committed = stream.committed := by
  unfold Stream.enter at h
  split_ifs at h <;> cases h <;> rfl

lemma committed_checkGlobal {stream₁ : Stream} (h : stream.checkGlobal row = pure stream₁) :
    stream₁.committed = stream.committed := by
  unfold Stream.checkGlobal at h
  split_ifs at h <;> cases h <;> rfl

lemma committed_finish (h : stream.finish row = pure stream') :
    stream'.committed.length = stream.committed.length + (if row.isCommit then 1 else 0) := by
  unfold Stream.finish at h
  split_ifs at h with ho hb
  · cases h
    simp [ho]
  · cases h
  · cases h
    simp [ho]

lemma committed_applyDmlRow (h : stream.applyDmlRow process row = pure stream') :
    stream'.committed.length = stream.committed.length + (if row.isCommit then 1 else 0) := by
  obtain ⟨stream₁, he, h⟩ := decode_bind_eq_pure.mp h
  obtain ⟨stream₂, hc, h⟩ := decode_bind_eq_pure.mp h
  obtain ⟨_, -, h⟩ := decode_bind_eq_pure.mp h
  rw [committed_finish h, committed_checkGlobal hc, committed_enter he]

lemma isCommit_readBack (h : row.isCommit = true) : (row.readBack 0).isCommit = true := by
  rw [(single_agrees_readBack row).isCommit_eq, single]
  split
  · exact decide_eq_true (commit_byte row.flags).1
  · exact h

/-- A replay that succeeds commits at every row that is marked. -/
lemma length_committed (hwf : ∀ row ∈ rows, WellFormed row)
    (h : stream.replay process rows = pure stream') :
    stream.committed.length + rows.countP isCommit ≤ stream'.committed.length := by
  induction rows generalizing stream with
  | nil =>
    cases h
    exact Nat.le_refl _
  | cons row rows ih =>
    obtain ⟨hwf, hw⟩ := forall_mem_cons.mp hwf
    simp only [Stream.replay, reread_eq hwf, pure_bind] at h
    obtain ⟨stream₁, ha, h⟩ := decode_bind_eq_pure.mp h
    have hstep := committed_applyDmlRow ha
    have hr := ih hw h
    rw [countP_cons]
    cases hc : row.isCommit with
    | true =>
      rw [isCommit_readBack hc] at hstep
      simp only [if_true] at hstep ⊢
      omega
    | false =>
      simp only [Bool.false_eq_true, if_false]
      omega

end

end

/-- The transactions in question: new rows of any spaces, or rows that another instance has numbered
as one transaction (`applier_apply_tx` leaves out those that were applied before), with rows of
local spaces. -/
structure Txn.Valid (txn : Txn) : Prop where
  nonempty : txn.rows ≠ []
  wellFormed : ∀ row ∈ txn.rows, WellFormed row
  fresh : ∀ row ∈ txn.newRows, row.isCommit = false
  unmixed : txn.applierRows = [] ∨ ∀ row ∈ txn.newRows, row.groupId = groupLocal
  isGlobal : ∀ row ∈ txn.applierRows, isGlobal row = true
  received : txn.applierRows = [] ∨ ∃ tsn, Tail tsn txn.applierRows

/-- Nothing of the transaction received was applied before. -/
def Txn.IsWhole (txn : Txn) : Prop := ∀ row ∈ txn.applierRows.head?, row.lsn = row.tsn

def recordTxn (instanceId : UInt32) (diff base : Clock) (limboIsEmpty : Bool) (txn : Txn) :
    Option (List Header) := do
  let (_, entry) ← txnJournalEntryNew limboIsEmpty txn
  let (_, entry) ← walAssignLsn instanceId diff base entry
  return entry.rows

section

variable {process : Header → Decode Unit} {stream : Stream} {instanceId : UInt32}
  {diff base : Clock} {flags : UInt8} {limboIsEmpty : Bool} {txn : Txn} {s : Numbering}
  {rows out : List Header} {row : Header}

lemma length_rows (txn : Txn) : txn.newRows.length + txn.applierRows.length = txn.rows.length := by
  have h := length_eq_length_filter_add (l := txn.rows) (fun row => decide (row.replicaId = 0))
  rw [h, Txn.newRows, Txn.applierRows]
  simp

lemma replicaId_of_mem_newRows (h : row ∈ txn.newRows) : row.replicaId = 0 := by
  simpa using (mem_filter.mp h).2

lemma replicaId_of_mem_applierRows (h : row ∈ txn.applierRows) : row.replicaId ≠ 0 := by
  simpa using (mem_filter.mp h).2

lemma wellFormed_nopRow : WellFormed nopRow := ⟨by decide, .inl rfl, by decide, .inl ⟨rfl, rfl⟩⟩

lemma replicaId_new (h : row ∈ txn.newRows ++ (if txn.needsNop then [nopRow] else [])) :
    row.replicaId = 0 := by
  rcases mem_append.mp h with h | h
  · exact replicaId_of_mem_newRows h
  · split_ifs at h
    · rw [mem_singleton.mp h]
      rfl
    · cases h

lemma wellFormed_journalRows (h : ∀ row ∈ txn.rows, WellFormed row) :
    ∀ row ∈ txn.journalRows, WellFormed row := by
  intro row hr
  rcases mem_append.mp hr with hr | hr
  · exact h row (mem_filter.mp hr).1
  · rcases mem_append.mp hr with hr | hr
    · exact h row (mem_filter.mp hr).1
    · split_ifs at hr
      · rw [mem_singleton.mp hr]
        exact wellFormed_nopRow
      · cases hr

lemma recordTxn_eq_some (h : recordTxn instanceId diff base limboIsEmpty txn = some rows) :
    ∃ flags out s, assignRows instanceId base flags none 0 ⟨diff, 0, 0⟩ txn.journalRows =
      some (out, s) ∧ rows = fillTsn s out := by
  obtain ⟨⟨txn', entry⟩, he, h⟩ := Option.bind_eq_some_iff.mp h
  obtain ⟨⟨diff', entry'⟩, ha, h⟩ := Option.bind_eq_some_iff.mp h
  obtain ⟨-, he⟩ := assert_bind_eq_some.mp he
  cases he
  obtain ⟨⟨out, s⟩, hr, ha⟩ := Option.bind_eq_some_iff.mp ha
  cases ha
  cases h
  exact ⟨_, out, s, hr, rfl⟩

lemma isCommit_fillTsn (s : Numbering) (rows : List Header) :
    (fillTsn s rows).map isCommit = rows.map isCommit := by
  have hs : isCommit ∘ withTsn s.tsn = isCommit := rfl
  rw [fillTsn, map_append, map_map, hs, ← map_append, take_append_drop]

lemma marked_of_map {before : List Bool} (h : rows.map isCommit = before ++ [true])
    (hb : ∀ mark ∈ before, mark = false) : Marked rows := by
  obtain ⟨front, back, rfl, hf, hba⟩ := map_eq_append_iff.mp h
  obtain ⟨last, rest, rfl, hl, hr⟩ := map_eq_cons_iff.mp hba
  obtain rfl := map_eq_nil_iff.mp hr
  refine ⟨by simp, ?_, ?_⟩
  · intro row hro
    rw [dropLast_concat] at hro
    exact hb _ (hf ▸ mem_map_of_mem hro)
  · intro row hro
    rw [getLast?_concat, Option.mem_some_iff] at hro
    rw [← hro, hl]

lemma marked_of_new (hne : rows ≠ []) (hn : ∀ row ∈ rows, row.replicaId = 0)
    (hf : ∀ row ∈ rows, row.isCommit = false)
    (h : assignRows instanceId base flags none 0 ⟨diff, 0, 0⟩ rows = some (out, s)) :
    Marked (fillTsn s out) := by
  obtain ⟨front, last, rfl⟩ := (eq_nil_or_concat' rows).resolve_left hne
  have hma := isCommit_assignRows h
  rw [hn last (by simp), decide_eq_true rfl, Bool.or_true, ← isCommit_fillTsn s] at hma
  refine marked_of_map hma fun mark hm => ?_
  obtain ⟨row, hr, rfl⟩ := mem_map.mp hm
  exact hf row (by simp [hr])

lemma grouped_of_new (hne : rows ≠ []) (hnw : ∀ row ∈ rows, row.replicaId = 0)
    (hfr : ∀ row ∈ rows, row.isCommit = false) (hr : Room base diff rows.length)
    (h : assignRows instanceId base flags none 0 ⟨diff, 0, 0⟩ rows = some (out, s)) :
    ∃ tsn, Grouped tsn (fillTsn s out) := by
  have hm := marked_of_new hne hnw hfr h
  by_cases hg : ∃ row ∈ rows, row.groupId ≠ groupLocal
  · obtain ⟨hz, before, first, after, rfl, hle, hb, hf, hls, hal⟩ :=
      assignRows_global hnw hg rfl hr h
    have hfi : fillTsn s (before ++ first :: after) =
        before.map (withTsn s.tsn) ++ first :: after := by
      rw [fillTsn, hle, Nat.zero_add, take_left, drop_left]
    rw [hfi] at hm ⊢
    refine ⟨s.tsn, ⟨hm, hz, ?_⟩, ?_⟩
    · intro row hro
      rcases mem_append.mp hro with hro | hro
      · obtain ⟨row, -, rfl⟩ := mem_map.mp hro
        rfl
      · exact hal row hro
    · intro row hro
      have hfn : (before.map (withTsn s.tsn) ++ first :: after).find? isGlobal = some first := by
        have hn : (before.map (withTsn s.tsn)).find? isGlobal = none := by
          rw [find?_eq_none]
          intro row hro
          obtain ⟨row, hme, rfl⟩ := mem_map.mp hro
          simp [isGlobal, withTsn, hb row hme]
        rw [find?_append, hn, Option.none_or, find?_cons_of_pos (by simpa [isGlobal] using hf)]
      rw [hfn] at hro
      obtain rfl : first = row := by simpa using hro
      exact hls
  · have hl : ∀ row ∈ rows, row.groupId = groupLocal := by
      intro row hro
      by_contra hne
      exact hg ⟨row, hro, hne⟩
    obtain ⟨-, hle, hal⟩ := assignRows_local h hnw hl rfl
    have hfi : fillTsn s out = out := by
      rw [fillTsn, hle]
      rfl
    rw [hfi] at hm ⊢
    obtain ⟨row, rows, rfl⟩ := exists_cons_of_ne_nil hne
    obtain ⟨row', rest, s₁, rfl, ha, hre⟩ := assignRows_cons h
    have hnu := assignRow_new ha (hnw row (by simp))
    refine ⟨row'.lsn, ⟨hm, hnu.lsn_ne_zero hr, ?_⟩, ?_⟩
    · intro row hro
      simpa using hal row hro
    · have hn : (row' :: rest).find? isGlobal = none := by
        rw [find?_eq_none]
        intro other hot
        have hgr : other.groupId ∈ (row :: rows).map groupId :=
          groupId_assignRows h ▸ mem_map_of_mem hot
        obtain ⟨origin, ho, he⟩ := mem_map.mp hgr
        simpa [isGlobal, ← he] using hl origin ho
      intro first hf
      rw [hn] at hf
      obtain rfl : row' = first := by simpa using hf
      rfl

lemma length_journalRows_le (txn : Txn) :
    (txn.newRows ++ (if txn.needsNop then [nopRow] else [])).length ≤ txn.rows.length + 1 := by
  have hl := length_rows txn
  rw [length_append]
  split_ifs
  · rw [length_singleton]
    omega
  · rw [length_nil]
    omega

lemma isCommit_new (h : txn.Valid) :
    ∀ row ∈ txn.newRows ++ (if txn.needsNop then [nopRow] else []), row.isCommit = false := by
  intro row hr
  rcases mem_append.mp hr with hr | hr
  · exact h.fresh row hr
  · split_ifs at hr
    · rw [mem_singleton.mp hr]
      rfl
    · cases hr

/-- Rows that were received with no local ones are logged as they are. -/
lemma fillTsn_of_received (ht : txn.Valid) (hn : txn.applierRows ≠ []) (hl : txn.localRows = [])
    (h : assignRows instanceId base flags none 0 ⟨diff, 0, 0⟩ txn.journalRows = some (out, s)) :
    fillTsn s out = txn.applierRows := by
  have he : txn.newRows = [] := by
    rw [Txn.localRows, filter_eq_nil_iff] at hl
    rw [eq_nil_iff_forall_not_mem]
    intro row hro
    exact hl row hro (decide_eq_true (ht.unmixed.resolve_left hn row hro))
  have hno : ¬ txn.needsNop := by
    rintro ⟨hlt, -⟩
    rw [hl] at hlt
    cases hlt
  rw [Txn.journalRows, he, if_neg hno, append_nil, append_nil] at h
  obtain ⟨rfl, -, hg⟩ := assignRows_old h (fun row => replicaId_of_mem_applierRows)
  rw [fillTsn, hg]
  rfl

lemma grouped_of_unmixed (ht : txn.Valid)
    (hp : txn.applierRows = [] ∨ txn.localRows = [] ∧ txn.IsWhole)
    (hr : Room base diff (txn.rows.length + 1))
    (h : assignRows instanceId base flags none 0 ⟨diff, 0, 0⟩ txn.journalRows = some (out, s)) :
    ∃ tsn, Grouped tsn (fillTsn s out) := by
  have hln := length_rows txn
  have hpo := length_pos_iff.mpr ht.nonempty
  by_cases hn : txn.applierRows = []
  · rw [Txn.journalRows, hn, nil_append] at h
    rw [hn, length_nil] at hln
    refine grouped_of_new ?_ (fun row => replicaId_new) (isCommit_new ht) ?_ h
    · rw [← length_pos_iff, length_append]
      omega
    · intro id
      have hi := hr id
      have hle := length_journalRows_le txn
      omega
  · obtain ⟨hl, hw⟩ := hp.resolve_left hn
    rw [fillTsn_of_received ht hn hl h]
    obtain ⟨tsn, htl⟩ := ht.received.resolve_left hn
    refine ⟨tsn, htl, ?_⟩
    rw [Txn.IsWhole] at hw
    have hg := ht.isGlobal
    obtain ⟨row, rows, hro⟩ := exists_cons_of_ne_nil hn
    rw [hro] at hw hg htl ⊢
    rw [find?_cons_of_pos (hg row (by simp))]
    rintro _ ⟨⟩
    exact (hw row rfl).trans (htl.same row (by simp))

/-- In a mixed transaction both the last row received and the NOP are marked. -/
lemma two_marks_of_mixed (ht : txn.Valid) (ha : txn.applierRows ≠ []) (hlo : txn.localRows ≠ [])
    (h : assignRows instanceId base flags none 0 ⟨diff, 0, 0⟩ txn.journalRows = some (out, s)) :
    2 ≤ (fillTsn s out).countP isCommit := by
  have hn : txn.needsNop := by
    refine ⟨length_pos_iff.mpr hlo, .inr (length_pos_iff.mpr ha), ?_⟩
    rw [Option.all_eq_true]
    intro row hr
    exact decide_eq_true (ht.unmixed.resolve_left ha row (mem_of_getLast? hr))
  rw [Txn.journalRows, if_pos hn, ← append_assoc] at h
  have hma := isCommit_assignRows h
  obtain ⟨_, hg⟩ := ht.received.resolve_left ha
  obtain ⟨last, hl⟩ := getLast?_isSome.mpr ha |> Option.isSome_iff_exists.mp
  have hm : 0 < txn.applierRows.countP isCommit :=
    countP_pos_iff.mpr ⟨last, mem_of_getLast? hl, hg.marked.isClosed last hl⟩
  have hc : (fillTsn s out).countP isCommit = ((txn.applierRows ++ txn.newRows).map isCommit ++
        [nopRow.isCommit || decide (nopRow.replicaId = 0)]).countP id := by
    rw [← hma, ← isCommit_fillTsn s out, countP_map]
    rfl
  rw [hc, map_append, countP_append, countP_append, countP_map]
  have he : [nopRow.isCommit || decide (nopRow.replicaId = 0)].countP id = 1 := by decide
  have hs : txn.applierRows.countP (id ∘ isCommit) = txn.applierRows.countP isCommit := rfl
  omega

/-- Numbering fails on no transaction whose received rows come in order. -/
lemma recordTxn_isSome (limboIsEmpty : Bool) (hi : instanceId.toNat < vclockMax)
    (ht : txn.Valid) (ha : Accepts instanceId (fun id => diff id + base id) txn.applierRows) :
    (recordTxn instanceId diff base limboIsEmpty txn).isSome := by
  have hl := length_rows txn
  have hp : txn.newRows.length + txn.applierRows.length > 0 := by
    have hp := length_pos_iff.mpr ht.nonempty
    omega
  have hal : Accepts instanceId (fun id => diff id + base id) txn.journalRows :=
    accepts_append.mpr ⟨ha, accepts_new fun row => replicaId_new⟩
  obtain ⟨⟨out, s⟩, hr⟩ := Option.isSome_iff_exists.mp
    (assignRows_isSome (txn.prepareFlags limboIsEmpty).entryFlags none 0 ⟨diff, 0, 0⟩ hi
      (fun row hro => (wellFormed_journalRows ht.wellFormed row hro).replica) hal)
  simp only [recordTxn, txnJournalEntryNew, assertThat_of hp, walAssignLsn]
  simp [hr]

section

variable (process)

/-- A transaction comes back from the log as one transaction of its rows if and only if it does
not mix rows received from another instance with rows of local spaces, and what was received is the
whole transaction of that instance. -/
theorem regrouped_iff (hprocess : ∀ row, process row = pure ())
    (hid : instanceId.toNat < vclockMax) (htxn : txn.Valid)
    (hroom : Room base diff (txn.rows.length + 1))
    (haccepts : Accepts instanceId (fun id => diff id + base id) txn.applierRows)
    (hzero : stream.tsn = 0) :
    ∃ rows, recordTxn instanceId diff base limboIsEmpty txn = some rows ∧
      (Regrouped process stream rows ↔
        txn.applierRows = [] ∨ txn.localRows = [] ∧ txn.IsWhole) := by
  obtain ⟨rows, hr⟩ := Option.isSome_iff_exists.mp (recordTxn_isSome limboIsEmpty hid htxn haccepts)
  obtain ⟨flags, out, s, ha, rfl⟩ := recordTxn_eq_some hr
  have hw := wellFormed_fillTsn (s := s)
    (wellFormed_assignRows ha (wellFormed_journalRows htxn.wellFormed))
  refine ⟨_, hr, ?_, ?_⟩
  · intro hre
    refine or_iff_not_imp_left.mpr fun hap => ?_
    have hl : txn.localRows = [] := by
      by_contra hl
      obtain ⟨stream', back, hre, -, hc, -⟩ := hre
      have hm := two_marks_of_mixed htxn hap hl ha
      have hle := length_committed hw hre
      rw [hc, length_append, length_singleton] at hle
      omega
    refine ⟨hl, fun row hro => ?_⟩
    rw [fillTsn_of_received htxn hap hl ha] at hre hw
    obtain ⟨tsn, hta⟩ := htxn.received.resolve_left hap
    obtain ⟨rows, hrs⟩ := head?_eq_some_iff.mp hro
    have hme : row ∈ txn.applierRows := hrs ▸ mem_cons_self
    rw [hrs] at hre
    exact firstRow_of_regrouped (hw row hme) hzero (hta.same row hme ▸ hta.nonzero)
      (htxn.isGlobal row hme) hre
  · intro hp
    obtain ⟨tsn, hg⟩ := grouped_of_unmixed htxn hp hroom ha
    exact regrouped_of_grouped hprocess hw hzero hg

end

/-- A new row of a global space, and one that a trigger writes to a local space. -/
def globalRow : Header := { Header.zero with type := 2, body := [[0x80]] }

def localRow : Header := { globalRow with groupId := groupLocal }

def newTxn : Txn := { stmts := [⟨some localRow, false⟩, ⟨none, false⟩, ⟨some globalRow, true⟩] }

lemma newTxn_valid : newTxn.Valid where
  nonempty := by decide
  wellFormed := by
    have hr : newTxn.rows = [localRow, globalRow] := rfl
    rw [hr, forall_mem_cons, forall_mem_singleton]
    exact ⟨⟨by decide, .inr rfl, by decide, .inr ⟨by decide, rfl⟩⟩,
      ⟨by decide, .inl rfl, by decide, .inr ⟨by decide, rfl⟩⟩⟩
  fresh := by decide
  unmixed := .inl rfl
  isGlobal := by decide
  received := .inl rfl

theorem new_txn_regrouped : ∃ rows, recordTxn 1 .zero .zero true newTxn = some rows ∧
      (Regrouped (fun _ => pure ()) {} rows ↔
        newTxn.applierRows = [] ∨ newTxn.localRows = [] ∧ newTxn.IsWhole) :=
  regrouped_iff (fun _ => pure ()) (fun _ => rfl) (by decide) newTxn_valid
    (fun _ => by simp [Clock.zero]; decide) trivial rfl

/-- A row received from instance 2, a transaction of its own there. -/
def receivedRow : Header := { globalRow with replicaId := 2, lsn := 10, tsn := 10, flags := 1 }

def mixedTxn : Txn := { stmts := [⟨some receivedRow, false⟩, ⟨some localRow, false⟩] }

/-- The row received is marked with the LSN of the NOP, and recovery refuses it. -/
theorem mixed_txn_refused : (recordTxn 1 .zero (Function.update .zero 2 9) true mixedTxn).map
      (Stream.replay (fun _ => pure ()) {}) =
    some (throw "found a first global row in a transaction with LSN/TSN mismatch") :=
  rfl

end

end TarantoolStorage.Wal
