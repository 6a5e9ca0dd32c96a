import TarantoolStorage.Limbo.Queue

/-!
An instance with its limbo. Transactions are appended before they are sent to the WAL, which answers
in the order of the writes; fibers run in that of their wakeups.
-/
namespace TarantoolStorage

open Checked

def journalEntryErrIo : Int := -2
def journalEntryErrCascade : Int := -3
def txnSignatureQuorumTimeout : Int := -102

/-- Why `txn_limbo_append` refuses a transaction. -/
inductive LimboError where
  | syncRollback
  | syncQueueUnclaimed
  | syncQueueForeign (ownerId : Nat)
  | uncommittedForeignSyncTxns (ownerId : Nat)
  deriving DecidableEq, Repr

inductive JournalEntry where
  /-- A transaction; the fiber of `txn_commit` waits for it, that of the applier does not. -/
  | txn (txn : Nat) (blocking : Bool)
  /-- A request of another instance, from `apply_synchro_row`. -/
  | synchro (req : SynchroRequest)
  /-- CONFIRM, with the transaction whose fiber has to wait for its own completion next. -/
  | confirm (lsn : Int) (waiter : Option Nat)
  /-- ROLLBACK, from the fiber of a transaction that has timed out. -/
  | rollback (lsn : Int) (txn : Nat)
  deriving DecidableEq, Repr

inductive Fiber where
  /-- In `txn_commit`, with the LSN of the last row. -/
  | written (txn : Nat) (lsn : Int)
  /-- At the label `rollback_io` of `txn_commit`. -/
  | failed (txn : Nat)
  | confirmed (lsn : Int) (waiter : Option Nat)
  | rolledBack (txn : Nat)
  deriving DecidableEq, Repr

structure LimboNode where
  instanceId : Nat
  /-- A build without assertions in `vclock_follow`. -/
  ndebug : Bool
  limbo : TxnLimbo
  vclock : Vclock
  isInRollback : Bool
  /-- `ack_count` of the entry of each transaction. -/
  ackCount : Nat → Int
  /-- `replication_synchro_quorum`. -/
  quorum : Int
  /-- The writes the WAL has not answered yet. -/
  journal : List JournalEntry
  ready : List Fiber
  /-- The transactions whose fibers wait with a timeout. -/
  waiting : List Nat
  nextTxn : Nat
  /-- The LSN of the last row of this instance. -/
  walLsn : Int
  /-- All calls of `txn_limbo_ack`; no function reads it. -/
  acked : List (Nat × Int)
  /-- The LSNs for which CONFIRM was written, with the quorum of the moment; no function
  reads it. -/
  confirms : List (Int × Int)

def LimboEntry.new (txn : Nat) (waitAck : Bool) : LimboEntry where
  txn := txn
  waitAck := waitAck
  signature := txnSignatureUnknown
  isPrepared := true
  lsn := -1
  isCommit := false
  isRollback := false

/-- `TXN_IS_DONE` of a transaction in the queue: its WAL write has failed. -/
def LimboEntry.isDone (e : LimboEntry) : Bool :=
  decide (e.signature < 0 ∧ e.signature ≠ txnSignatureUnknown)

def TxnLimbo.entry? (l : TxnLimbo) (txn : Nat) : Option LimboEntry :=
  l.queue.find? fun e => e.txn = txn

def TxnLimbo.update (l : TxnLimbo) (txn : Nat) (f : LimboEntry → LimboEntry) : TxnLimbo :=
  { l with queue := l.queue.map fun e => if e.txn = txn then f e else e }

/-- The limbo entry of a transaction is the last one when it is aborted. -/
def txnLimboAbort (l : TxnLimbo) (txn : Nat) : Option TxnLimbo :=
  match l.queue.reverse with
  | [] => none
  | e :: earlier => do
    assertThat (e.txn = txn)
    return (txnLimboPop l earlier.reverse).complete { e with isRollback := true }

def txnLimboAppend (s : LimboNode) (id txn : Nat) (waitAck : Bool) : Except LimboError LimboNode :=
  if s.isInRollback = true then .error .syncRollback
  else
    let id := if id = 0 then s.instanceId else id
    if s.limbo.ownerId = replicaIdNil then .error .syncQueueUnclaimed
    else if s.limbo.ownerId ≠ id then
      if s.limbo.queue.isEmpty = true then .error (.syncQueueForeign s.limbo.ownerId)
      else .error (.uncommittedForeignSyncTxns s.limbo.ownerId)
    else .ok { s with
      limbo := { s.limbo with
        queue := s.limbo.queue ++ [LimboEntry.new txn waitAck]
        len := s.limbo.len + 1 }
      ackCount := Function.update s.ackCount txn 0 }

def txnLimboAssignRemoteLsn (s : LimboNode) (txn : Nat) (lsn : Int) : Option LimboNode := do
  let e ← s.limbo.entry? txn
  assertThat (s.limbo.ownerId ≠ replicaIdNil)
  assertThat (s.limbo.ownerId ≠ s.instanceId)
  assertThat (e.lsn = -1)
  assertThat (lsn > 0)
  assertThat (e.waitAck = true)
  return { s with limbo := s.limbo.update txn fun e => { e with lsn := lsn } }

/-- How many components of the clock have reached the LSN. -/
def vclockCount (v : Vclock) (lsn : Int) : Nat :=
  ((setBits v.map).filter fun id => lsn ≤ v.lsn id).length

def txnLimboAssignLocalLsn (s : LimboNode) (txn : Nat) (lsn : Int) : Option LimboNode := do
  let e ← s.limbo.entry? txn
  assertThat (s.limbo.ownerId ≠ replicaIdNil)
  assertThat (s.limbo.ownerId = s.instanceId)
  assertThat (e.lsn = -1)
  assertThat (lsn > 0)
  assertThat (e.waitAck = true)
  let ackCount : Int := vclockCount s.vclock lsn
  assertThat (ackCount ≥ s.ackCount txn)
  return { s with
    limbo := s.limbo.update txn fun e => { e with lsn := lsn }
    ackCount := Function.update s.ackCount txn ackCount }

def txnLimboAssignLsn (s : LimboNode) (txn : Nat) (lsn : Int) : Option LimboNode :=
  if s.limbo.ownerId = s.instanceId then txnLimboAssignLocalLsn s txn lsn
  else txnLimboAssignRemoteLsn s txn lsn

/-- `txn_limbo_wait_complete` up to its first yield. -/
def txnLimboWaitComplete (s : LimboNode) (txn : Nat) : Option LimboNode :=
  match s.limbo.entry? txn with
  | none => some s
  | some e => do
    assertThat (e.lsn > 0 ∨ e.waitAck = false)
    assertThat (e.isDone = false)
    return { s with waiting := s.waiting ++ [txn] }

/-- The fiber that has acknowledged or confirmed goes on. -/
def LimboNode.resume (s : LimboNode) : Option Nat → Option LimboNode
  | none => some s
  | some txn => txnLimboWaitComplete s txn

def txnLimboWriteConfirm (s : LimboNode) (lsn : Int) (waiter : Option Nat) : Option LimboNode := do
  assertThat (lsn > s.limbo.confirmedLsn)
  assertThat (s.isInRollback = false)
  assertThat (lsn ≥ 0)
  return { s with
    limbo := { s.limbo with confirmedLsn := lsn }
    journal := s.journal ++ [.confirm lsn waiter]
    confirms := s.confirms ++ [(lsn, s.quorum)] }

def txnLimboWriteRollback (s : LimboNode) (lsn : Int) (txn : Nat) : Option LimboNode := do
  assertThat (lsn > s.limbo.confirmedLsn)
  assertThat (s.isInRollback = false)
  assertThat (lsn ≥ 0)
  return { s with isInRollback := true, journal := s.journal ++ [.rollback lsn txn] }

/-- What `vclock_follow` does to the clock. -/
def vclockMove (v : Vclock) (id : Nat) (lsn : Int) : Vclock where
  map := (bitSet v.map id).1
  lsn := Function.update v.lsn id lsn
  signature := v.signature + (lsn - vclockGet v id)

def LimboNode.follow (s : LimboNode) (replicaId : Nat) (lsn : Int) : Option Vclock :=
  if s.ndebug = true then some (vclockMove s.vclock replicaId lsn)
  else vclockFollow s.vclock replicaId lsn

/-- The loop of `txn_limbo_ack` over the queue: the counts, and the LSN to confirm. -/
def ackLoop (quorum prevLsn lsn : Int) :
    List LimboEntry → (Nat → Int) → Int → Option ((Nat → Int) × Int)
  | [], ackCount, confirmLsn => some (ackCount, confirmLsn)
  | e :: rest, ackCount, confirmLsn => do
    assertThat (ackCount e.txn ≤ vclockMax)
    if e.lsn > lsn then some (ackCount, confirmLsn)
    else if e.waitAck = false then do
      assertThat (e.lsn = -1)
      ackLoop quorum prevLsn lsn rest ackCount confirmLsn
    else if e.lsn ≤ prevLsn then ackLoop quorum prevLsn lsn rest ackCount confirmLsn
    else
      let ackCount' := Function.update ackCount e.txn (ackCount e.txn + 1)
      ackLoop quorum prevLsn lsn rest ackCount'
        (if ackCount e.txn + 1 < quorum then confirmLsn else e.lsn)

def txnLimboAck (s : LimboNode) (replicaId : Nat) (lsn : Int) (waiter : Option Nat) :
    Option LimboNode :=
  let s := { s with acked := s.acked ++ [(replicaId, lsn)] }
  if s.limbo.queue.isEmpty = true then s.resume waiter
  else if s.isInRollback = true then s.resume waiter
  else do
    assertThat (s.limbo.ownerId ≠ replicaIdNil)
    let prevLsn := vclockGet s.vclock replicaId
    if lsn = prevLsn then s.resume waiter
    else do
      let vclock ← s.follow replicaId lsn
      let (ackCount, confirmLsn) ← ackLoop s.quorum prevLsn lsn s.limbo.queue s.ackCount (-1)
      let s := { s with vclock := vclock, ackCount := ackCount }
      if confirmLsn = -1 ∨ confirmLsn ≤ s.limbo.confirmedLsn then s.resume waiter
      else txnLimboWriteConfirm s confirmLsn waiter

/-- The loop of `txn_limbo_on_parameters_change`. -/
def parametersLoop (quorum : Int) (ackCount : Nat → Int) : List LimboEntry → Int → Option Int
  | [], confirmLsn => some confirmLsn
  | e :: rest, confirmLsn => do
    assertThat (ackCount e.txn ≤ vclockMax)
    if e.waitAck = false then do
      assertThat (e.lsn = -1)
      parametersLoop quorum ackCount rest confirmLsn
    else if ackCount e.txn < quorum then parametersLoop quorum ackCount rest confirmLsn
    else do
      assertThat (e.lsn > 0)
      parametersLoop quorum ackCount rest e.lsn

def txnLimboOnParametersChange (s : LimboNode) : Option LimboNode :=
  if s.limbo.queue.isEmpty = true then some s
  else do
    let confirmLsn ← parametersLoop s.quorum s.ackCount s.limbo.queue (-1)
    if confirmLsn > s.limbo.confirmedLsn ∧ s.isInRollback = false then
      txnLimboWriteConfirm s confirmLsn none
    else some s

/-- `txn_limbo_wait_complete` when the wait has timed out. -/
def LimboNode.timeout (s : LimboNode) (txn : Nat) : Option LimboNode :=
  if txn ∉ s.waiting then some s
  else
    let s := { s with waiting := s.waiting.erase txn }
    match s.limbo.entry? txn, s.limbo.queue with
    | none, _ => some s
    | some _, [] => none
    | some e, first :: _ =>
      -- from here on the fiber waits without a timeout
      if first.txn ≠ txn then some s
      else do
        assertThat (e.lsn > 0)
        if e.lsn ≤ s.limbo.confirmedLsn then some s else txnLimboWriteRollback s e.lsn txn

/-- The loop of `txn_limbo_wait_complete` over the queue from its end on. -/
def quorumTimeoutLoop (txn : Nat) : List LimboEntry → TxnLimbo → Option TxnLimbo
  | [], l => some l
  | e :: earlier, l => do
    assertThat (e.isDone = false)
    let e' := { e with
      isRollback := true, waitAck := false, signature := txnSignatureQuorumTimeout }
    let l := (txnLimboPop l earlier.reverse).complete e'
    if e.txn = txn then some l else quorumTimeoutLoop txn earlier l

/-- `txn_commit` of a transaction of this instance up to its first yield. The journal has room, so
that it is appended and submitted without a yield in `journal_queue_wait`. -/
def LimboNode.commit (s : LimboNode) (waitAck accepted : Bool) : Option LimboNode :=
  let txn := s.nextTxn
  let s := { s with nextTxn := txn + 1 }
  -- an asynchronous transaction waits only behind others, see `txn_journal_entry_new`
  if waitAck = false ∧ s.limbo.queue.isEmpty = true then some s
  else
    match txnLimboAppend s 0 txn waitAck with
    | .error _ => some s
    | .ok s =>
      if accepted = true then some { s with journal := s.journal ++ [.txn txn true] }
      else do
        let limbo ← txnLimboAbort s.limbo txn
        return { s with limbo := limbo }

/-- `txn_commit_try_async` of a transaction that the applier has received; the journal has room. -/
def LimboNode.applyTx (s : LimboNode) (originId : Nat) (waitAck : Bool) (lsn : Int)
    (accepted : Bool) : Option LimboNode :=
  let txn := s.nextTxn
  let s := { s with nextTxn := txn + 1 }
  if waitAck = false ∧ s.limbo.queue.isEmpty = true then some s
  else
    match txnLimboAppend s originId txn waitAck with
    | .error _ => some s
    | .ok s => do
      let s ← (if waitAck = true then txnLimboAssignLsn s txn lsn else some s)
      if accepted = true then some { s with journal := s.journal ++ [.txn txn false] }
      else do
        let limbo ← txnLimboAbort s.limbo txn
        return { s with limbo := limbo }

/-- What `txn_on_journal_write` does to the transaction. One that is neither in the limbo nor
completed has become a plain one. -/
def txnOnJournalWrite (l : TxnLimbo) (txn : Nat) (f : LimboEntry → LimboEntry) : Option TxnLimbo :=
  match l.entry? txn with
  | some e => do
    assertThat (e.signature = txnSignatureUnknown)
    return l.update txn f
  | none => do
    assertThat (∀ e ∈ l.completed, e.txn ≠ txn)
    return l

/-- The WAL answers the first write: it is on disk. -/
def LimboNode.walDone (s : LimboNode) (lsn signature : Int) : Option LimboNode :=
  match s.journal with
  | [] => some s
  | .txn txn blocking :: journal => do
    let limbo ← txnOnJournalWrite s.limbo txn fun e => { e with signature := signature }
    return { s with
      journal := journal
      limbo := limbo
      walLsn := if blocking = true then lsn else s.walLsn
      ready := if blocking = true then s.ready ++ [.written txn lsn] else s.ready }
  | .synchro req :: journal => do
    let limbo ← txnLimboProcess s.limbo req
    return { s with journal := journal, limbo := limbo }
  | .confirm confirmLsn waiter :: journal =>
    some { s with
      journal := journal, walLsn := lsn, ready := s.ready ++ [.confirmed confirmLsn waiter] }
  | .rollback _ txn :: journal =>
    some { s with journal := journal, walLsn := lsn, ready := s.ready ++ [.rolledBack txn] }

/-- The answer to one write that has failed; the instance stops when it is a request of its
own. -/
def LimboNode.walFailOne (s : LimboNode) (res : Int) : JournalEntry → Option LimboNode
  | .txn txn blocking => do
    let limbo ← txnOnJournalWrite s.limbo txn fun e =>
      { e with signature := res, isPrepared := false }
    if blocking = true then
      return { s with limbo := limbo, ready := s.ready ++ [.failed txn] }
    else if (limbo.entry? txn).isSome = true then do
      -- the trigger `txn_limbo_on_rollback`
      let limbo ← txnLimboAbort limbo txn
      return { s with limbo := limbo }
    else return { s with limbo := limbo }
  | .synchro _ => some s
  | .confirm _ _ | .rollback _ _ => none

def LimboNode.walFailAll (res : Int) : List JournalEntry → LimboNode → Option LimboNode
  | [], s => some s
  | w :: ws, s => do
    let s ← s.walFailOne res w
    walFailAll res ws s

/-- The last writes fail: what was sent after the first that fails is not written either. The
answers come in the reverse order. -/
def LimboNode.walFail (s : LimboNode) (n : Nat) (res : Int) : Option LimboNode :=
  let kept := s.journal.length - n
  LimboNode.walFailAll res (s.journal.drop kept).reverse { s with journal := s.journal.take kept }

def LimboNode.runFiber (s : LimboNode) : Fiber → Option LimboNode
  | .written txn lsn =>
    match s.limbo.entry? txn with
    | none => some s
    | some e =>
      if e.waitAck = true then do
        let s ← txnLimboAssignLocalLsn s txn lsn
        txnLimboAck s s.limbo.ownerId lsn (some txn)
      else txnLimboWaitComplete s txn
  | .failed txn =>
    if (s.limbo.entry? txn).isSome = true then do
      let limbo ← txnLimboAbort s.limbo txn
      return { s with limbo := limbo }
    else some s
  | .confirmed lsn waiter => do
    let limbo ← txnLimboReadConfirm s.limbo lsn
    LimboNode.resume { s with limbo := limbo } waiter
  | .rolledBack txn => do
    let limbo ← quorumTimeoutLoop txn s.limbo.queue.reverse s.limbo
    return { s with isInRollback := false, limbo := limbo }

def LimboNode.runReady (s : LimboNode) : Option LimboNode :=
  match s.ready with
  | [] => some s
  | fiber :: ready => LimboNode.runFiber { s with ready := ready } fiber

inductive NodeAction where
  | commit (waitAck accepted : Bool)
  | applyTx (originId : Nat) (waitAck : Bool) (lsn : Int) (accepted : Bool)
  | request (req : SynchroRequest)
  | walDone (lsn signature : Int)
  | walFail (n : Nat) (res : Int)
  | run
  | ack (replicaId : Nat) (lsn : Int)
  | setQuorum (quorum : Int)
  | timeout (txn : Nat)
  deriving DecidableEq, Repr

/-- One action; `none` when an assertion fails or the instance has to stop. -/
def LimboNode.step (s : LimboNode) : NodeAction → Option LimboNode
  | .commit waitAck accepted => s.commit waitAck accepted
  | .applyTx originId waitAck lsn accepted => s.applyTx originId waitAck lsn accepted
  | .request req => some { s with journal := s.journal ++ [.synchro req] }
  | .walDone lsn signature => s.walDone lsn signature
  | .walFail n res => s.walFail n res
  | .run => s.runReady
  | .ack replicaId lsn =>
    -- `tx_status_update`
    if s.limbo.ownerId = s.instanceId then txnLimboAck s replicaId lsn none else some s
  | .setQuorum quorum => txnLimboOnParametersChange { s with quorum := quorum }
  | .timeout txn => s.timeout txn

/-- An instance with an empty limbo and nothing under way, whoever owns the limbo. -/
structure LimboNode.Fresh (s : LimboNode) : Prop where
  instance_ne : s.instanceId ≠ replicaIdNil
  instance_lt : s.instanceId < vclockMax
  queue_eq : s.limbo.queue = []
  len_eq : s.limbo.len = 0
  completed_eq : s.limbo.completed = []
  confirmed_eq : s.limbo.confirmedLsn = 0
  bounded : ∀ id, 0 ≤ vclockGet s.limbo.promoteTermMap id ∧
    vclockGet s.limbo.promoteTermMap id < 2 ^ 63
  vclock_eq : s.vclock = vclockCreate
  rollback_eq : s.isInRollback = false
  quorum_pos : 0 < s.quorum
  journal_eq : s.journal = []
  ready_eq : s.ready = []
  waiting_eq : s.waiting = []
  wal_nonneg : 0 ≤ s.walLsn
  acked_eq : s.acked = []
  confirms_eq : s.confirms = []

/-- A request of another instance. PROMOTE and DEMOTE of the instance itself are left out. -/
structure SynchroRequest.Sent (req : SynchroRequest) (instanceId : Nat) : Prop where
  origin_ne_nil : req.originId ≠ replicaIdNil
  origin_ne : req.originId ≠ instanceId
  origin_lt : req.originId < vclockMax
  lsn_nonneg : 0 ≤ req.lsn
  term_lt : req.term < 2 ^ 63
  unclaimed : req.replicaId = replicaIdNil → req.lsn = 0 ∧ req.type.isPromoteRequest = true
  decision : req.type.isPromoteRequest = false → req.replicaId = req.originId ∧ req.term = 0

def JournalEntry.originId? : JournalEntry → Option Nat
  | .synchro req => some req.originId
  | _ => none

/-- A request that the instance writes on its own behalf. -/
def JournalEntry.isOwn : JournalEntry → Bool
  | .confirm _ _ | .rollback _ _ => true
  | .txn _ _ | .synchro _ => false

/-- What the limbo may rely on. The rows of an instance are applied in the order of LSNs, not while
a request of it is being written; the WAL gives increasing LSNs; and an instance that cannot write
its request stops. -/
def LimboNode.Valid (s : LimboNode) : NodeAction → Prop
  | .commit _ _ | .run | .timeout _ => True
  | .applyTx originId _ lsn _ =>
    originId ≠ replicaIdNil ∧ originId ≠ s.instanceId ∧ 0 < lsn ∧
      (∀ w ∈ s.journal, w.originId? ≠ some originId) ∧
      (originId = s.limbo.ownerId → ∀ e ∈ s.limbo.queue, e.lsn < lsn)
  | .request req => req.Sent s.instanceId ∧ ∀ w ∈ s.journal, w.originId? ≠ some req.originId
  | .walDone lsn signature => s.walLsn < lsn ∧ 0 ≤ signature
  | .walFail n res =>
    (res = journalEntryErrIo ∨ res = journalEntryErrCascade) ∧
      ∀ w ∈ s.journal.drop (s.journal.length - n), w.isOwn = false
  | .ack replicaId lsn => replicaId < vclockMax ∧ replicaId ≠ s.instanceId ∧ 0 ≤ lsn
  | .setQuorum quorum => 0 < quorum ∧ quorum < vclockMax

instance (req : SynchroRequest) (instanceId : Nat) : Decidable (req.Sent instanceId) :=
  decidable_of_iff (req.originId ≠ replicaIdNil ∧ req.originId ≠ instanceId ∧
      req.originId < vclockMax ∧ 0 ≤ req.lsn ∧ req.term < 2 ^ 63 ∧
      (req.replicaId = replicaIdNil → req.lsn = 0 ∧ req.type.isPromoteRequest = true) ∧
      (req.type.isPromoteRequest = false → req.replicaId = req.originId ∧ req.term = 0))
    ⟨fun ⟨h₁, h₂, h₃, h₄, h₅, h₆, h₇⟩ => ⟨h₁, h₂, h₃, h₄, h₅, h₆, h₇⟩,
      fun ⟨h₁, h₂, h₃, h₄, h₅, h₆, h₇⟩ => ⟨h₁, h₂, h₃, h₄, h₅, h₆, h₇⟩⟩

instance (s : LimboNode) (a : NodeAction) : Decidable (s.Valid a) := by
  cases a <;> unfold LimboNode.Valid <;> infer_instance

/-- Instance 1 owns the limbo, and nothing has happened yet. -/
def owningNode (ndebug : Bool) (quorum : Int) : LimboNode where
  instanceId := 1
  ndebug := ndebug
  limbo := { txnLimboCreate with ownerId := 1 }
  vclock := vclockCreate
  isInRollback := false
  ackCount := fun _ => 0
  quorum := quorum
  journal := []
  ready := []
  waiting := []
  nextTxn := 0
  walLsn := 0
  acked := []
  confirms := []

lemma owningNode_fresh {ndebug : Bool} {quorum : Int} (h : 0 < quorum) :
    (owningNode ndebug quorum).Fresh where
  instance_ne := by simp [owningNode, replicaIdNil]
  instance_lt := by simp [owningNode, vclockMax]
  queue_eq := rfl
  len_eq := rfl
  completed_eq := rfl
  confirmed_eq := rfl
  bounded := fun _ => by simp [owningNode, txnLimboCreate, vclockGet, vclockCreate]
  vclock_eq := rfl
  rollback_eq := rfl
  quorum_pos := h
  journal_eq := rfl
  ready_eq := rfl
  waiting_eq := rfl
  wal_nonneg := by simp [owningNode]
  acked_eq := rfl
  confirms_eq := rfl

end TarantoolStorage
