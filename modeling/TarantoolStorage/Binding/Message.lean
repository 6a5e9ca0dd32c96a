import Mathlib

/-!
Messages of the binding and what the loop's fiber does with one. Called functions and the engine
under `box_txn_*` are parameters.
-/
namespace TarantoolStorage.Binding

inductive MessageType where
  | call | batch | stop | begin | commit | rollback
  deriving DecidableEq, Repr

inductive ErrorType where
  | limit | internal
  deriving DecidableEq, Repr

def messageSendError : String := "Failed to resend message into the ring during transaction"
def batchErrorMessage : String := "Batch execution failed"
def erActiveTransaction : String :=
  "Operation is not permitted when there is an active transaction "
def erCommitInSubStmt : String := "Can not commit transaction in a nested statement"
def erRollbackInSubStmt : String := "Rollback called in a nested statement"

/-- The fiber's open transaction. `opener` is the owner of its BEGIN, `none` for one opened inside a
called function, as by the Lua `box.begin()`. -/
structure Txn where
  opener : Option Nat
  inSubStmt : Nat
  deriving DecidableEq, Repr

/-- What a called function leaves in the fiber's transaction slot. -/
inductive TxnEffect where
  | keep (inSubStmt : Nat)
  | finish
  | start (inSubStmt : Nat)
  deriving DecidableEq, Repr

def TxnEffect.apply : TxnEffect → Option Txn → Option Txn
  | .keep n, t => t.map fun t => { t with inSubStmt := n }
  | .finish, _ => none
  | .start n, _ => some ⟨none, n⟩

/-- The result of `function(input)`: `failure` is the text given to `diag_set`. -/
structure CallResult (ω β : Type) where
  output : Option ω
  failure : Option String
  txn : TxnEffect
  box : β

/-- The engine below `box_txn_begin`, `box_txn_commit` and `box_txn_rollback`. -/
structure Engine (β : Type) where
  txnBegin : β → Option String × β
  txnCommit : β → Option String × β
  txnRollback : β → β

structure BatchElement (ι ω β : Type) where
  function : ι → β → CallResult ω β
  input : ι
  output : Option ω
  error : Option String
  errorType : ErrorType

/-- `tarantool_message_t`; `id` is the address of the message. -/
structure Message (ι ω β : Type) where
  id : Nat
  type : MessageType
  function : ι → β → CallResult ω β
  input : ι
  output : Option ω
  callbackSendPort : Nat
  callbackHandle : Option Nat
  batch : List (BatchElement ι ω β)
  error : Option String
  errorType : ErrorType
  owner : Nat

/-- A message as the client's `calloc` leaves it: no output and no error yet. -/
def Message.zeroed {ι ω β : Type} (m : Message ι ω β) : Bool :=
  m.output.isNone && m.error.isNone && m.batch.all fun e => e.output.isNone && e.error.isNone

/-- The state of the message-loop fiber that handling a message reads and writes. -/
structure Fiber (β : Type) where
  txn : Option Txn
  transactionOwner : Nat
  diag : Option String
  box : β

variable {ι ω β : Type}

def CallResult.apply (r : CallResult ω β) (f : Fiber β) : Fiber β :=
  { f with txn := r.txn.apply f.txn, diag := r.failure.or f.diag, box := r.box }

def tarantoolMessageHandleCall (f : Fiber β) (m : Message ι ω β) : Fiber β × Message ι ω β :=
  let r := m.function m.input f.box
  let f := r.apply f
  match f.diag with
  | some error =>
    ({ f with diag := none },
      { m with output := r.output, error := some error, errorType := .internal })
  | none => (f, { m with output := r.output })

/-- One round of the batch loop. `BATCH_ERROR_MESSAGE` is stored first and overwritten at once with
the text of the error. -/
def batchElementHandle (f : Fiber β) (e : BatchElement ι ω β) : Fiber β × BatchElement ι ω β :=
  let r := e.function e.input f.box
  let f := r.apply f
  match f.diag with
  | some error =>
    let e := { e with output := r.output, error := some batchErrorMessage }
    ({ f with diag := none }, { e with error := some error, errorType := .internal })
  | none => (f, { e with output := r.output })

def batchLoop (f : Fiber β) : List (BatchElement ι ω β) → Fiber β × List (BatchElement ι ω β)
  | [] => (f, [])
  | e :: es =>
    let (f, e) := batchElementHandle f e
    let (f, es) := batchLoop f es
    (f, e :: es)

def tarantoolMessageHandleBatch (f : Fiber β) (m : Message ι ω β) : Fiber β × Message ι ω β :=
  let (f, batch) := batchLoop f m.batch
  (f, { m with batch := batch })

abbrev Rc (β : Type) := Fiber β × Int

def boxTxnBegin (E : Engine β) (opener : Nat) (f : Fiber β) : Rc β :=
  match f.txn with
  | some _ => ({ f with diag := some erActiveTransaction }, -1)
  | none =>
    match E.txnBegin f.box with
    | (some error, box) => ({ f with diag := some error, box := box }, -1)
    | (none, box) => ({ f with txn := some ⟨some opener, 0⟩, box := box }, 0)

/-- A failed `txn_commit` has rolled the transaction back: it is over either way. -/
def boxTxnCommit (E : Engine β) (f : Fiber β) : Rc β :=
  match f.txn with
  | none => (f, 0)
  | some txn =>
    if txn.inSubStmt ≠ 0 then ({ f with diag := some erCommitInSubStmt }, -1)
    else
      match E.txnCommit f.box with
      | (some error, box) => ({ f with txn := none, diag := some error, box := box }, -1)
      | (none, box) => ({ f with txn := none, box := box }, 0)

def boxTxnRollback (E : Engine β) (f : Fiber β) : Rc β :=
  match f.txn with
  | none => (f, 0)
  | some txn =>
    if txn.inSubStmt ≠ 0 then ({ f with diag := some erRollbackInSubStmt }, -1)
    else ({ f with txn := none, box := E.txnRollback f.box }, 0)

def tarantoolBegin (E : Engine β) (opener : Nat) (f : Fiber β) : Rc β := boxTxnBegin E opener f
def tarantoolCommit (E : Engine β) (f : Fiber β) : Rc β := boxTxnCommit E f
def tarantoolRollback (E : Engine β) (f : Fiber β) : Rc β := boxTxnRollback E f

/-- The guard at the top of `tarantool_message_handle`. -/
def isForeign (f : Fiber β) (m : Message ι ω β) : Bool :=
  f.txn.isSome && m.owner != f.transactionOwner

/-- The switch of `tarantool_message_handle`: the fiber afterwards, and the message
posted back. The default branch, which STOP takes, posts nothing. -/
def messageSwitch (E : Engine β) (f : Fiber β) (m : Message ι ω β) :
    Fiber β × Option (Message ι ω β) :=
  match m.type with
  | .call => let (f, m) := tarantoolMessageHandleCall f m; (f, some m)
  | .batch => let (f, m) := tarantoolMessageHandleBatch f m; (f, some m)
  | .begin => ((tarantoolBegin E m.owner { f with transactionOwner := m.owner }).1, some m)
  | .rollback => ((tarantoolRollback E f).1, some m)
  | .commit => ((tarantoolCommit E f).1, some m)
  | .stop => (f, none)

/-- Some element of the batch fails when the elements run in order from this fiber. -/
def batchFails (f : Fiber β) : List (BatchElement ι ω β) → Bool
  | [] => false
  | e :: es => (e.function e.input f.box).failure.isSome || batchFails (batchElementHandle f e).1 es

/-- Whether the operation of the message fails when it is executed in this fiber. -/
def operationFails (E : Engine β) (f : Fiber β) (m : Message ι ω β) : Bool :=
  match m.type with
  | .call => (m.function m.input f.box).failure.isSome
  | .batch => batchFails f m.batch
  | .begin => (tarantoolBegin E m.owner { f with transactionOwner := m.owner }).2 != 0
  | .rollback => (tarantoolRollback E f).2 != 0
  | .commit => (tarantoolCommit E f).2 != 0
  | .stop => false

end TarantoolStorage.Binding
