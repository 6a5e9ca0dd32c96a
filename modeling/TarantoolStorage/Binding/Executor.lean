import TarantoolStorage.Lib.MsgPack
import TarantoolStorage.Binding.Message

/-!
The Dart client: what it makes of a posted message. Reading a MessagePack value is a parameter.
-/
namespace TarantoolStorage.Binding

open MsgPack

variable {ι ω β δ : Type}

inductive StorageException where
  | shutdown
  | limit
  | execution (error : String)
  /-- The bytes of an answer are not a MessagePack value. -/
  | format
  deriving DecidableEq, Repr

def handleSingleError (m : Message ι ω β) (error : String) : StorageException :=
  if m.errorType = .limit then .limit else .execution error

/-- `_handleBatchError`: the error of the message, then those of its elements. -/
def handleBatchError (m : Message ι ω β) (error : String) : StorageException :=
  if m.errorType = .limit then .limit
  else .execution (m.batch.foldl (fun text e =>
    match e.error with
    | some error => text ++ error ++ "\n"
    | none => text) error)

/-- How sending went: the storage is up, and the ring took the message. -/
structure Sent where
  initialized : Bool
  accepted : Bool

/-- The answer a client waits for. -/
def awaitMessage (sent : Sent) (m : Message ι ω β) : Except StorageException (Message ι ω β) :=
  if sent.initialized = false then .error .shutdown
  else if sent.accepted = false then .error .limit
  else .ok m

/-- `sendSingle`. After an error it asks whether a transaction is open and rolls it back;
`followUp` is how that went. -/
def sendSingle (sent : Sent) (followUp : Except StorageException Unit) (m : Message ι ω β) :
    Except StorageException (Option ω) :=
  (awaitMessage sent m).bind fun m =>
    match m.error with
    | some error => followUp.bind fun _ => .error (handleSingleError m error)
    | none => .ok m.output

def sendBatch (sent : Sent) (followUp : Except StorageException Unit) (m : Message ι ω β) :
    Except StorageException (Message ι ω β) :=
  (awaitMessage sent m).bind fun m =>
    match m.error with
    | some error => followUp.bind fun _ => .error (handleBatchError m error)
    | none => .ok m

/-- A message the ring took is answered. -/
def Sent.delivered : Sent := ⟨true, true⟩

/-- `TarantoolTupleDescriptor.read`: a null pointer reads as the empty list. -/
def read (decode : ω → δ) (empty : δ) : Option ω → δ
  | none => empty
  | some output => decode output

/-- `TarantoolTupleDescriptor.readBatch`. -/
def readBatch (decode : ω → δ) (empty : δ) (m : Message ι ω β) : List δ :=
  m.batch.map fun e => read decode empty e.output

/-- A successful CALL on a clean diagnostics area is posted with its output and no error. -/
lemma handleCall_of_success {f : Fiber β} {m : Message ι ω β} (hd : f.diag = none)
    (ho : (m.function m.input f.box).failure = none) :
    tarantoolMessageHandleCall f m = ((m.function m.input f.box).apply f,
        { m with output := (m.function m.input f.box).output }) := by
  have hc : ((m.function m.input f.box).apply f).diag = none := by
    simp [CallResult.apply, ho, hd]
  simp [tarantoolMessageHandleCall, hc]

end TarantoolStorage.Binding
