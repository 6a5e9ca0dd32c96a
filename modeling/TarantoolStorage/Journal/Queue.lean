import Mathlib

/-!
A transaction's way through the journal: the queue for space (`journal.c`), the WAL thread, the
completion of batches and the cascading rollback (`wal.c`).
-/
namespace TarantoolStorage.Journal

/-- A journal entry. Transactions are numbered in the order in which they are prepared. -/
structure Entry where
  id : Nat
  approxLen : Nat
  deriving DecidableEq

/-- A message of `wal_pipe`. -/
inductive Msg where
  | batch (entries : List Entry)
  | completeRollback
  deriving DecidableEq

/-- A batch on its way back: `commit` is what was written. -/
structure Batch where
  commit : List Entry
  rollback : List Entry
  deriving DecidableEq

/-- What happens to transactions. The last two are their completion callbacks. -/
inductive Event where
  | prepared (id : Nat)
  | committed (id : Nat)
  | rolledBack (id : Nat)
  deriving DecidableEq

structure State where
  prepared : Nat := 0
  maxSize : Int
  size : Int := 0
  /-- The fibers of the list `waiters`, with the entries that they are going to write. -/
  waiters : List Entry := []
  /-- Waiters that were woken up and did not run since. `waiter_count` still counts them. -/
  ready : List Entry := []
  /-- Messages of `wal_pipe.input` that are not flushed. -/
  input : List Msg := []
  pipe : List Msg := []
  output : List Batch := []
  /-- The TX side of the rollback, `writer->rollback`. -/
  rollback : List Entry := []
  lastEntry : Option Nat := none
  /-- The WAL side of the rollback, `writer->is_in_rollback`. -/
  isInRollback : Bool := false
  log : List Event := []

def State.isFull (s : State) : Prop :=
  s.maxSize ≤ s.size

instance (s : State) : Decidable s.isFull := inferInstanceAs (Decidable (s.maxSize ≤ s.size))

/-- All the fibers that `waiter_count` counts. -/
def State.waiting (s : State) : List Entry :=
  s.ready ++ s.waiters

/-- `journal_queue_wakeup`. -/
def State.wakeup (s : State) : State :=
  match s.waiters with
  | [] => s
  | entry :: rest =>
    if s.isFull then s else { s with waiters := rest, ready := s.ready ++ [entry] }

/-- The entry joins the first message of the input if that is a batch. -/
def addEntry (entry : Entry) : List Msg → List Msg
  | .batch entries :: rest => .batch (entries ++ [entry]) :: rest
  | input => input ++ [.batch [entry]]

/-- `journal_queue_on_append` and `wal_write_async`. A transaction whose write is refused is
rolled back at once by its fiber. -/
def State.write (s : State) (isOom : Bool) (entry : Entry) : State :=
  if isOom ∨ s.rollback ≠ [] then
    { s with
      size := s.size + entry.approxLen
      log := s.log ++ [.rolledBack entry.id] }
  else
    { s with
      size := s.size + entry.approxLen
      input := addEntry entry s.input
      lastEntry := some entry.id }

/-- A fiber that goes on in `journal_queue_wait`. -/
def State.wait (s : State) (entry : Entry) : State :=
  { s with waiters := s.waiters ++ [entry] }

def State.prepare (s : State) : State :=
  { s with prepared := s.prepared + 1, log := s.log ++ [.prepared s.prepared] }

/-- `journal_write_try_async` of a transaction that is prepared now. -/
def State.writeTryAsync (s : State) (isOom : Bool) (approxLen : Nat) : State :=
  if s.isFull ∨ s.waiting ≠ [] then s.prepare.wait ⟨s.prepared, approxLen⟩
  else s.prepare.write isOom ⟨s.prepared, approxLen⟩

/-- `journal_queue_flush` wakes all the waiters up. -/
def State.wakeAll (s : State) : State :=
  { s with waiters := [], ready := s.waiting }

/-- `journal_write` of a transaction that is prepared now. -/
def State.writeSync (s : State) (isOom : Bool) (approxLen : Nat) : State :=
  if s.waiting ≠ [] then s.prepare.wakeAll.wait ⟨s.prepared, approxLen⟩
  else s.prepare.write isOom ⟨s.prepared, approxLen⟩

/-- A fiber that was woken up returns from `journal_queue_wait` and writes its entry. -/
def State.resume (s : State) (isOom : Bool) : Option State :=
  match s.ready with
  | [] => none
  | entry :: rest => some (State.write { s with ready := rest }.wakeup isOom entry)

/-- `cpipe_flush_input`. -/
def State.flushInput (s : State) : State :=
  { s with input := [], pipe := s.pipe ++ s.input }

/-- `wal_write_to_disk` of a batch. The first `written` entries are written, unless the thread
is in rollback. -/
def State.writeToDisk (s : State) (written : Nat) (entries : List Entry) : State :=
  let count := if s.isInRollback then 0 else written
  { s with
    output := s.output ++ [⟨entries.take count, entries.drop count⟩]
    isInRollback := s.isInRollback || !(entries.drop count).isEmpty }

def State.walStep (s : State) (written : Nat) : Option State :=
  match s.pipe with
  | [] => none
  | .batch entries :: rest => some (State.writeToDisk { s with pipe := rest } written entries)
  | .completeRollback :: rest => some { s with pipe := rest, isInRollback := false }

/-- `tx_schedule_queue`: every entry leaves the queue and its callback is called. -/
def State.schedule (s : State) (event : Entry → Event) (entries : List Entry) : State :=
  State.wakeup { s with
      size := s.size - ((entries.map Entry.approxLen).sum : Nat)
      log := s.log ++ entries.map event }

/-- `tx_complete_rollback`. -/
def State.completeRollback (s : State) : State :=
  if s.rollback.getLast?.map Entry.id ≠ s.lastEntry then s
  else
    let t := s.schedule (fun entry => .rolledBack entry.id) s.rollback.reverse
    { t with rollback := [], input := t.input ++ [.completeRollback] }

/-- The first part of `tx_complete_batch`. -/
def State.collectRollback (s : State) (rollback : List Entry) : State :=
  if rollback = [] then s
  else State.completeRollback { s with rollback := s.rollback ++ rollback }

/-- `tx_complete_batch` of the first batch that came back. -/
def State.completeBatch (s : State) : Option State :=
  match s.output with
  | [] => none
  | batch :: rest =>
    some ((State.collectRollback { s with output := rest } batch.rollback).schedule
      (fun entry => .committed entry.id) batch.commit)

/-- `journal_queue_set_max_size`. -/
def State.setMaxSize (s : State) (size : Int) : State :=
  State.wakeup { s with maxSize := size }

/-- `fiber_wakeup` of a waiter by a fiber that knows nothing of the queue, or its cancellation: it
leaves the list it is in. -/
def State.wakeupWaiter (s : State) (index : Nat) : Option State := do
  let entry ← s.waiters[index]?
  return { s with waiters := s.waiters.eraseIdx index, ready := s.ready ++ [entry] }

/-- An interleaving of the fibers of the transaction thread and of the WAL thread. -/
inductive Action where
  | writeTryAsync (isOom : Bool) (approxLen : Nat)
  | writeSync (isOom : Bool) (approxLen : Nat)
  | resume (isOom : Bool)
  | flushInput
  | walStep (written : Nat)
  | completeBatch
  | setMaxSize (size : Int)
  | wakeupWaiter (index : Nat)

def step (s : State) : Action → Option State
  | .writeTryAsync isOom approxLen => some (s.writeTryAsync isOom approxLen)
  | .writeSync isOom approxLen => some (s.writeSync isOom approxLen)
  | .resume isOom => s.resume isOom
  | .flushInput => some s.flushInput
  | .walStep written => s.walStep written
  | .completeBatch => s.completeBatch
  | .setMaxSize size => some (s.setMaxSize size)
  | .wakeupWaiter index => s.wakeupWaiter index

def Msg.entries : Msg → List Entry
  | .batch entries => entries
  | .completeRollback => []

def Batch.entries (batch : Batch) : List Entry :=
  batch.commit ++ batch.rollback

/-- Entries that the WAL thread got or will get and that are not completed. -/
def State.sent (s : State) : List Entry :=
  s.rollback ++ s.output.flatMap Batch.entries ++ (s.pipe ++ s.input).flatMap Msg.entries

/-- Entries of all transactions that are prepared and not completed, in the order in which the
stages hold them. -/
def State.pending (s : State) : List Entry :=
  s.sent ++ s.waiting

lemma wakeup_eq (s : State) : ∃ ready waiters, ready ++ waiters = s.waiting ∧
    s.wakeup = { s with ready := ready, waiters := waiters } := by
  unfold State.wakeup
  split
  · exact ⟨s.ready, s.waiters, rfl, rfl⟩
  · rename_i entry rest hw
    split_ifs
    · exact ⟨s.ready, s.waiters, rfl, rfl⟩
    · exact ⟨s.ready ++ [entry], rest, by simp [State.waiting, hw], rfl⟩

lemma wakeupWaiter_zero {s t : State} (h : s.wakeupWaiter 0 = some t) : ∃ entry rest,
    s.waiters = entry :: rest ∧ t = { s with waiters := rest, ready := s.ready ++ [entry] } := by
  obtain ⟨entry, he, ht⟩ := Option.bind_eq_some_iff.mp h
  cases hw : s.waiters with
  | nil => simp [hw] at he
  | cons first rest =>
    obtain rfl : first = entry := by simpa [hw] using he
    exact ⟨first, rest, rfl, by simpa [hw] using (Option.some.inj ht).symm⟩

end TarantoolStorage.Journal
