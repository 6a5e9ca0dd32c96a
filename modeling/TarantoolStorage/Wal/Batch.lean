import TarantoolStorage.Wal.Assign
import TarantoolStorage.Xlog.Writer

/-!
A batch is written (`wal_write_to_disk`). Entries after the last one in the file are rolled back.
-/
namespace TarantoolStorage.Wal

open Checked MsgPack Xrow Xlog

/-- `vclock_sum`. -/
def Clock.sum (clock : Clock) : Nat := ((List.range vclockMax).map clock).sum

/-- `vclock_merge`. -/
def Clock.merge (clock diff : Clock) : Clock := fun id => clock id + diff id

def journalEntryErrUnknown : Int := -1
def journalEntryErrIo : Int := -2
def journalEntryErrCascade : Int := -3

/-- A size that is kept in an `int`. -/
def toInt (size : Int) : Int := (size + 2 ^ 31) % 2 ^ 32 - 2 ^ 31

structure Config where
  instanceId : UInt32
  env : Env
  walMaxSize : Nat
  /-- The size of the header of a file. -/
  metaSize : Nat
  checkpointThreshold : Int

/-- `wal_writer`: the clock, the files that are closed and the one that is open. -/
structure Writer where
  vclock : Clock
  closed : List Log := []
  currentWal : Option Log := none
  isInRollback : Bool := false
  checkpointWalSize : Int := 0
  checkpointTriggered : Bool := false

/-- What goes wrong while a batch is written, by the entry and the row, and the time. -/
structure Faults where
  rotate : Bool := false
  fallocate : Bool := false
  encode : Nat → Nat → Bool := fun _ _ => false
  write : Nat → WriteResult := fun _ => .written
  flush : WriteResult := .written
  notify : Bool := false
  now : UInt64 := 0

/-- `wal_opt_rotate`: a file that is full is closed, and a new one is created. -/
def Writer.closeFull (config : Config) (writer : Writer) : Writer :=
  match writer.currentWal with
  | some log =>
    if config.metaSize + log.offset ≥ config.walMaxSize then
      { writer with closed := writer.closed ++ [log], currentWal := none }
    else writer
  | none => writer

def Writer.optRotate (config : Config) (fails : Bool) (writer : Writer) : Bool × Writer :=
  let writer := writer.closeFull config
  if writer.currentWal.isSome = true then (true, writer)
  else if fails = true then (false, writer)
  else (true, { writer with currentWal := some {} })

def stamp (now : UInt64) (row : Header) : Header := { row with tm := now }

/-- The loop of `xlog_write_entry`: whether all rows are buffered, and the rows. -/
def writeRows (env : Env) (fails : Nat → Bool) (now : UInt64) :
    Nat → Log → List Header → Option (Bool × Log × List Header)
  | _, log, [] => some (true, log, [])
  | j, log, row :: rows => do
    let (rc, log) ← log.writeRow env (fails j) .written (stamp now row)
    if rc < 0 then return (false, log, stamp now row :: rows)
    else
      let (buffered, log, rows) ← writeRows env fails now (j + 1) log rows
      return (buffered, log, stamp now row :: rows)

def xlogWriteEntry (env : Env) (fails : Nat → Bool) (result : WriteResult) (now : UInt64)
    (log : Log) (rows : List Header) : Option (Int × Log × List Header) := do
  let (buffered, log, rows) ← writeRows env fails now 0 log.txBegin rows
  if buffered = false then return (-1, log.txRollback, rows)
  else
    let (rc, log) := log.txCommit env result
    return (rc, log, rows)

/-- What `wal_write_to_disk` keeps between the entries: the writer, the clock of the rows not in the
file, the numbered entries and how many are in the file. -/
structure Progress where
  writer : Writer
  diff : Clock := .zero
  entries : List Entry := []
  committed : Nat := 0

def Progress.commit (p : Progress) (rc : Int) : Progress :=
  { p with
    writer := { p.writer with
      vclock := p.writer.vclock.merge p.diff
      checkpointWalSize := p.writer.checkpointWalSize + rc }
    diff := .zero
    committed := p.entries.length }

/-- One entry: the size that was written, or -1. -/
def Progress.writeEntry (config : Config) (faults : Faults) (i : Nat) (p : Progress)
    (entry : Entry) : Option (Int × Progress) := do
  let (diff, entry) ← walAssignLsn config.instanceId p.diff p.writer.vclock entry
  let log ← p.writer.currentWal
  let (rc, log, rows) ← xlogWriteEntry config.env (faults.encode i) (faults.write i) faults.now log
    entry.rows
  let entry := { entry with rows := rows, res := (diff.sum + p.writer.vclock.sum : Nat) }
  return (toInt rc, { p with
    writer := { p.writer with currentWal := some log }
    diff := diff
    entries := p.entries ++ [entry] })

/-- The loop of `wal_write_to_disk` over the entries, and whether it came to its end. -/
def Progress.writeEntries (config : Config) (faults : Faults) :
    Nat → Progress → List Entry → Option (Bool × Progress)
  | _, p, [] => some (true, p)
  | i, p, entry :: rest => do
    let (rc, p) ← p.writeEntry config faults i entry
    if rc < 0 then return (false, { p with entries := p.entries ++ rest })
    else if rc > 0 then (p.commit rc).writeEntries config faults (i + 1) rest
    else p.writeEntries config faults (i + 1) rest

/-- What is left in the buffer is written at the end. -/
def Progress.flush (config : Config) (faults : Faults) (p : Progress) :
    Option (Bool × Progress) := do
  let log ← p.writer.currentWal
  let (rc, log) ← log.flush config.env faults.flush
  let p := { p with writer := { p.writer with currentWal := some log } }
  if toInt rc < 0 then return (false, p)
  else return (true, p.commit (toInt rc))

/-- The other threads are told once that a checkpoint is due. -/
def Writer.notifyCheckpoint (config : Config) (faults : Faults) (writer : Writer) : Writer :=
  if writer.checkpointTriggered = false ∧
      writer.checkpointWalSize > config.checkpointThreshold ∧ faults.notify = false then
    { writer with checkpointTriggered := true }
  else writer

/-- What becomes of a batch: `wal_msg` when it goes back to the transaction thread. -/
structure Outcome where
  commit : List Entry
  rollback : List Entry
  vclock : Clock

/-- The end of `wal_write_to_disk`: the entries after the last one in the file get the error. -/
def Writer.done (writer : Writer) (entries : List Entry) (committed : Nat) (errCode : Int) :
    Option (Outcome × Writer) := do
  let rollback := (entries.drop committed).map fun entry => { entry with res := errCode }
  assertThat (rollback ≠ [] ↔ errCode ≠ journalEntryErrUnknown)
  return (⟨entries.take committed, rollback, writer.vclock⟩,
    { writer with isInRollback := writer.isInRollback || !rollback.isEmpty })

def Writer.writeBatch (config : Config) (faults : Faults) (writer : Writer)
    (entries : List Entry) : Option (Outcome × Writer) := do
  let (written, p) ← Progress.writeEntries config faults 0 { writer := writer } entries
  if written = false then p.writer.done p.entries p.committed journalEntryErrIo
  else
    let (flushed, p) ← p.flush config faults
    if flushed = false then p.writer.done p.entries p.committed journalEntryErrIo
    else
      let writer := p.writer.notifyCheckpoint config faults
      writer.done p.entries p.committed journalEntryErrUnknown

/-- `wal_write_to_disk`. -/
def Writer.writeToDisk (config : Config) (faults : Faults) (writer : Writer)
    (entries : List Entry) : Option (Outcome × Writer) := do
  assertThat (entries ≠ [])
  if writer.isInRollback = true then writer.done entries 0 journalEntryErrCascade
  else
    let (rotated, writer) := writer.optRotate config faults.rotate
    if rotated = false then writer.done entries 0 journalEntryErrIo
    else if faults.fallocate = true then writer.done entries 0 journalEntryErrIo
    else writer.writeBatch config faults entries

end TarantoolStorage.Wal
