import TarantoolStorage.Lib.SearchTree
import TarantoolStorage.Vclock

/-!
Garbage collection of WAL files (`gc.c`, `wal.c`). The WAL thread deletes files on its own when the
disk is full.
-/
namespace TarantoolStorage.Gc

open Checked SearchTree

abbrev Clock := Fin vclockMax → Nat

def Clock.sum (clock : Clock) : Nat := ∑ id, clock id

/-- The loop of `vclock_compare_generic`. Components that are not in use are 0 and equal. -/
def compareLoop (a b : Clock) : Bool → Bool → List (Fin vclockMax) → Int
  | le, ge, [] => if ge && !le then 1 else if le && !ge then -1 else 0
  | le, ge, id :: ids =>
    let le := le && decide (a id ≤ b id)
    let ge := ge && decide (a id ≥ b id)
    if !ge && !le then vclockOrderUndefined else compareLoop a b le ge ids

def vclockCompare (a b : Clock) : Int := compareLoop a b true true (List.finRange vclockMax)

def vclockCompareIgnore0 (a b : Clock) : Int :=
  compareLoop a b true true (List.finRange vclockMax).tail

/-- `vclockset_node_compare`: clocks that are not ordered compare as equal. -/
def vclocksetNodeCompare (a b : Clock) : Int :=
  if vclockCompare a b = vclockOrderUndefined then 0 else vclockCompare a b

/-- `vclock_lex_compare`. -/
def lexLoop (a b : Clock) : List (Fin vclockMax) → Int
  | [] => 0
  | id :: ids => if a id < b id then -1 else if a id > b id then 1 else lexLoop a b ids

def vclockLexCompare (a b : Clock) : Int := lexLoop a b (List.finRange vclockMax)

def vclockMinIgnore0 (a b : Clock) : Clock :=
  fun id => if id.val = 0 then a id else min (a id) (b id)

structure Row where
  id : Fin vclockMax
  lsn : Nat
  deriving DecidableEq

structure File where
  vclock : Clock
  rows : List Row

/-- `gc_checkpoint`. -/
structure Checkpoint where
  vclock : Clock
  refs : Nat

/-- `gc_consumer`; `address` tells consumers with one clock apart. -/
structure Consumer where
  address : Nat
  vclock : Clock

/-- `tx_notify_gc_msg`, and how many files were deleted in an emergency before it was sent. -/
structure Notice where
  vclock : Clock
  lost : Nat

/-- Where `gc_do_checkpoint` is. -/
inductive Progress where
  | idle
  | begun (vclock : Clock)
  | committed (vclock : Clock)

/-- A collection that was done, and what was kept at that time. -/
structure Collection where
  deleted : List File
  checkpoints : List Checkpoint
  consumers : List Consumer

/-- `gc_state` and the part of `wal_writer` that is about files. -/
structure State where
  vclock : Clock
  minCheckpointCount : Nat
  checkpoints : List Checkpoint
  /-- The consumers in the order of the tree. -/
  consumers : List Consumer := []
  inactive : List Consumer := []
  /-- The clock a collection was asked for with, until the WAL thread has done it. -/
  collecting : Option Clock := none
  progress : Progress := .idle
  files : List File
  walVclock : Clock
  isOpen : Bool := false
  checkpointVclock : Clock
  notices : List Notice := []
  lost : List File := []
  collected : List Collection := []

def gcConsumerCmp (a b : Consumer) : Int :=
  let rc := vclockLexCompare a.vclock b.vclock
  if rc ≠ 0 then rc
  else if a.address < b.address then -1
  else if a.address > b.address then 1
  else 0

/-- `gc_tree_insert`, on the list of the tree. -/
def gcTreeInsert (consumer : Consumer) : List Consumer → List Consumer
  | [] => [consumer]
  | other :: rest =>
    if gcConsumerCmp consumer other < 0 then consumer :: other :: rest
    else other :: gcTreeInsert consumer rest

/-- A tree that is not in order can not be searched for a consumer. -/
def InOrder (consumers : List Consumer) : Prop :=
  consumers.Pairwise fun a b => gcConsumerCmp a b < 0

instance (consumers : List Consumer) : Decidable (InOrder consumers) :=
  inferInstanceAs (Decidable (List.Pairwise _ _))

def gcTreeRemove (address : Nat) (consumers : List Consumer) : Option (List Consumer) := do
  assertThat (InOrder consumers)
  return consumers.filter (·.address ≠ address)

/-- `gc_consumer_register`. -/
def State.register (address : Nat) (vclock : Clock) (s : State) : Option State := do
  assertThat (InOrder s.consumers)
  return { s with consumers := gcTreeInsert ⟨address, vclock⟩ s.consumers }

/-- `gc_consumer_unregister`. -/
def State.unregister (address : Nat) (s : State) : Option State :=
  if s.inactive.any (·.address = address) then
    some { s with inactive := s.inactive.filter (·.address ≠ address) }
  else do
    let consumers ← gcTreeRemove address s.consumers
    return { s with consumers := consumers }

/-- The consumer after the one at an address, in the order of the tree. -/
def gcTreeNext (address : Nat) : List Consumer → Option Consumer
  | [] => none
  | consumer :: rest => if consumer.address = address then rest.head? else gcTreeNext address rest

/-- `gc_consumer_advance` of a consumer in the tree. It is moved only if the next one requires
it. -/
def advanceConsumer (consumer : Consumer) (vclock : Clock) (consumers : List Consumer) :
    Option (List Consumer) :=
  let moved := { consumer with vclock := vclock }
  let next := gcTreeNext consumer.address consumers
  if next.any fun other => vclockLexCompare vclock other.vclock ≥ 0 then do
    let consumers ← gcTreeRemove consumer.address consumers
    return gcTreeInsert moved consumers
  else some (consumers.map fun other => if other.address = consumer.address then moved else other)

/-- `gc_consumer_advance`. -/
def State.advance (address : Nat) (vclock : Clock) (s : State) : Option State := do
  if s.inactive.any (·.address = address) then return s
  else
    let consumer ← s.consumers.find? (·.address = address)
    assertThat (vclock.sum ≥ consumer.vclock.sum)
    if vclock.sum = consumer.vclock.sum then return s
    else
      let consumers ← advanceConsumer consumer vclock s.consumers
      return { s with consumers := consumers }

/-- The loop of `gc_run_cleanup` over the checkpoints, oldest first. -/
def dropCheckpoints (minCount : Nat) : List Checkpoint → List Checkpoint
  | [] => []
  | checkpoint :: rest =>
    if (checkpoint :: rest).length ≤ minCount then checkpoint :: rest
    else if checkpoint.refs ≠ 0 then checkpoint :: rest
    else dropCheckpoints minCount rest

def minVclock (checkpoint : Checkpoint) (consumers : List Consumer) : Clock :=
  consumers.foldl (fun min consumer => vclockMinIgnore0 min consumer.vclock) checkpoint.vclock

/-- `gc_run_cleanup`, to the point where the WAL thread is asked to delete files. -/
def State.runCleanup (s : State) : Option State := do
  assertThat (s.collecting.isNone)
  let checkpoints := dropCheckpoints s.minCheckpointCount s.checkpoints
  let checkpoint ← checkpoints.head?
  let min := minVclock checkpoint s.consumers
  if min.sum > s.vclock.sum then
    return { s with checkpoints := checkpoints, vclock := min, collecting := some min }
  else return { s with checkpoints := checkpoints }

/-- `xdir_collect_garbage`: the files to delete and those to keep. -/
def xdirCollectGarbage (signature : Nat) (files : List File) : List File × List File :=
  (files.takeWhile (·.vclock.sum < signature), files.dropWhile (·.vclock.sum < signature))

/-- The clock up to which files are deleted: all, if the last one is closed and all was read. The
index of the directory is a tree of any shape. -/
def State.collectUpTo (index : BinaryTree Clock) (vclock : Clock) (s : State) : Option Clock :=
  if s.isOpen = false ∧ vclock.sum ≥ s.walVclock.sum then some vclock
  else psearch vclocksetNodeCompare vclock index none

def State.collect (s : State) : Option Clock → State
  | none => { s with collecting := none }
  | some vclock =>
    { s with
      collecting := none
      files := (xdirCollectGarbage vclock.sum s.files).2
      collected := s.collected ++
        [⟨(xdirCollectGarbage vclock.sum s.files).1, s.checkpoints, s.consumers⟩] }

/-- `wal_collect_garbage_f`. -/
def State.collectGarbage (index : BinaryTree Clock) (s : State) : Option State := do
  assertThat (inorder index = s.files.map File.vclock)
  let vclock ← s.collecting
  return s.collect (s.collectUpTo index vclock)

/-- The clock of the oldest row in the directory: that of its first file, or of the next one to
be created. -/
def floor (walVclock : Clock) (files : List File) : Clock :=
  (files.head?.map File.vclock).getD walVclock

/-- `wal_fallocate` on a full disk: files that recovery does not need are deleted until there is
space. The transaction thread is told, if memory allows. -/
def State.emergency (count : Nat) (notified : Bool) (s : State) : Option State := do
  assertThat (count ≤ s.files.length)
  assertThat (∀ file ∈ s.files.take count, file.vclock.sum < s.checkpointVclock.sum)
  let lost := s.lost ++ s.files.take count
  let files := s.files.drop count
  let notices :=
    if count > 0 ∧ notified = true then
      s.notices ++ [⟨floor s.walVclock files, lost.length⟩]
    else s.notices
  return { s with files := files, lost := lost, notices := notices }

/-- `gc_advance`. -/
def State.notifyGc (s : State) : Option State :=
  match s.notices with
  | [] => none
  | notice :: rest =>
    let behind (consumer : Consumer) : Bool :=
      vclockCompareIgnore0 notice.vclock consumer.vclock > 0
    some { s with
      notices := rest
      vclock := notice.vclock
      consumers := s.consumers.filter (!behind ·)
      inactive := s.inactive ++ s.consumers.filter behind }

/-- The part of `wal_opt_rotate` that creates a file. One with the same clock is not created
twice. -/
def State.createFile (s : State) : Option State := do
  assertThat (s.isOpen = false)
  assertThat (∀ file ∈ s.files.getLast?, file.vclock.sum < s.walVclock.sum)
  return { s with files := s.files ++ [⟨s.walVclock, []⟩], isOpen := true }

def appendRow (row : Row) : List File → Option (List File)
  | [] => none
  | [file] => some [{ file with rows := file.rows ++ [row] }]
  | file :: rest => (appendRow row rest).map (file :: ·)

/-- A row is written; its LSN is after the last one of its instance. -/
def State.writeRow (row : Row) (s : State) : Option State := do
  assertThat (s.isOpen = true)
  assertThat (s.walVclock row.id < row.lsn)
  let files ← appendRow row s.files
  return { s with files := files, walVclock := Function.update s.walVclock row.id row.lsn }

/-- `wal_begin_checkpoint_f`: the file is closed, unless it is empty. -/
def State.beginCheckpoint (s : State) : Option State :=
  match s.progress with
  | .idle =>
    let last := (s.files.getLast?.map File.vclock).getD s.walVclock
    some { s with
      isOpen := s.isOpen && decide (last.sum = s.walVclock.sum)
      progress := .begun s.walVclock }
  | _ => none

/-- `gc_add_checkpoint`. -/
def addCheckpoint (vclock : Clock) (checkpoints : List Checkpoint) : Option (List Checkpoint) :=
  match checkpoints.getLast? with
  | none => some [⟨vclock, 0⟩]
  | some last =>
    if last.vclock.sum = vclock.sum then some checkpoints
    else do
      assertThat (last.vclock.sum < vclock.sum)
      return checkpoints ++ [⟨vclock, 0⟩]

/-- `gc_ref_checkpoint` and `gc_unref_checkpoint`. -/
def setRefs (f : Nat → Nat) (i : Nat) (checkpoints : List Checkpoint) : List Checkpoint :=
  checkpoints.modify i fun checkpoint => { checkpoint with refs := f checkpoint.refs }

inductive Action where
  | register (address : Nat) (vclock : Clock)
  | unregister (address : Nat)
  | advance (address : Nat) (vclock : Clock)
  | setMinCheckpointCount (count : Nat)
  | refCheckpoint (i : Nat)
  | unrefCheckpoint (i : Nat)
  | beginCheckpoint
  | commitCheckpoint
  | addCheckpoint
  | abortCheckpoint
  | createFile
  | closeFile
  | writeRow (row : Row)
  | runCleanup
  | collectGarbage (index : BinaryTree Clock)
  | emergency (count : Nat) (notified : Bool)
  | notifyGc

def step (s : State) : Action → Option State
  | .register address vclock => s.register address vclock
  | .unregister address => s.unregister address
  | .advance address vclock => s.advance address vclock
  | .setMinCheckpointCount count => do
    -- `box.cfg` refuses a count of zero
    assertThat (1 ≤ count)
    return { s with minCheckpointCount := count }
  | .refCheckpoint i => some { s with checkpoints := setRefs (· + 1) i s.checkpoints }
  | .unrefCheckpoint i => some { s with checkpoints := setRefs (· - 1) i s.checkpoints }
  | .beginCheckpoint => s.beginCheckpoint
  | .commitCheckpoint =>
    match s.progress with
    | .begun vclock => some { s with checkpointVclock := vclock, progress := .committed vclock }
    | _ => none
  | .addCheckpoint =>
    match s.progress with
    | .committed vclock => do
      let checkpoints ← Gc.addCheckpoint vclock s.checkpoints
      return { s with checkpoints := checkpoints, progress := .idle }
    | _ => none
  | .abortCheckpoint =>
    match s.progress with
    | .begun _ => some { s with progress := .idle }
    | _ => none
  | .createFile => s.createFile
  | .closeFile => some { s with isOpen := false }
  | .writeRow row => s.writeRow row
  | .runCleanup => s.runCleanup
  | .collectGarbage index => s.collectGarbage index
  | .emergency count notified => s.emergency count notified
  | .notifyGc => s.notifyGc

end TarantoolStorage.Gc
