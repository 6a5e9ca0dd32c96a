import TarantoolStorage.Binding.Executor

/-! Reading an index iterator in portions: a port that is half filled at the end is dropped. -/
namespace TarantoolStorage.Binding

open MsgPack List

/-- A tuple of the database: its bytes, and what the client reads from them. -/
structure BoxTuple {δ : Type} (decode : Bytes → Option (δ × Bytes)) where
  data : Bytes
  fields : δ
  decodes : ∀ rest, decode (data ++ rest) = some (fields, rest)

variable {δ : Type} {decode : Bytes → Option (δ × Bytes)} {count : Nat}
  {ts : List (BoxTuple decode)}

/-- The tuples an index iterator has still to return; an error is a failed step. -/
abbrev Cursor (decode : Bytes → Option (δ × Bytes)) := List (Except String (BoxTuple decode))

structure Memory where
  /-- Whether the port gets an entry behind this many others. -/
  portEntry : Nat → Bool
  /-- The failure of dumping a port with this many tuples. -/
  dumpFailure : Nat → Option String

def portEntryOutOfMemory : String := "Failed to allocate 24 bytes in mempool_alloc for e"

def boxIteratorNext : Cursor decode → Except String (Option (BoxTuple decode)) × Cursor decode
  | [] => (.ok none, [])
  | .ok tuple :: cursor => (.ok (some tuple), cursor)
  | .error error :: cursor => (.error error, cursor)

/-- `port_c_add_tuple`: the first entry is part of the port itself. -/
def portCAddTuple (memory : Memory) (port : List (BoxTuple decode)) (tuple : BoxTuple decode) :
    Option (List (BoxTuple decode)) :=
  if port.length = 0 ∨ memory.portEntry port.length then some (port ++ [tuple]) else none

/-- `port_c_dump_msgpack`: an array of the tuples. A portion stays below 2^31 bytes, since
`tarantool_tuple_from_port` counts its positions in an `int`. -/
def portDumpMsgpack (port : List (BoxTuple decode)) : Bytes :=
  mpEncodeArray port.length ++ port.flatMap BoxTuple.data

/-- The loop of `tarantool_iterator_next` with so many tuples to go. The error is the text of the
diagnostics area, `none` at the end of the data. -/
def fillPort (memory : Memory) : Nat → List (BoxTuple decode) → Cursor decode →
      Except (Option String) (List (BoxTuple decode)) × Cursor decode
  | 0, port, cursor => (.ok port, cursor)
  | n + 1, port, cursor =>
    match boxIteratorNext cursor with
    | (.error error, cursor) => (.error (some error), cursor)
    | (.ok none, cursor) => (.error none, cursor)
    | (.ok (some tuple), cursor) =>
      match portCAddTuple memory port tuple with
      | none => (.error (some portEntryOutOfMemory), cursor)
      | some port => fillPort memory n port cursor

def tarantoolIteratorNext (memory : Memory) (count : Nat) (cursor : Cursor decode) :
    CallResult Bytes (Cursor decode) :=
  match fillPort memory count [] cursor with
  | (.error failure, cursor) => ⟨none, failure, .keep 0, cursor⟩
  | (.ok port, cursor) =>
    match memory.dumpFailure port.length with
    | some error => ⟨none, some error, .keep 0, cursor⟩
    | none => ⟨some (portDumpMsgpack port), none, .keep 0, cursor⟩

/-- The CALL that `StorageExecutor.next` sends. -/
def nextMessage (memory : Memory) (count : Nat) : Message Nat Bytes (Cursor decode) where
  id := 0
  type := .call
  function := tarantoolIteratorNext memory
  input := count
  output := none
  callbackSendPort := 0
  callbackHandle := none
  batch := []
  error := none
  errorType := .limit
  owner := 0

/-- `StorageExecutor.next`: null at the end of the data, otherwise the tuples read. -/
def executorNext (memory : Memory) (count : Nat) (f : Fiber (Cursor decode)) :
    Fiber (Cursor decode) × Except StorageException (Option (List δ)) :=
  let (f, m) := tarantoolMessageHandleCall f (nextMessage memory count)
  (f, (sendSingle .delivered (.ok ()) m).bind fun output =>
    match output with
    | none => .ok none
    | some bytes =>
      match decodeArray decode bytes with
      | none => .error .format
      | some (tuples, _) => .ok (some tuples))

/-- What `next` returns until it returns null; `none` when that many calls do not reach the end. -/
def collect (memory : Memory) (count : Nat) :
    Nat → Fiber (Cursor decode) → Option (Except StorageException (List δ))
  | 0, _ => none
  | fuel + 1, f =>
    match executorNext memory count f with
    | (_, .error exception) => some (.error exception)
    | (_, .ok none) => some (.ok [])
    | (f, .ok (some tuples)) => (collect memory count fuel f).map fun rest => rest.map (tuples ++ ·)

/-- No allocation fails. -/
def Memory.Sufficient (memory : Memory) : Prop :=
  (∀ n, memory.portEntry n = true) ∧ ∀ n, memory.dumpFailure n = none

variable {memory : Memory} {f : Fiber (Cursor decode)}

/-- The port is filled with the next tuples, or destroyed when there are too few. -/
lemma fillPort_spec (hm : memory.Sufficient) (n : Nat) (port ts : List (BoxTuple decode)) :
    fillPort memory n port (ts.map .ok) =
      if n ≤ ts.length then (.ok (port ++ ts.take n), (ts.drop n).map .ok)
      else (.error none, []) := by
  induction n generalizing port ts with
  | zero => simp [fillPort]
  | succ n ih =>
    cases ts with
    | nil => simp [fillPort, boxIteratorNext]
    | cons t ts => simp [fillPort, boxIteratorNext, portCAddTuple, hm.1, ih]

lemma tarantoolIteratorNext_spec (hm : memory.Sufficient) (count : Nat)
    (ts : List (BoxTuple decode)) :
    tarantoolIteratorNext memory count (ts.map .ok) = if count ≤ ts.length then
        ⟨some (portDumpMsgpack (ts.take count)), none, .keep 0, (ts.drop count).map .ok⟩
      else ⟨none, none, .keep 0, []⟩ := by
  unfold tarantoolIteratorNext
  rw [fillPort_spec hm]
  by_cases hl : count ≤ ts.length
  · simp [hl, hm.2]
  · simp [hl]

lemma decodeArray_portDumpMsgpack {port : List (BoxTuple decode)} (h : port.length < 2 ^ 32) :
    decodeArray decode (portDumpMsgpack port) = some (port.map BoxTuple.fields, []) := by
  simpa [portDumpMsgpack] using decodeArray_encode (fun t : BoxTuple decode => t.decodes) h []

/-- Enough tuples are left: the call returns the next portion and moves the cursor behind it. -/
lemma executorNext_full (hm : memory.Sufficient) (hc : count < 2 ^ 31) (hl : count ≤ ts.length)
    (hd : f.diag = none) (hb : f.box = ts.map .ok) :
    ∃ g, executorNext memory count f = (g, .ok (some ((ts.take count).map BoxTuple.fields))) ∧
      g.diag = none ∧ g.box = (ts.drop count).map .ok := by
  have hca : tarantoolIteratorNext memory count f.box =
      ⟨some (portDumpMsgpack (ts.take count)), none, .keep 0, (ts.drop count).map .ok⟩ := by
    rw [hb, tarantoolIteratorNext_spec hm, if_pos hl]
  have hp : (ts.take count).length < 2 ^ 32 := by
    rw [length_take]
    omega
  refine ⟨(tarantoolIteratorNext memory count f.box).apply f, ?_, ?_, ?_⟩
  · have ho : ((nextMessage memory count).function count f.box).failure = none := by
      simp [nextMessage, hca]
    simp only [executorNext]
    rw [handleCall_of_success hd ho]
    simp [nextMessage, hca, sendSingle, awaitMessage, Sent.delivered, Except.bind,
      decodeArray_portDumpMsgpack hp]
  · simp [CallResult.apply, hca, hd]
  · simp [CallResult.apply, hca]

/-- Too few tuples are left: the call returns null, whatever it has taken from the cursor. -/
lemma executorNext_short (hm : memory.Sufficient) (hl : ts.length < count) (hd : f.diag = none)
    (hb : f.box = ts.map .ok) : ∃ g, executorNext memory count f = (g, .ok none) := by
  have hc : tarantoolIteratorNext memory count f.box = ⟨none, none, .keep 0, []⟩ := by
    rw [hb, tarantoolIteratorNext_spec hm, if_neg (by omega)]
  have ho : ((nextMessage memory count).function count f.box).failure = none := by
    simp [nextMessage, hc]
  refine ⟨(tarantoolIteratorNext memory count f.box).apply f, ?_⟩
  simp only [executorNext]
  rw [handleCall_of_success hd ho]
  simp [nextMessage, hc, sendSingle, awaitMessage, Sent.delivered, Except.bind]

/-- The calls return the full portions of the sequence, and then null. -/
lemma collect_eq (hm : memory.Sufficient) (hp : 0 < count) (hc : count < 2 ^ 31) {fuel : Nat}
    (hf : ts.length / count < fuel) (hd : f.diag = none) (hb : f.box = ts.map .ok) :
    collect memory count fuel f =
      some (.ok ((ts.take (ts.length / count * count)).map BoxTuple.fields)) := by
  induction fuel generalizing ts f with
  | zero => exact absurd hf (Nat.not_lt_zero _)
  | succ fuel ih =>
    by_cases hl : count ≤ ts.length
    · obtain ⟨g, hn, hg, hgb⟩ := executorNext_full hm hc hl hd hb
      have hq : ts.length / count = (ts.drop count).length / count + 1 := by
        rw [length_drop, Nat.div_eq_sub_div hp hl]
      have hr := ih (by omega) hg hgb
      have ht : ts.take (ts.length / count * count) =
          ts.take count ++ (ts.drop count).take ((ts.drop count).length / count * count) := by
        rw [hq, Nat.add_mul, Nat.one_mul, Nat.add_comm, take_add]
      simp [collect, hn, hr, Except.map, ht]
    · have hshort : ts.length < count := by omega
      obtain ⟨g, hn⟩ := executorNext_short hm hshort hd hb
      have hq : ts.length / count = 0 := Nat.div_eq_of_lt hshort
      simp [collect, hn, hq]

/-- Calling `next` until it returns null ends, and yields each tuple once and in order, exactly
when the portion divides the number of tuples. -/
theorem prefetch_complete_iff {memory : Memory} (hm : memory.Sufficient) {count : Nat}
    (hpos : 0 < count) (hc : count < 2 ^ 31) {fuel : Nat} {ts : List (BoxTuple decode)}
    (hfuel : ts.length / count < fuel) {f : Fiber (Cursor decode)}
    (hd : f.diag = none) (hb : f.box = ts.map .ok) :
    (∃ tuples, collect memory count fuel f = some (.ok tuples)) ∧
      (collect memory count fuel f = some (.ok (ts.map BoxTuple.fields)) ↔ count ∣ ts.length) := by
  have hco := collect_eq hm hpos hc hfuel hd hb
  refine ⟨⟨_, hco⟩, ?_⟩
  rw [hco]
  constructor
  · intro h
    have hma : (ts.take (ts.length / count * count)).map BoxTuple.fields =
        ts.map BoxTuple.fields := by
      simpa using h
    have hl := congrArg List.length hma
    simp only [length_map, length_take] at hl
    have hle : ts.length / count * count ≤ ts.length := Nat.div_mul_le_self ts.length count
    exact ⟨ts.length / count, by rw [Nat.mul_comm]; omega⟩
  · intro h
    rw [Nat.div_mul_cancel h, take_length]

def ampleMemory : Memory := ⟨fun _ => true, fun _ => none⟩

/-- The tuple `[n]` of one small number. -/
def numberTuple (n : Fin 128) : BoxTuple (decodeArray mpDecodeUint) where
  data := mpEncodeArray 1 ++ mpEncodeUint n
  fields := [n.val]
  decodes rest := by
    have hone : ∀ (k : Fin 128) rest, mpDecodeUint (mpEncodeUint k ++ rest) = some (k.val, rest) :=
      fun k rest => mpDecodeUint_encode (by omega) rest
    have hlen : [n].length < 2 ^ 32 := by simp
    simpa using decodeArray_encode hone hlen rest

/-- A fiber with nothing in its diagnostics area and these tuples before its cursor. -/
def numbersFiber (ns : List (Fin 128)) : Fiber (Cursor (decodeArray mpDecodeUint)) where
  txn := none
  transactionOwner := 0
  diag := none
  box := ns.map fun n => .ok (numberTuple n)

theorem prefetch_complete_four :
    collect ampleMemory 2 3 (numbersFiber [1, 2, 3, 4]) = some (.ok [[1], [2], [3], [4]]) := by
  have hb : (numbersFiber [1, 2, 3, 4]).box = ([1, 2, 3, 4].map numberTuple).map .ok := rfl
  exact (prefetch_complete_iff ⟨fun _ => rfl, fun _ => rfl⟩ (by decide) (by decide) (by decide)
    rfl hb).2.mpr (by decide)

/-- Three tuples read two at a time: the third one is taken from the cursor and dropped,
while one at a time all three are read. -/
theorem prefetch_loses_last :
    collect ampleMemory 2 3 (numbersFiber [1, 2, 3]) = some (.ok [[1], [2]]) ∧
      collect ampleMemory 1 4 (numbersFiber [1, 2, 3]) = some (.ok [[1], [2], [3]]) :=
  ⟨rfl, rfl⟩

end TarantoolStorage.Binding
