import TarantoolStorage.Xlog.Writer

/-! The read side of a log file, after `xlog_cursor_next`. The file is loaded piece by piece. -/
namespace TarantoolStorage.Xlog

open Checked MsgPack Xrow

def xlogReadAhead : Nat := 2 ^ 14
def iprotoBodyLenMax : Nat := 2147483648

/-- Errors of the log itself can be skipped in force recovery, others can not. -/
inductive ReadError where
  | xlog (text : String)
  | decompression
  deriving DecidableEq

/-- What a call returns: 0 with its result, 1 or -1. -/
inductive Rc (α : Type) where
  | ok (a : α)
  | eof
  | error (e : ReadError)
  deriving DecidableEq

inductive CursorState where
  | active
  | tx
  | eof
  deriving DecidableEq

/-- `xlog_cursor`: what is loaded and not consumed, what is left of the file, and the rows of the
block that is open. -/
structure Cursor where
  rbuf : Bytes
  unread : Bytes
  state : CursorState := .active
  rows : Bytes := []
  deriving DecidableEq

/-- All that is not consumed. -/
def Cursor.remaining (cursor : Cursor) : Bytes := cursor.rbuf ++ cursor.unread

/-- So many bytes are read from the file, or all that are left. -/
def Cursor.load (bytes : Nat) (cursor : Cursor) : Cursor :=
  { cursor with
    rbuf := cursor.rbuf ++ cursor.unread.take bytes, unread := cursor.unread.drop bytes }

/-- `xlog_cursor_ensure`. -/
def Cursor.ensure (count : Nat) (cursor : Cursor) : Bool × Cursor :=
  if cursor.rbuf.length ≥ count then (true, cursor)
  else
    let cursor := cursor.load (count - cursor.rbuf.length + xlogReadAhead)
    (decide (cursor.rbuf.length ≥ count), cursor)

abbrev Read := ExceptT ReadError Option

/-- `xlog_fixheader`. -/
structure Fixheader where
  magic : Nat
  crc32p : Nat
  crc32c : Nat
  len : Nat

/-- A call that has what it needs, or the number of bytes it lacks. -/
inductive Loaded (α : Type) where
  | more (bytes : Nat)
  | done (a : α)

def hexDigits (n : Nat) : String := String.ofList (Nat.toDigits 16 n)

def fixheaderUint (what : String) (pos : Bytes) : Read (Nat × Bytes) :=
  match mpCheck pos with
  | none => throw (.xlog ("broken fixheader " ++ what))
  | some rest =>
    if headType pos ≠ some .uint then throw (.xlog ("broken fixheader " ++ what))
    else do
      let (n, val) ← ExceptT.lift (mpDecodeUint pos)
      ExceptT.lift (assertThat (val = rest))
      return (n, rest)

/-- The numbers after the magic, up to the end of the fixheader. -/
def fixheaderNumbers (magic : Nat) (pos : Bytes) : Read Fixheader := do
  let (len, pos) ← fixheaderUint "length" pos
  if len % 2 ^ 32 > iprotoBodyLenMax then throw (.xlog "too large fixheader length")
  let (crc32p, pos) ← fixheaderUint "crc32p" pos
  let (crc32c, pos) ← fixheaderUint "crc32c" pos
  if pos ≠ [] ∧ mpCheck pos ≠ some [] then throw (.xlog "broken fixheader padding")
  return ⟨magic, crc32p % 2 ^ 32, crc32c % 2 ^ 32, len % 2 ^ 32⟩

/-- `xlog_fixheader_decode`. -/
def fixheaderDecode (data : Bytes) : Read (Loaded (Fixheader × Bytes)) :=
  if data.length < xlogFixheaderSize then return .more (xlogFixheaderSize - data.length)
  else do
    let (magic, pos) ← ExceptT.lift (loadBe 0 4 (data.take xlogFixheaderSize))
    if magic ≠ rowMarker ∧ magic ≠ zrowMarker then
      throw (.xlog ("invalid magic: 0x" ++ hexDigits magic))
    let fixheader ← fixheaderNumbers magic pos
    return .done (fixheader, data.drop xlogFixheaderSize)

def Env.openBlock (env : Env) (fixheader : Fixheader) (rpos : Bytes) : Read (Bytes × Bytes) :=
  let data := rpos.take fixheader.len
  if (env.crc32 data).toNat ≠ fixheader.crc32c then throw (.xlog "tx checksum mismatch")
  else if fixheader.magic = rowMarker then return (data, rpos.drop fixheader.len)
  else
    match env.decompress data with
    | none => throw .decompression
    | some rows => return (rows, rpos.drop fixheader.len)

/-- `xlog_tx_cursor_create`. -/
def Env.txCursorCreate (env : Env) (data : Bytes) : Read (Loaded (Bytes × Bytes)) := do
  match ← fixheaderDecode data with
  | .more bytes => return .more bytes
  | .done (fixheader, rpos) =>
    if rpos.length < fixheader.len then return .more (fixheader.len - rpos.length)
    else
      let rows ← env.openBlock fixheader rpos
      return .done rows

/-- The loop of `xlog_cursor_next_tx`: every turn loads at least a byte. -/
def Cursor.openTx (env : Env) : Nat → Cursor → Option (Rc Unit × Cursor)
  | 0, _ => none
  | fuel + 1, cursor =>
    match (env.txCursorCreate cursor.rbuf).run with
    | none => none
    | some (.error e) => some (.error e, cursor)
    | some (.ok (.done (rows, rest))) =>
      some (.ok (), { cursor with rbuf := rest, rows := rows, state := .tx })
    | some (.ok (.more bytes)) =>
      let (loaded, cursor) := cursor.ensure (cursor.rbuf.length + bytes)
      if loaded then cursor.openTx env fuel else some (.eof, cursor)

/-- The end marker is found: nothing may follow it. -/
def Cursor.atEofMarker (cursor : Cursor) : Rc Unit × Cursor :=
  let (loaded, cursor) := cursor.ensure 5
  if loaded then (.error (.xlog "has some data after eof marker"), cursor)
  else (.eof, { cursor with state := .eof })

/-- `xlog_cursor_next_tx`. -/
def Cursor.nextTx (env : Env) (cursor : Cursor) : Option (Rc Unit × Cursor) :=
  let (loaded, cursor) := cursor.ensure 4
  if loaded = false then some (.eof, cursor)
  else if (loadBe 0 4 cursor.rbuf).any (·.1 = eofMarker) then some cursor.atEofMarker
  else cursor.openTx env (cursor.unread.length + 1)

/-- `xlog_tx_cursor_next_row` and `xlog_cursor_next_row`. -/
def Cursor.nextRow (cursor : Cursor) : Option (Rc Header × Cursor) :=
  if cursor.state ≠ .tx then some (.eof, cursor)
  else if cursor.rows = [] then some (.eof, { cursor with state := .active })
  else
    match (headerDecode cursor.rows false).run with
    | none => none
    | some (.ok (row, rest)) => some (.ok row, { cursor with rows := rest })
    | some (.error _) =>
      some (.error (.xlog "can't parse row"), { cursor with rows := [], state := .active })

/-- `xlog_cursor_find_tx_magic`: every turn moves on by a byte. -/
def Cursor.findTxMagic : Nat → Cursor → Option (Rc Unit × Cursor)
  | 0, _ => none
  | fuel + 1, cursor =>
    let (loaded, cursor) := cursor.ensure 5
    if loaded = false then some (.eof, cursor)
    else
      let cursor := { cursor with rbuf := cursor.rbuf.drop 1 }
      if (loadBe 0 4 cursor.rbuf).any fun (magic, _) => magic = rowMarker ∨ magic = zrowMarker then
        some (.ok (), cursor)
      else cursor.findTxMagic fuel

def ReadError.skipped (force : Bool) : ReadError → Bool
  | .xlog _ => force
  | .decompression => false

/-- The inner loop of `xlog_cursor_next`: broken blocks are skipped in force recovery. -/
def Cursor.nextGoodTx (env : Env) (force : Bool) : Nat → Cursor → Option (Rc Unit × Cursor)
  | 0, _ => none
  | fuel + 1, cursor => do
    match ← cursor.nextTx env with
    | (.error e, cursor) =>
      if e.skipped force = false then return (.error e, cursor)
      else
        match ← cursor.findTxMagic (cursor.remaining.length + 1) with
        | (.ok (), cursor) => cursor.nextGoodTx env force fuel
        | found => return found
    | done => return done

/-- A row that can not be parsed is skipped in force recovery, with the rest of its block. -/
def Cursor.nextGoodRow (force : Bool) (cursor : Cursor) : Option (Rc Header × Cursor) := do
  match ← cursor.nextRow with
  | (.error e, cursor) => return (if e.skipped force = true then .eof else .error e, cursor)
  | found => return found

/-- The outer loop of `xlog_cursor_next`: every turn consumes a block. -/
def Cursor.nextLoop (env : Env) (force : Bool) : Nat → Cursor → Option (Rc Header × Cursor)
  | 0, _ => none
  | fuel + 1, cursor => do
    match ← cursor.nextGoodRow force with
    | (.eof, cursor) =>
      match ← cursor.nextGoodTx env force (cursor.remaining.length + 1) with
      | (.ok (), cursor) => cursor.nextLoop env force fuel
      | (.error e, cursor) => return (.error e, cursor)
      | (.eof, cursor) => return (.eof, cursor)
    | found => return found

/-- `xlog_cursor_next`. -/
def Cursor.next (env : Env) (force : Bool) (cursor : Cursor) : Option (Rc Header × Cursor) :=
  cursor.nextLoop env force (cursor.remaining.length + 2)

/-- The rows that so many calls return, and what the first call returned that gave no row. -/
def Cursor.readAll (env : Env) (force : Bool) :
    Nat → Cursor → Option (List Header × Option (Rc Header))
  | 0, _ => some ([], none)
  | calls + 1, cursor => do
    match ← cursor.next env force with
    | (.ok row, cursor) =>
      let (rows, rc) ← cursor.readAll env force calls
      return (row :: rows, rc)
    | (rc, _) => return ([], some rc)

end TarantoolStorage.Xlog
