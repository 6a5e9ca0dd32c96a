import TarantoolStorage.Lib.Run
import TarantoolStorage.Xrow.Header

/-!
The write side of a log file (`xlog.c`). Rows are written in blocks, and a failed write is cut off
again. Compression and checksum are parameters.
-/
namespace TarantoolStorage.Xlog

open Checked MsgPack Xrow List Option

def xlogFixheaderSize : Nat := 19
def xlogTxAutocommitThreshold : Nat := 128 * 1024
def xlogTxCompressThreshold : Nat := 2 * 1024
def rowMarker : Nat := 0xd5ba0bab
def zrowMarker : Nat := 0xd5ba0bba
def eofMarker : Nat := 0xd510aded

/-- What a log rests on: `crc32_calc` over a whole block, a zstd frame of the rows and its
contents, whether the log is compressed, and what an `obuf` of small holds of the data that was put
in the place it reserved, which is what is written. -/
structure Env where
  crc32 : Bytes → UInt32
  compress : Bytes → Bytes
  decompress : Bytes → Option Bytes
  noCompression : Bool
  held : Bytes → Bytes
  length_held : ∀ data, (held data).length = data.length

/-- Zstd is lossless. -/
def Env.Lossless (env : Env) : Prop := ∀ rows, env.decompress (env.compress rows) = some rows

/-- How a write to the file ends. A failed one may leave some bytes behind. -/
inductive WriteResult where
  | written
  | failed (left : Bytes)

/-- `xlog`: the file after its header, the good write position, the buffer once it has a fixheader,
and whether it may be written at any row. The transactions in the buffer, the open one and those of
each block are kept for reference. -/
structure Log where
  file : Bytes := []
  offset : Nat := 0
  obuf : Option Bytes := none
  isAutocommit : Bool := true
  pending : List (List Header) := []
  current : List Header := []
  blocks : List (List (List Header)) := []

def Log.obufSize (log : Log) : Nat :=
  match log.obuf with
  | none => 0
  | some rows => xlogFixheaderSize + rows.length

def padding (n : Nat) : Bytes :=
  if n > 0 then mpEncodeStrl (n - 1) ++ List.replicate (n - 1) 0 else []

def fixheader (magic len : Nat) (crc32c : UInt32) : Bytes :=
  let data := storeBe 4 magic ++ mpEncodeUint len ++ mpEncodeUint 0 ++ mpEncodeUint crc32c.toNat
  data ++ padding (xlogFixheaderSize - data.length)

def block (env : Env) (magic : Nat) (data : Bytes) : Bytes :=
  fixheader magic data.length (env.crc32 data) ++ env.held data

/-- Whether `xlog_tx_write` compresses these rows. -/
def Env.compresses (env : Env) (rows : Bytes) : Prop :=
  env.noCompression = false ∧ xlogFixheaderSize + rows.length ≥ xlogTxCompressThreshold

instance (env : Env) (rows : Bytes) : Decidable (env.compresses rows) :=
  inferInstanceAs (Decidable (_ ∧ _))

/-- The magic and the contents of the block of these rows, after `xlog_tx_write_plain` and
`xlog_tx_write_zstd`. -/
def Env.magic (env : Env) (rows : Bytes) : Nat :=
  if env.compresses rows then zrowMarker else rowMarker

def Env.data (env : Env) (rows : Bytes) : Bytes :=
  if env.compresses rows then env.compress rows else rows

def Env.blockOf (env : Env) (rows : Bytes) : Bytes := block env (env.magic rows) (env.data rows)

def Log.reset (log : Log) : Log := { log with obuf := none, pending := [], current := [] }

/-- `xlog_tx_write`: the number of bytes written, or -1. -/
def Log.txWrite (env : Env) (result : WriteResult) (log : Log) : Int × Log :=
  if log.obufSize = xlogFixheaderSize then (0, log)
  else
    let bytes := env.blockOf (log.obuf.getD [])
    match result with
    | .written => (bytes.length, { log.reset with
        file := log.file ++ bytes
        offset := log.offset + bytes.length
        blocks := log.blocks ++ [log.pending] })
    | .failed left => (-1, { log.reset with file := (log.file ++ left).take log.offset })

/-- The row is part of the transaction that is open, or one of its own. -/
def Log.note (log : Log) (row : Header) : Log :=
  if log.isAutocommit then { log with pending := log.pending ++ [[row]] }
  else { log with current := log.current ++ [row] }

def Log.addRow (row : Header) (bytes : Bytes) (log : Log) : Log :=
  { log.note row with obuf := some (log.obuf.getD [] ++ bytes) }

/-- Outside of a transaction a large buffer is written at once. -/
def Log.autocommit (env : Env) (result : WriteResult) (rowSize : Nat) (log : Log) : Int × Log :=
  if log.isAutocommit = true ∧ log.obufSize ≥ xlogTxAutocommitThreshold then
    let (written, log) := log.txWrite env result
    (if written < 0 then -1 else rowSize, log)
  else (rowSize, log)

/-- `xlog_write_row`. If the row can not be encoded or buffered, the buffer is rolled back to
where it was, with the fixheader. -/
def Log.writeRow (env : Env) (fails : Bool) (result : WriteResult) (row : Header) (log : Log) :
    Option (Int × Log) :=
  let log := { log with obuf := some (log.obuf.getD []) }
  if fails = true then some (-1, log)
  else (headerEncode row 0).map fun iov =>
    (log.addRow row iov.flatten).autocommit env result iov.flatten.length

/-- `xlog_tx_begin`. -/
def Log.txBegin (log : Log) : Log := { log with isAutocommit := false }

def Log.endTx (log : Log) : Log :=
  { log with
    isAutocommit := true
    pending := if log.current = [] then log.pending else log.pending ++ [log.current]
    current := [] }

/-- `xlog_tx_commit`. -/
def Log.txCommit (env : Env) (result : WriteResult) (log : Log) : Int × Log :=
  if log.endTx.obufSize ≥ xlogTxAutocommitThreshold then log.endTx.txWrite env result
  else (0, log.endTx)

/-- `xlog_tx_rollback`: all that is buffered is dropped. -/
def Log.txRollback (log : Log) : Log := { log.reset with isAutocommit := true }

/-- `xlog_flush`. -/
def Log.flush (env : Env) (result : WriteResult) (log : Log) : Option (Int × Log) := do
  assertThat (log.isAutocommit = true)
  if log.obufSize = 0 then return (0, log)
  return log.txWrite env result

inductive Call where
  | txBegin
  | writeRow (fails : Bool) (result : WriteResult) (row : Header)
  | txCommit (result : WriteResult)
  | txRollback
  | flush (result : WriteResult)

def step (env : Env) (log : Log) : Call → Option Log
  | .txBegin => some log.txBegin
  | .writeRow fails result row => (log.writeRow env fails result row).map Prod.snd
  | .txCommit result => some (log.txCommit env result).2
  | .txRollback => some log.txRollback
  | .flush result => (log.flush env result).map Prod.snd

def rowBytes (row : Header) : Bytes := row.head 0 ++ row.body.flatten

def rowsBytes (rows : List Header) : Bytes := rows.flatMap rowBytes

def Env.encode (env : Env) (txs : List (List Header)) : Bytes :=
  env.blockOf (rowsBytes txs.flatten)

section

variable {n : Nat}

lemma length_mpEncodeUint_of_word (h : n < 2 ^ 32) : (mpEncodeUint n).length ≤ 5 := by
  unfold mpEncodeUint
  split_ifs <;> simp only [length_cons, length_storeBe] <;> omega

lemma padding_succ (hn : n < 32) :
    padding (n + 1) = UInt8.ofNat (0xa0 ||| n) :: List.replicate n 0 := by
  rw [padding, if_pos (Nat.succ_pos n), Nat.add_sub_cancel, mpEncodeStrl, if_pos (by omega),
    storeBe_one, singleton_append]

lemma length_padding (hn : n ≤ 32) : (padding n).length = n := by
  cases n with
  | zero => rfl
  | succ n => rw [padding_succ (by omega), length_cons, length_replicate]

lemma length_numbers (magic len : Nat) (crc : UInt32) :
    (storeBe 4 magic ++ mpEncodeUint len ++ mpEncodeUint 0 ++ mpEncodeUint crc.toNat).length ≤
      xlogFixheaderSize := by
  have hl := length_mpEncodeUint_le len
  have hz : (mpEncodeUint 0).length = 1 := rfl
  have hc := length_mpEncodeUint_of_word crc.toNat_lt
  simp only [length_append, length_storeBe, hz, xlogFixheaderSize]
  omega

lemma length_fixheader (magic len : Nat) (crc : UInt32) :
    (fixheader magic len crc).length = xlogFixheaderSize := by
  have hl := length_numbers magic len crc
  rw [fixheader, length_append, length_padding (by rw [xlogFixheaderSize]; omega)]
  omega

lemma length_blockOf (env : Env) (rows : Bytes) :
    (env.blockOf rows).length = xlogFixheaderSize + (env.data rows).length := by
  rw [Env.blockOf, block, length_append, length_fixheader, env.length_held]

end

structure Log.Inv (env : Env) (log : Log) : Prop where
  obuf_eq : log.obuf.getD [] = rowsBytes (log.pending.flatten ++ log.current)
  none_eq : log.obuf = none → log.pending = [] ∧ log.current = []
  autocommit : log.isAutocommit = true → log.current = []
  file_eq : log.file = log.blocks.flatMap env.encode
  offset_eq : log.offset = log.file.length
  buffered : ∀ row ∈ log.pending.flatten ++ log.current, WellFormed row
  stored : ∀ txs ∈ log.blocks, txs.flatten ≠ [] ∧ ∀ row ∈ txs.flatten, WellFormed row

section

variable {env : Env} {log log' : Log} {result : WriteResult} {row : Header} {rc : Int}

lemma Log.Inv.txWrite (h : log.Inv env) (hc : log.current = []) (ho : log.obuf ≠ none) :
    (log.txWrite env result).2.Inv env := by
  unfold Log.txWrite
  split
  · exact h
  · rename_i hsi
    have hr : log.obuf.getD [] = rowsBytes log.pending.flatten := by
      rw [h.obuf_eq, hc, append_nil]
    cases result with
    | failed left =>
      have hf : (log.file ++ left).take log.offset = log.file := by
        rw [h.offset_eq, take_left]
      exact ⟨rfl, fun _ => ⟨rfl, rfl⟩, fun _ => rfl, hf.trans h.file_eq,
        h.offset_eq.trans (congrArg List.length hf.symm), by simp [Log.reset], h.stored⟩
    | written =>
      refine ⟨rfl, fun _ => ⟨rfl, rfl⟩, fun _ => rfl, ?_, ?_, by simp [Log.reset], ?_⟩
      · change log.file ++ env.blockOf (log.obuf.getD []) =
          (log.blocks ++ [log.pending]).flatMap env.encode
        rw [flatMap_append, flatMap_singleton, ← h.file_eq, hr, Env.encode]
      · change log.offset + _ = (log.file ++ _).length
        rw [length_append, h.offset_eq]
      · intro txs ht
        rcases mem_append.mp ht with ht | ht
        · exact h.stored txs ht
        · rw [mem_singleton.mp ht]
          refine ⟨?_, fun row hro => h.buffered row (mem_append_left _ hro)⟩
          intro hn
          rw [hn] at hr
          obtain ⟨rows, hs⟩ := ne_none_iff_exists'.mp ho
          rw [hs] at hr
          obtain rfl : rows = [] := hr
          exact hsi (by simp [Log.obufSize, hs])

lemma rowsBytes_append (rows more : List Header) :
    rowsBytes (rows ++ more) = rowsBytes rows ++ rowsBytes more :=
  flatMap_append

section

variable (h : log.Inv env)
include h

lemma Log.Inv.addRow (hro : WellFormed row) :
    (log.addRow row (rowBytes row)).Inv env := by
  have hr : log.obuf.getD [] ++ rowBytes row =
      rowsBytes (log.pending.flatten ++ log.current ++ [row]) := by
    rw [rowsBytes_append, h.obuf_eq]
    simp [rowsBytes]
  have hal : ∀ other ∈ log.pending.flatten ++ log.current ++ [row], WellFormed other := by
    intro other ho
    rcases mem_append.mp ho with ho | ho
    · exact h.buffered other ho
    · rw [mem_singleton.mp ho]
      exact hro
  cases ha : log.isAutocommit with
  | true =>
    have hc := h.autocommit ha
    rw [hc, append_nil] at hr hal
    have hn : log.addRow row (rowBytes row) = { log with
        pending := log.pending ++ [[row]], obuf := some (log.obuf.getD [] ++ rowBytes row) } := by
      simp [Log.addRow, Log.note, ha]
    rw [hn]
    refine ⟨?_, by simp, h.autocommit, h.file_eq, h.offset_eq, ?_, h.stored⟩
    · simp only [getD_some, hr, hc]
      simp
    · simpa [hc] using hal
  | false =>
    have hn : log.addRow row (rowBytes row) = { log with
        current := log.current ++ [row], obuf := some (log.obuf.getD [] ++ rowBytes row) } := by
      simp [Log.addRow, Log.note, ha]
    rw [hn]
    refine ⟨?_, by simp, by simp [ha], h.file_eq, h.offset_eq, ?_, h.stored⟩
    · simp only [getD_some, hr]
      simp
    · simpa using hal

lemma Log.Inv.reserve :
    ({ log with obuf := some (log.obuf.getD []) } : Log).Inv env :=
  ⟨h.obuf_eq, by simp, h.autocommit, h.file_eq, h.offset_eq, h.buffered, h.stored⟩

lemma Log.Inv.txBegin : log.txBegin.Inv env :=
  ⟨h.obuf_eq, h.none_eq, by simp [Log.txBegin], h.file_eq, h.offset_eq, h.buffered, h.stored⟩

lemma Log.Inv.writeRow {fails : Bool} (hr : WellFormed row)
    (hw : log.writeRow env fails result row = some (rc, log')) : log'.Inv env := by
  unfold Log.writeRow at hw
  split at hw
  · cases hw
    exact h.reserve
  · have he := headerEncode_eq hr.replica hr.group hr.iov 0
    rw [he, map_some, flatten_cons, ← rowBytes] at hw
    have had := h.reserve.addRow hr
    unfold Log.autocommit at hw
    split at hw
    · rename_i ha
      cases hw
      exact had.txWrite (had.autocommit ha.1) (by simp [Log.addRow])
    · cases hw
      exact had

lemma Log.Inv.endTx : log.endTx.Inv env := by
  unfold Log.endTx
  by_cases hc : log.current = []
  · simp only [if_pos hc]
    exact ⟨by simpa [hc] using h.obuf_eq, fun hn => ⟨(h.none_eq hn).1, rfl⟩,
      fun _ => rfl, h.file_eq, h.offset_eq, by simpa [hc] using h.buffered, h.stored⟩
  · simp only [if_neg hc]
    exact ⟨by simpa using h.obuf_eq, fun hn => absurd (h.none_eq hn).2 hc,
      fun _ => rfl, h.file_eq, h.offset_eq, by simpa using h.buffered, h.stored⟩

lemma Log.Inv.txCommit : (log.txCommit env result).2.Inv env := by
  unfold Log.txCommit
  split
  · rename_i hs
    refine h.endTx.txWrite rfl fun hn => ?_
    simp [Log.obufSize, hn, xlogTxAutocommitThreshold] at hs
  · exact h.endTx

lemma Log.Inv.txRollback : log.txRollback.Inv env :=
  ⟨rfl, fun _ => ⟨rfl, rfl⟩, fun _ => rfl, h.file_eq, h.offset_eq,
    by simp [Log.txRollback, Log.reset], h.stored⟩

lemma Log.Inv.flush (hf : log.flush env result = some (rc, log')) :
    log'.Inv env := by
  obtain ⟨ha, hf⟩ := assert_bind_eq_some.mp hf
  split_ifs at hf with he
  · cases hf
    exact h
  · have hw : (log.txWrite env result).2.Inv env :=
      h.txWrite (h.autocommit ha) fun hn => he (by simp [Log.obufSize, hn])
    have heq : (log.txWrite env result).2 = log' := congrArg Prod.snd (some.inj hf)
    rwa [heq] at hw

end

def Call.Valid : Call → Prop
  | .writeRow _ _ row => WellFormed row
  | _ => True

lemma Log.Inv.step {call : Call} (h : log.Inv env) (hc : call.Valid)
    (hstep : step env log call = some log') : log'.Inv env := by
  cases call with
  | txBegin =>
    cases hstep
    exact h.txBegin
  | writeRow fails result row =>
    obtain ⟨⟨rc, log₁⟩, hw, rfl⟩ := map_eq_some_iff.mp hstep
    exact h.writeRow hc hw
  | txCommit result =>
    cases hstep
    exact h.txCommit
  | txRollback =>
    cases hstep
    exact h.txRollback
  | flush result =>
    obtain ⟨⟨rc, log₁⟩, hf, rfl⟩ := map_eq_some_iff.mp hstep
    exact h.flush hf

lemma Log.inv_run {calls : List Call} (hca : ∀ call ∈ calls, call.Valid)
    (hr : Transition.run (Xlog.step env) {} calls = some log) : log.Inv env := by
  refine Transition.run_invariant_along (C := fun _ call => call.Valid)
    (fun hstep hc h => h.step hc hstep) hr
    (Transition.along_of_forall_mem fun call hc _ => hca call hc) ?_
  exact ⟨rfl, fun _ => ⟨rfl, rfl⟩, fun _ => rfl, rfl, rfl, by simp, by simp⟩

end

end TarantoolStorage.Xlog
