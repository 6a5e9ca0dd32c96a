import TarantoolStorage.Lib.Document
import TarantoolStorage.Xlog.Cursor

/-! What is read back from a log that was cut at any byte. -/
namespace TarantoolStorage.Xlog

open Checked MsgPack Xrow List Cursor Env

variable {env : Env} {cursor : Cursor} {rows rest loaded : Bytes} {magic len n fuel : Nat}
  {crc : UInt32} {blocks : List (List (List Header))}

lemma fixstr_hint : ∀ m < 32, mpParserHint (UInt8.ofNat (0xa0 ||| m)) = .payload m := by
  decide

lemma mpCheck_padding (hn : n ≤ 32) (hne : padding n ≠ []) : mpCheck (padding n) = some [] := by
  cases n with
  | zero => exact absurd rfl hne
  | succ n =>
    have hv : Values 1 (UInt8.ofNat (0xa0 ||| n) :: List.replicate n 0) :=
      Values.payload (by rw [length_replicate]; exact fixstr_hint n (by omega))
    have hc := hv.check []
    rwa [append_nil, ← padding_succ (by omega)] at hc

lemma lift_some_bind {α β : Type} (a : α) (f : α → Read β) :
    (ExceptT.lift (some a) >>= f) = f a := rfl

lemma fixheaderUint_encode {what : String} (hn : n < 2 ^ 64) (rest : Bytes) :
    fixheaderUint what (mpEncodeUint n ++ rest) = pure (n, rest) := by
  have hc := (Values.uint n).check rest
  have ht := headType_uint n rest
  simp only [fixheaderUint, hc, ht, mpDecodeUint_encode hn]
  rw [if_neg (by simp), lift_some_bind, assertThat_of rfl, lift_some_bind]

lemma fixheaderNumbers_encode (magic : Nat) (hl : len < 2 ^ 32) (hn : n ≤ 32) :
    fixheaderNumbers magic (mpEncodeUint len ++ (mpEncodeUint 0 ++
        (mpEncodeUint crc.toNat ++ padding n))) =
      if len > iprotoBodyLenMax then throw (.xlog "too large fixheader length")
      else pure ⟨magic, 0, crc.toNat, len⟩ := by
  have hp : ¬ (padding n ≠ [] ∧ mpCheck (padding n) ≠ some []) :=
    fun h => h.2 (mpCheck_padding hn h.1)
  have hc : crc.toNat < 2 ^ 32 := crc.toNat_lt
  simp only [fixheaderNumbers, fixheaderUint_encode (show len < 2 ^ 64 by omega),
    fixheaderUint_encode (show 0 < 2 ^ 64 by omega),
    fixheaderUint_encode (show crc.toNat < 2 ^ 64 by omega), pure_bind, Nat.mod_eq_of_lt hl,
    Nat.mod_eq_of_lt hc, if_neg hp]
  split
  · rfl
  · rfl

lemma fixheaderDecode_fixheader (hm : magic = rowMarker ∨ magic = zrowMarker)
    (hln : len < 2 ^ 32) (rest : Bytes) :
    fixheaderDecode (fixheader magic len crc ++ rest) =
      if len > iprotoBodyLenMax then throw (.xlog "too large fixheader length")
      else pure (.done (⟨magic, 0, crc.toNat, len⟩, rest)) := by
  have hs : ¬ (fixheader magic len crc ++ rest).length < xlogFixheaderSize := by
    rw [length_append, length_fixheader]
    omega
  have ht : (fixheader magic len crc ++ rest).take xlogFixheaderSize = fixheader magic len crc := by
    rw [← length_fixheader magic len crc, take_left]
  have hd : (fixheader magic len crc ++ rest).drop xlogFixheaderSize = rest := by
    rw [← length_fixheader magic len crc, drop_left]
  have hm' : magic < 256 ^ 4 := by
    rcases hm with rfl | rfl <;> decide
  have hl : loadBe 0 4 (fixheader magic len crc) = some (magic, mpEncodeUint len ++
      (mpEncodeUint 0 ++ (mpEncodeUint crc.toNat ++ padding (xlogFixheaderSize -
        (storeBe 4 magic ++ mpEncodeUint len ++ mpEncodeUint 0 ++
          mpEncodeUint crc.toNat).length)))) := by
    rw [fixheader, append_assoc, append_assoc, append_assoc, loadBe_storeBe_of_lt hm']
  have hk : ¬ (magic ≠ rowMarker ∧ magic ≠ zrowMarker) := by
    rintro ⟨hr, hz⟩
    exact hm.elim hr hz
  have hle := length_numbers magic len crc
  rw [fixheaderDecode, if_neg hs, ht, hd, hl, lift_some_bind]
  simp only [if_neg hk]
  rw [fixheaderNumbers_encode magic hln (by rw [xlogFixheaderSize]; omega)]
  split <;> rfl

/-- The buffer holds the contents of the block of these rows as they were checksummed. -/
def Env.Holds (env : Env) (rows : Bytes) : Prop := env.held (env.data rows) = env.data rows

/-- The block of these rows is small enough to be read, and written as it was checksummed. -/
def Env.Fits (env : Env) (rows : Bytes) : Prop :=
  (env.data rows).length ≤ iprotoBodyLenMax ∧ env.Holds rows

instance (env : Env) (rows : Bytes) : Decidable (env.Fits rows) :=
  inferInstanceAs (Decidable (_ ≤ _ ∧ _ = _))

lemma Env.magic_cases (env : Env) (rows : Bytes) :
    env.magic rows = rowMarker ∨ env.magic rows = zrowMarker := by
  unfold magic
  split
  · exact .inr rfl
  · exact .inl rfl

lemma openBlock_data (hzs : env.Lossless) (rows rest : Bytes) :
    env.openBlock ⟨env.magic rows, 0, (env.crc32 (env.data rows)).toNat, (env.data rows).length⟩
      (env.data rows ++ rest) = pure (rows, rest) := by
  simp only [openBlock, take_left, drop_left, ne_eq, not_true_eq_false, if_false]
  by_cases hz : env.compresses rows
  · have hm : env.magic rows ≠ rowMarker := by
      rw [magic, if_pos hz]
      decide
    have hd : env.data rows = env.compress rows := if_pos hz
    rw [if_neg hm, hd, hzs rows]
  · have hm : env.magic rows = rowMarker := if_neg hz
    have hd : env.data rows = rows := if_neg hz
    rw [if_pos hm, hd]

/-- A block is opened once it is loaded; before that, the bytes it lacks are asked for, first the
fixheader's. -/
lemma txCursorCreate_loaded (hz : env.Lossless) (hf : env.Fits rows) (rest : Bytes) :
    env.txCursorCreate (env.blockOf rows ++ rest) = pure (.done (rows, rest)) := by
  have hl : (env.data rows).length < 2 ^ 32 := hf.1.trans_lt (by decide)
  have hs : ¬ (env.data rows).length > iprotoBodyLenMax := Nat.not_lt.mpr hf.1
  rw [txCursorCreate, blockOf, block, hf.2, append_assoc,
    fixheaderDecode_fixheader (env.magic_cases rows) hl, if_neg hs, pure_bind]
  simp only [length_append, if_neg (Nat.not_lt.mpr (Nat.le_add_right _ _)),
    openBlock_data hz, pure_bind]

lemma txCursorCreate_body (hf : env.Fits rows)
    (hl : fixheader (env.magic rows) (env.data rows).length (env.crc32 (env.data rows)) <+:
      loaded) (hlt : loaded.length < (env.blockOf rows).length) :
    env.txCursorCreate loaded = pure (.more ((env.blockOf rows).length - loaded.length)) := by
  obtain ⟨rest, rfl⟩ := hl
  have hle : (env.data rows).length < 2 ^ 32 := hf.1.trans_lt (by decide)
  have hs : ¬ (env.data rows).length > iprotoBodyLenMax := Nat.not_lt.mpr hf.1
  rw [length_append, length_fixheader, length_blockOf] at hlt
  have hm : rest.length < (env.data rows).length := by omega
  rw [txCursorCreate, fixheaderDecode_fixheader (env.magic_cases rows) hle, if_neg hs, pure_bind]
  simp [if_pos hm, length_fixheader, length_blockOf, Nat.add_sub_add_left]

lemma txCursorCreate_header (env : Env) (hl : loaded.length < xlogFixheaderSize) :
    env.txCursorCreate loaded = pure (.more (xlogFixheaderSize - loaded.length)) := by
  rw [txCursorCreate, fixheaderDecode, if_pos hl, pure_bind]

/-- What loading does: nothing is lost, and there is enough if the file has it. -/
lemma ensure_spec (count : Nat) (cursor : Cursor) :
    ∃ cursor', cursor.ensure count = (decide (count ≤ cursor.remaining.length), cursor') ∧
      cursor'.remaining = cursor.remaining ∧ cursor'.state = cursor.state ∧
      cursor'.rows = cursor.rows ∧ cursor.rbuf.length ≤ cursor'.rbuf.length ∧
      (count ≤ cursor.remaining.length → count ≤ cursor'.rbuf.length) ∧
      cursor'.unread.length ≤ cursor.unread.length := by
  unfold ensure
  split
  · rename_i he
    have hle : count ≤ cursor.remaining.length := by
      rw [remaining, length_append]
      omega
    exact ⟨cursor, by rw [decide_eq_true hle], rfl, rfl, rfl, Nat.le_refl _, fun _ => he,
      Nat.le_refl _⟩
  · rename_i hl
    have hlo : (cursor.load (count - cursor.rbuf.length + xlogReadAhead)).rbuf.length =
        cursor.rbuf.length +
          min (count - cursor.rbuf.length + xlogReadAhead) cursor.unread.length := by
      rw [load, length_append, length_take]
    have hln : cursor.remaining.length = cursor.rbuf.length + cursor.unread.length := by
      rw [remaining, length_append]
    refine ⟨cursor.load (count - cursor.rbuf.length + xlogReadAhead), ?_, ?_, rfl, rfl, ?_, ?_, ?_⟩
    · simp only [Prod.mk.injEq, decide_eq_decide, and_true]
      omega
    · simp [remaining, load]
    · omega
    · intro hle
      omega
    · simp [load]

/-- Where a block is not loaded, the loop goes on with more of the file, or finds its end. -/
lemma openTx_more (fuel : Nat) {k : Nat} (hm : env.txCursorCreate cursor.rbuf = pure (.more k))
    (hp : 0 < k) :
    (cursor.rbuf.length + k ≤ cursor.remaining.length ∧ ∃ cursor' : Cursor,
      cursor.openTx env (fuel + 1) = cursor'.openTx env fuel ∧
      cursor'.remaining = cursor.remaining ∧ cursor'.unread.length < cursor.unread.length) ∨
    (cursor.remaining.length < cursor.rbuf.length + k ∧ ∃ cursor',
      cursor.openTx env (fuel + 1) = some (.eof, cursor')) := by
  obtain ⟨cursor', he, hr, -, -, -, hen, -⟩ := ensure_spec (cursor.rbuf.length + k) cursor
  have ho : cursor.openTx env (fuel + 1) =
      if decide (cursor.rbuf.length + k ≤ cursor.remaining.length) = true then
        cursor'.openTx env fuel
      else some (.eof, cursor') := by
    have hru : (env.txCursorCreate cursor.rbuf).run = some (.ok (.more k)) := by
      rw [hm]
      rfl
    simp [openTx, hru, he]
  by_cases hle : cursor.rbuf.length + k ≤ cursor.remaining.length
  · refine .inl ⟨hle, cursor', ?_, hr, ?_⟩
    · rw [ho, if_pos (decide_eq_true hle)]
    · have hln := congrArg List.length hr
      rw [remaining, remaining, length_append, length_append] at hln
      have hl := hen hle
      omega
  · refine .inr ⟨Nat.lt_of_not_le hle, cursor', ?_⟩
    rw [ho, if_neg (by simpa using hle)]

lemma openTx_done (h : env.txCursorCreate cursor.rbuf = pure (.done (rows, rest))) :
    cursor.openTx env (fuel + 1) =
      some (.ok (), { cursor with rbuf := rest, rows := rows, state := .tx }) := by
  rw [openTx, h]
  rfl

/-- While less than `n` bytes are loaded, some that lack are asked for: the loop goes on with all of
them, or finds the end of the file. -/
lemma openTx_loads {n : Nat} (hm : ∀ loaded, loaded <+: cursor.remaining → loaded.length < n →
      ∃ k > 0, loaded.length + k ≤ n ∧ env.txCursorCreate loaded = pure (.more k))
    (hf : cursor.unread.length < fuel) :
    (∃ (cursor' : Cursor) (fuel' : Nat), cursor.openTx env fuel = cursor'.openTx env (fuel' + 1) ∧
      cursor'.remaining = cursor.remaining ∧ n ≤ cursor'.rbuf.length) ∨
    (cursor.remaining.length < n ∧ ∃ cursor', cursor.openTx env fuel = some (.eof, cursor')) := by
  induction fuel generalizing cursor with
  | zero => omega
  | succ fuel ih =>
    by_cases hs : cursor.rbuf.length < n
    · obtain ⟨k, hk, hle, hmo⟩ := hm _ (prefix_append _ _) hs
      rcases openTx_more fuel hmo hk with ⟨-, cursor', ho, hr, hlt⟩ | ⟨hlt, he⟩
      · rw [ho, ← hr]
        exact ih (hr ▸ hm) (by omega)
      · exact .inr ⟨by omega, he⟩
    · exact .inl ⟨cursor, fuel, rfl, rfl, Nat.le_of_not_lt hs⟩

lemma fixheader_isPrefix_loaded {tail : Bytes} (hs : xlogFixheaderSize ≤ loaded.length)
    (h : loaded <+: env.blockOf rows ++ tail) :
    fixheader (env.magic rows) (env.data rows).length (env.crc32 (env.data rows)) <+: loaded := by
  refine prefix_of_prefix_length_le ?_ h (by rw [length_fixheader]; exact hs)
  rw [blockOf, block, append_assoc]
  exact prefix_append _ _

lemma txCursorCreate_short {tail : Bytes} (hf : env.Fits rows)
    (hp : loaded <+: env.blockOf rows ++ tail) (hl : loaded.length < (env.blockOf rows).length) :
    ∃ k > 0, loaded.length + k ≤ (env.blockOf rows).length ∧
      env.txCursorCreate loaded = pure (.more k) := by
  by_cases hs : loaded.length < xlogFixheaderSize
  · have hb := length_blockOf env rows
    exact ⟨_, by omega, by omega, txCursorCreate_header env hs⟩
  · exact ⟨_, by omega, by omega,
      txCursorCreate_body hf (fixheader_isPrefix_loaded (Nat.le_of_not_lt hs) hp) hl⟩

lemma openTx_block (hz : env.Lossless) (hf : env.Fits rows)
    (h : cursor.remaining = env.blockOf rows ++ rest) (hfu : cursor.unread.length < fuel) :
    ∃ cursor', cursor.openTx env fuel = some (.ok (), cursor') ∧ cursor'.remaining = rest ∧
      cursor'.rows = rows ∧ cursor'.state = .tx := by
  rcases openTx_loads (fun _ hp => txCursorCreate_short hf (h ▸ hp)) hfu with
    ⟨cursor', fuel', ho, hr, hlo⟩ | ⟨hlt, -⟩
  · rw [h] at hr
    have hp : cursor'.rbuf <+: env.blockOf rows ++ rest := hr ▸ prefix_append _ _
    obtain ⟨more, hm⟩ := prefix_of_prefix_length_le (prefix_append _ _) hp hlo
    have hc := txCursorCreate_loaded hz hf more
    rw [hm] at hc
    refine ⟨_, ho.trans (openTx_done hc), ?_, rfl, rfl⟩
    rw [remaining, ← hm, append_assoc] at hr
    exact append_cancel_left hr
  · rw [h, length_append] at hlt
    omega

/-- A block that was cut is not opened, and no error is reported. -/
lemma openTx_cut (hf : env.Fits rows) (h : cursor.remaining <+: env.blockOf rows)
    (hc : cursor.remaining.length < (env.blockOf rows).length)
    (hfu : cursor.unread.length < fuel) :
    ∃ cursor', cursor.openTx env fuel = some (.eof, cursor') := by
  have hp : cursor.remaining <+: env.blockOf rows ++ [] := by rwa [append_nil]
  rcases openTx_loads (fun _ hl => txCursorCreate_short hf (hl.trans hp)) hfu with
    ⟨cursor', fuel', -, hr, hlo⟩ | ⟨-, he⟩
  · rw [← hr, remaining, length_append] at hc
    omega
  · exact he

lemma openTx_oversized (hla : iprotoBodyLenMax < (env.data rows).length)
    (hln : (env.data rows).length < 2 ^ 32) (h : cursor.remaining = env.blockOf rows ++ rest)
    (hf : cursor.unread.length < fuel) :
    ∃ cursor', cursor.openTx env fuel =
      some (.error (.xlog "too large fixheader length"), cursor') := by
  have hb := length_blockOf env rows
  rcases openTx_loads (fun _ _ hs => ⟨_, by omega, by omega, txCursorCreate_header env hs⟩) hf with
    ⟨cursor', fuel', ho, hr, hlo⟩ | ⟨hlt, -⟩
  · rw [h] at hr
    have hp : cursor'.rbuf <+: env.blockOf rows ++ rest := hr ▸ prefix_append _ _
    obtain ⟨more, hm⟩ := fixheader_isPrefix_loaded hlo hp
    have hc : env.txCursorCreate cursor'.rbuf = throw (.xlog "too large fixheader length") := by
      rw [txCursorCreate, ← hm, fixheaderDecode_fixheader (env.magic_cases rows) hln, if_pos hla]
      rfl
    refine ⟨cursor', ho.trans ?_⟩
    rw [openTx, hc]
    rfl
  · rw [h, length_append] at hlt
    omega

lemma magic_ne_eof {tail : Bytes} (hsi : 4 ≤ loaded.length)
    (h : loaded <+: env.blockOf rows ++ tail) :
    ((loadBe 0 4 loaded).any fun p => decide (p.1 = eofMarker)) = false := by
  have hs : storeBe 4 (env.magic rows) <+: loaded := by
    refine prefix_of_prefix_length_le ?_ h (by rw [length_storeBe]; exact hsi)
    rw [blockOf, block, fixheader]
    simp only [append_assoc]
    exact prefix_append _ _
  obtain ⟨more, rfl⟩ := hs
  rcases env.magic_cases rows with hm | hm <;>
    · rw [hm, loadBe_storeBe_of_lt (by decide), Option.any_some]
      rfl

lemma nextTx_open (tail : Bytes) (h : cursor.remaining <+: env.blockOf rows ++ tail)
    (hs : 4 ≤ cursor.remaining.length) :
    ∃ cursor' : Cursor, cursor.nextTx env = cursor'.openTx env (cursor'.unread.length + 1) ∧
      cursor'.remaining = cursor.remaining := by
  obtain ⟨cursor', he, hr, -, -, -, hen, -⟩ := ensure_spec 4 cursor
  have hl : cursor'.rbuf <+: env.blockOf rows ++ tail := by
    refine (prefix_append _ cursor'.unread).trans ?_
    rw [← remaining, hr]
    exact h
  refine ⟨cursor', ?_, hr⟩
  simp [nextTx, he, decide_eq_true hs, magic_ne_eof (hen hs) hl]

lemma nextTx_block (hz : env.Lossless) (hf : env.Fits rows)
    (h : cursor.remaining = env.blockOf rows ++ rest) :
    ∃ cursor', cursor.nextTx env = some (.ok (), cursor') ∧ cursor'.remaining = rest ∧
      cursor'.rows = rows ∧ cursor'.state = .tx := by
  obtain ⟨cursor₁, hn, hs⟩ := nextTx_open rest (by rw [h]) (by
    rw [h, length_append, length_blockOf, xlogFixheaderSize]
    omega)
  rw [hn]
  exact openTx_block hz hf (hs.trans h) (Nat.lt_succ_self _)

lemma nextTx_oversized (hl : iprotoBodyLenMax < (env.data rows).length)
    (hle : (env.data rows).length < 2 ^ 32) (h : cursor.remaining = env.blockOf rows ++ rest) :
    ∃ cursor', cursor.nextTx env = some (.error (.xlog "too large fixheader length"), cursor') := by
  obtain ⟨cursor₁, hn, hs⟩ := nextTx_open rest (by rw [h]) (by
    rw [h, length_append, length_blockOf, xlogFixheaderSize]
    omega)
  rw [hn]
  exact openTx_oversized hl hle (hs.trans h) (Nat.lt_succ_self _)

/-- At the end of a log that was cut there is less than a block. -/
def Cut (env : Env) (tail : Bytes) : Prop :=
  tail = [] ∨ ∃ rows, env.Fits rows ∧ tail <+: env.blockOf rows ∧
    tail.length < (env.blockOf rows).length

lemma nextTx_cut (h : Cut env cursor.remaining) :
    ∃ cursor', cursor.nextTx env = some (.eof, cursor') := by
  by_cases hs : 4 ≤ cursor.remaining.length
  · rcases h with hni | ⟨rows, hf, hl, hshort⟩
    · rw [hni] at hs
      cases hs
    · obtain ⟨cursor₁, hn, hsa⟩ := nextTx_open [] (by rw [append_nil]; exact hl) hs
      rw [hn]
      exact openTx_cut hf (hsa ▸ hl) (hsa ▸ hshort) (Nat.lt_succ_self _)
  · obtain ⟨cursor', he, -⟩ := ensure_spec 4 cursor
    refine ⟨cursor', ?_⟩
    simp [nextTx, he, decide_eq_false hs]

/-- The cursor is about to return these rows of the block that is open, before it goes on with
what remains. -/
structure Cursor.At (cursor : Cursor) (rows : List Header) (rest : Bytes) : Prop where
  remaining_eq : cursor.remaining = rest
  rows_eq : cursor.state = .tx ∧ cursor.rows = rowsBytes rows ∨ cursor.state ≠ .tx ∧ rows = []

section

variable {force : Bool} {row : Header} {more : List Header} {tail : Bytes}

lemma nextRow_row (h : cursor.At (row :: more) tail) (hrw : WellFormed row) :
    ∃ cursor', cursor.nextRow = some (.ok (row.readBack 0), cursor') ∧ cursor'.At more tail := by
  obtain ⟨hr, ⟨hs, hro⟩ | ⟨-, hn⟩⟩ := h
  · have hb : cursor.rows = row.head 0 ++ (row.body.flatten ++ rowsBytes more) := by
      rw [hro, rowsBytes, flatMap_cons, rowBytes, append_assoc]
      rfl
    have hbo : row.body.flatten = [] ∧ (rowsBytes more = [] ∨ row.type = iprotoNop) ∨
        row.type ≠ iprotoNop ∧ mpCheck row.body.flatten = some [] :=
      hrw.body.imp_left fun hn => ⟨hn.1, .inr hn.2⟩
    have hd := headerDecode_append false hbo (by simp) 0
    have hne : cursor.rows ≠ [] := by
      rw [hb]
      intro hn
      rw [hn] at hd
      cases hd
    have hru : (headerDecode cursor.rows false).run =
        some (.ok (row.readBack 0, rowsBytes more)) := by
      rw [hb, hd]
      rfl
    refine ⟨{ cursor with rows := rowsBytes more }, ?_, hr, .inl ⟨hs, rfl⟩⟩
    rw [nextRow, if_neg (by simp [hs]), if_neg hne]
    simp [hru]
  · cases hn

lemma nextRow_end (h : cursor.At [] tail) :
    ∃ cursor', cursor.nextRow = some (.eof, cursor') ∧ cursor'.At [] tail := by
  obtain ⟨hr, hro⟩ := h
  by_cases hs : cursor.state = .tx
  · have hro : cursor.rows = [] := by
      rcases hro with ⟨-, hro⟩ | ⟨hn, -⟩
      · exact hro
      · exact absurd hs hn
    refine ⟨{ cursor with state := .active }, ?_, hr, .inr ⟨by simp, rfl⟩⟩
    rw [nextRow, if_neg (by simp [hs]), if_pos hro]
  · refine ⟨cursor, ?_, hr, .inr ⟨hs, rfl⟩⟩
    rw [nextRow, if_pos hs]

lemma next_row (env : Env) (force : Bool) (h : cursor.At (row :: more) tail) (hr : WellFormed row) :
    ∃ cursor', cursor.next env force = some (.ok (row.readBack 0), cursor') ∧
      cursor'.At more tail := by
  obtain ⟨cursor', hn, ha⟩ := nextRow_row h hr
  refine ⟨cursor', ?_, ha⟩
  simp [Cursor.next, nextLoop, nextGoodRow, hn]

lemma next_block (force : Bool) (hz : env.Lossless) (hf : env.Fits (rowsBytes (row :: more)))
    (hrw : WellFormed row)
    (h : cursor.At [] (env.blockOf (rowsBytes (row :: more)) ++ tail)) :
    ∃ cursor', cursor.next env force = some (.ok (row.readBack 0), cursor') ∧
      cursor'.At more tail := by
  obtain ⟨cursor₁, hu, ha⟩ := nextRow_end h
  obtain ⟨cursor₂, ht, hr, hro, hs⟩ := nextTx_block hz hf ha.remaining_eq
  have ha₂ : cursor₂.At (row :: more) tail := ⟨hr, .inl ⟨hs, hro⟩⟩
  obtain ⟨cursor₃, hn, ha₃⟩ := nextRow_row ha₂ hrw
  refine ⟨cursor₃, ?_, ha₃⟩
  simp [Cursor.next, nextLoop, nextGoodRow, hu, nextGoodTx, ht, hn]

lemma next_cut (h : cursor.At [] tail) (hc : Cut env tail) :
    ∃ cursor', cursor.next env force = some (.eof, cursor') := by
  obtain ⟨cursor₁, hu, ha⟩ := nextRow_end h
  rw [← ha.remaining_eq] at hc
  obtain ⟨cursor₂, ht⟩ := nextTx_cut hc
  refine ⟨cursor₂, ?_⟩
  simp [Cursor.next, nextLoop, nextGoodRow, hu, nextGoodTx, ht]

lemma next_oversized {bytes : Bytes} (hl : iprotoBodyLenMax < (env.data bytes).length)
    (hle : (env.data bytes).length < 2 ^ 32) (h : cursor.At [] (env.blockOf bytes ++ tail)) :
    ∃ cursor', cursor.next env false =
      some (.error (.xlog "too large fixheader length"), cursor') := by
  obtain ⟨cursor₁, hu, ha⟩ := nextRow_end h
  obtain ⟨cursor₂, ht⟩ := nextTx_oversized hl hle ha.remaining_eq
  refine ⟨cursor₂, ?_⟩
  simp [Cursor.next, nextLoop, nextGoodRow, hu, nextGoodTx, ht, ReadError.skipped]

/-- The blocks before what remains are read to the end, row by row. -/
lemma readAll_blocks {blocks : List (List (List Header))} (rows : List Header) {rc : Rc Header}
    {calls : Nat} (hz : env.Lossless)
    (hf : ∀ txs ∈ blocks, env.Fits (rowsBytes txs.flatten))
    (hb : ∀ txs ∈ blocks, txs.flatten ≠ [] ∧ ∀ row ∈ txs.flatten, WellFormed row)
    (hr : ∀ row ∈ rows, WellFormed row)
    (he : ∀ cursor : Cursor, cursor.At [] tail → ∃ cursor', cursor.next env force =
      some (rc, cursor')) (hrc : ∀ row, rc ≠ .ok row)
    (h : cursor.At rows (blocks.flatMap env.encode ++ tail))
    (hc : (rows ++ blocks.flatten.flatten).length < calls) :
    cursor.readAll env force calls =
      some ((rows ++ blocks.flatten.flatten).map (Header.readBack · 0), some rc) := by
  induction calls generalizing cursor rows blocks with
  | zero => cases hc
  | succ calls ih =>
    cases rows with
    | cons row rows =>
      obtain ⟨hro, hr⟩ := forall_mem_cons.mp hr
      obtain ⟨cursor', hn, ha⟩ := next_row env force h hro
      have hre := ih rows hf hb hr ha (Nat.lt_of_succ_lt_succ hc)
      simp [readAll, hn, hre]
    | nil =>
      cases blocks with
      | nil =>
        obtain ⟨cursor', hn⟩ := he cursor h
        rw [readAll, hn]
        cases rc with
        | ok row => exact absurd rfl (hrc row)
        | eof => rfl
        | error e => rfl
      | cons txs blocks =>
        obtain ⟨hfi, hf⟩ := forall_mem_cons.mp hf
        obtain ⟨⟨hne, hw⟩, hb⟩ := forall_mem_cons.mp hb
        obtain ⟨row, rows, ht⟩ := exists_cons_of_ne_nil hne
        rw [flatMap_cons, append_assoc, encode, ht] at h
        rw [ht] at hfi hw
        obtain ⟨hro, hr⟩ := forall_mem_cons.mp hw
        obtain ⟨cursor', hn, ha⟩ := next_block force hz hfi hro h
        rw [flatten_cons, flatten_append, ht, nil_append, cons_append] at hc ⊢
        have hre := ih rows hf hb hr ha (Nat.lt_of_succ_lt_succ hc)
        simp [readAll, hn, hre]

end

/-- The blocks that lie completely within the first `n` bytes. -/
def Env.before (env : Env) : Nat → List (List (List Header)) → List (List (List Header))
  | _, [] => []
  | n, txs :: blocks =>
    if (env.encode txs).length ≤ n then txs :: env.before (n - (env.encode txs).length) blocks
    else []

lemma before_subset {txs : List (List Header)} (h : txs ∈ env.before n blocks) : txs ∈ blocks := by
  induction blocks generalizing n with
  | nil => cases h
  | cons first blocks ih =>
    rw [before] at h
    split at h
    · rcases mem_cons.mp h with rfl | h
      · exact mem_cons_self
      · exact mem_cons_of_mem _ (ih h)
    · cases h

/-- A log that is cut is the blocks before the cut and less than a block. -/
lemma take_blocks (hf : ∀ txs ∈ blocks, env.Fits (rowsBytes txs.flatten)) (n : Nat) :
    ∃ tail, (blocks.flatMap env.encode).take n = (env.before n blocks).flatMap env.encode ++ tail ∧
      Cut env tail := by
  induction blocks generalizing n with
  | nil => exact ⟨[], by simp [before], .inl rfl⟩
  | cons txs blocks ih =>
    obtain ⟨hfi, hf⟩ := forall_mem_cons.mp hf
    rw [flatMap_cons, before]
    split
    · rename_i hle
      obtain ⟨tail, ht, hc⟩ := ih hf (n - (env.encode txs).length)
      refine ⟨tail, ?_, hc⟩
      rw [take_append, take_of_length_le hle, ht, flatMap_cons, append_assoc]
    · rename_i hl
      refine ⟨(env.encode txs).take n, ?_, .inr ⟨_, hfi, take_prefix _ _, ?_⟩⟩
      · rw [take_append_of_le_length (Nat.le_of_not_le hl), flatMap_nil, nil_append]
      · rw [length_take]
        exact (Nat.min_le_left _ _).trans_lt (Nat.lt_of_not_le hl)

/-- From a log that is cut at any byte, exactly the rows of the blocks before the cut are read,
in order, and no error is reported. -/
def ReadsBack (env : Env) (log : Log) : Prop :=
  ∀ (force : Bool) (n : Nat) (cursor : Cursor), cursor.state = .active →
    cursor.remaining = log.file.take n →
    ∀ calls > (env.before n log.blocks).flatten.flatten.length,
      ∃ rows, cursor.readAll env force calls = some (rows, some .eof) ∧
        List.Forall₂ (fun row row' => row.single.Agrees row' 0)
          (env.before n log.blocks).flatten.flatten rows

section

variable {log : Log}

lemma agrees_map (rows : List Header) : List.Forall₂ (fun row row' => row.single.Agrees row' 0) rows
      (rows.map (Header.readBack · 0)) := by
  induction rows with
  | nil => exact Forall₂.nil
  | cons row rows ih => exact Forall₂.cons (single_agrees_readBack row) ih

lemma readsBack_of_fits (hz : env.Lossless) (h : log.Inv env)
    (hf : ∀ txs ∈ log.blocks, env.Fits (rowsBytes txs.flatten)) : ReadsBack env log := by
  intro force n cursor hs hr calls hc
  obtain ⟨tail, ht, hcu⟩ := take_blocks hf n
  rw [h.file_eq, ht] at hr
  refine ⟨_, ?_, agrees_map _⟩
  exact readAll_blocks [] hz (fun txs htx => hf txs (before_subset htx))
    (fun txs htx => h.stored txs (before_subset htx)) (by simp)
    (fun cursor ha => next_cut ha hcu) (by simp)
    ⟨hr, .inr ⟨by simp [hs], rfl⟩⟩ hc

/-- A block that is too large can not be read, though it was written. -/
lemma not_readsBack_of_oversized (hz : env.Lossless) (h : log.Inv env)
    (hw : ∀ txs ∈ log.blocks, (env.data (rowsBytes txs.flatten)).length < 2 ^ 32)
    (good : List (List (List Header))) {more : List (List (List Header))} {txs : List (List Header)}
    (hb : log.blocks = good ++ txs :: more)
    (hg : ∀ txs ∈ good, env.Fits (rowsBytes txs.flatten))
    (hl : iprotoBodyLenMax < (env.data (rowsBytes txs.flatten)).length) :
    ¬ ReadsBack env log := by
  intro hre
  have hf : log.file = good.flatMap env.encode ++
      (env.blockOf (rowsBytes txs.flatten) ++ more.flatMap env.encode) := by
    rw [h.file_eq, hb, flatMap_append, flatMap_cons, encode]
  have hs : ∀ txs ∈ good, txs.flatten ≠ [] ∧ ∀ row ∈ txs.flatten, WellFormed row :=
    fun txs ht => h.stored txs (by rw [hb]; exact mem_append_left _ ht)
  obtain ⟨rows, hr, -⟩ := hre false log.file.length ⟨[], log.file, .active, []⟩ rfl
    (by simp [remaining])
    ((env.before log.file.length log.blocks).flatten.flatten.length +
      good.flatten.flatten.length + 1) (by omega)
  have hst : (⟨[], log.file, .active, []⟩ : Cursor).At [] (good.flatMap env.encode ++
      (env.blockOf (rowsBytes txs.flatten) ++ more.flatMap env.encode)) :=
    ⟨hf, .inr ⟨by simp, rfl⟩⟩
  rw [readAll_blocks [] hz hg hs (by simp) (fun cursor ha =>
    next_oversized hl (hw txs (by rw [hb]; simp)) ha) (by simp)
    hst (by rw [nil_append]; omega)] at hr
  cases hr

/-- A log whose buffers held what was put in them, cut anywhere, reads back as the rows before the
cut if and only if no block is longer than the reader allows. -/
theorem reads_back_iff {calls : List Call} (hzstd : env.Lossless)
    (hcalls : ∀ call ∈ calls, call.Valid)
    (hrun : Transition.run (step env) {} calls = some log)
    (hobuf : ∀ txs ∈ log.blocks, env.Holds (rowsBytes txs.flatten))
    (hword : ∀ txs ∈ log.blocks, (env.data (rowsBytes txs.flatten)).length < 2 ^ 32) :
    ReadsBack env log ↔
      ∀ txs ∈ log.blocks, (env.data (rowsBytes txs.flatten)).length ≤ iprotoBodyLenMax := by
  have hi := Log.inv_run hcalls hrun
  constructor
  · intro hr
    by_contra hnot
    have hf : (log.blocks.find? fun txs => !decide (env.Fits (rowsBytes txs.flatten))).isSome := by
      rw [find?_isSome]
      push Not at hnot
      obtain ⟨txs, ht, hl⟩ := hnot
      have hl : ¬ env.Fits (rowsBytes txs.flatten) := fun hf => Nat.not_le.mpr hl hf.1
      exact ⟨txs, ht, by simpa using hl⟩
    obtain ⟨txs, hf⟩ := Option.isSome_iff_exists.mp hf
    obtain ⟨hl, good, more, hb, hg⟩ := find?_eq_some_iff_append.mp hf
    have hho := hobuf txs (by rw [hb]; simp)
    have hl : ¬ env.Fits (rowsBytes txs.flatten) := by simpa using hl
    exact not_readsBack_of_oversized hzstd hi hword _ hb
      (fun txs ht => by simpa using hg txs ht) (Nat.lt_of_not_le fun hle => hl ⟨hle, hho⟩) hr
  · exact fun hf => readsBack_of_fits hzstd hi fun txs ht => ⟨hf txs ht, hobuf txs ht⟩

def plainEnv : Env := ⟨fun _ => 0, id, some, true, id, fun _ => rfl⟩

def smallRow : Header :=
  { Header.zero with type := 2, replicaId := 1, lsn := 5, tsn := 5, flags := 1, body := [[0x80]] }

/-- A transaction, a write that fails and another transaction. -/
def smallCalls : List Call :=
  [.txBegin, .writeRow false .written smallRow, .txCommit .written, .flush .written,
    .writeRow false .written smallRow, .flush (.failed [0xd5, 0xba]),
    .writeRow false .written smallRow, .flush .written]

def smallLog : Log where
  file := plainEnv.encode [[smallRow]] ++ plainEnv.encode [[smallRow]]
  offset := 54
  blocks := [[[smallRow]], [[smallRow]]]

lemma smallCalls_run : Transition.run (step plainEnv) {} smallCalls = some smallLog := by
  rfl

lemma smallRow_wellFormed : WellFormed smallRow :=
  ⟨by decide, .inl rfl, by decide, .inr ⟨by decide, by decide⟩⟩

theorem small_log_reads_back : ReadsBack plainEnv smallLog ↔ ∀ txs ∈ smallLog.blocks,
      (plainEnv.data (rowsBytes txs.flatten)).length ≤ iprotoBodyLenMax :=
  reads_back_iff (fun _ => rfl)
    (by simp [smallCalls, Call.Valid, smallRow_wellFormed]) smallCalls_run (fun _ _ => rfl)
    (by decide)

def longRow (size : Nat) : Header :=
  { smallRow with body := [0xc6 :: storeBe 4 size, List.replicate size 0] }

lemma body_longRow (size : Nat) :
    (longRow size).body.flatten = 0xc6 :: (storeBe 4 size ++ List.replicate size 0) := by
  simp [longRow]

lemma longRow_wellFormed {size : Nat} (h : size < 2 ^ 32) : WellFormed (longRow size) := by
  refine ⟨smallRow_wellFormed.replica, .inl rfl, Nat.le_refl 2,
    .inr ⟨by simp [longRow, smallRow, iprotoNop], ?_⟩⟩
  have hl := loadBe_storeBe_of_lt (k := 4) (n := size) (by omega) (List.replicate size 0)
  have hs : skipBytes size (List.replicate size (0 : UInt8)) = some [] := by
    rw [skipBytes, if_pos (by rw [length_replicate]), drop_of_length_le (by rw [length_replicate])]
  rw [body_longRow]
  have hint : mpParserHint 0xc6 = .lengthPrefixed 4 0 := by decide
  exact mpNext_of_skipHead (skipHead_lengthPrefixed hint hl hs)

lemma length_longRow (size : Nat) : (rowBytes (longRow size)).length = size + 12 := by
  have hh : (longRow size).head 0 = smallRow.head 0 := rfl
  have hs : (smallRow.head 0).length = 7 := by decide
  rw [rowBytes, length_append, hh, hs, body_longRow, length_cons, length_append,
    length_storeBe, length_replicate]
  omega

/-- A row that is long enough is written at once, as a block of its own. -/
lemma run_longRow (size : Nat) (hl : xlogTxAutocommitThreshold ≤ size) (hlt : size < 2 ^ 32) :
    ∃ log, Transition.run (step plainEnv) {} [.writeRow false .written (longRow size)] =
      some log ∧ log.blocks = [[[longRow size]]] := by
  have hwf := longRow_wellFormed hlt
  have he := headerEncode_eq hwf.replica hwf.group hwf.iov 0
  have hle := length_longRow size
  have hs : ({ obuf := some (rowBytes (longRow size)), pending := [[longRow size]] } :
      Log).obufSize = xlogFixheaderSize + (size + 12) := by
    simp [Log.obufSize, hle]
  have hw : ({} : Log).writeRow plainEnv false .written (longRow size) =
      some (({ obuf := some (rowBytes (longRow size)), pending := [[longRow size]] } :
        Log).autocommit plainEnv .written (rowBytes (longRow size)).length) := by
    rw [Log.writeRow, if_neg (by decide), he, Option.map_some, flatten_cons, ← rowBytes]
    rfl
  rw [Transition.run_cons, step, hw, Log.autocommit, if_pos ⟨rfl, by rw [hs]; omega⟩,
    Log.txWrite, if_neg (by rw [hs]; omega)]
  exact ⟨_, rfl, rfl⟩

/-- A row of 2 GiB is written as a block that is longer than the reader allows. -/
theorem huge_row_not_read_back :
    ∃ log, Transition.run (step plainEnv) {} [.writeRow false .written (longRow (2 ^ 31))] =
      some log ∧ ¬ ReadsBack plainEnv log := by
  obtain ⟨log, hru, hb⟩ := run_longRow (2 ^ 31) (by decide) (by decide)
  have hi := Log.inv_run (by simp [Call.Valid, longRow_wellFormed]) hru
  have hd : (plainEnv.data (rowsBytes [[longRow (2 ^ 31)]].flatten)).length = 2 ^ 31 + 12 := by
    have hr : rowsBytes [[longRow (2 ^ 31)]].flatten = rowBytes (longRow (2 ^ 31)) := by
      rw [rowsBytes, flatten_singleton, flatMap_singleton]
    rw [hr, data, if_neg (by simp [compresses, plainEnv]), length_longRow]
  refine ⟨log, hru, not_readsBack_of_oversized (fun _ => rfl) hi ?_ [] hb (by simp) ?_⟩
  · rw [hb]
    simp only [mem_singleton, forall_eq]
    rw [hd]
    decide
  · rw [hd]
    decide

end

end TarantoolStorage.Xlog
