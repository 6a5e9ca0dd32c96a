import TarantoolStorage.Lib.MsgPack
import TarantoolStorage.Vclock

/-!
The header of a row (`xrow.c`). Zeros are not written, and the id of the transaction is written as
the distance from the LSN.
-/
namespace TarantoolStorage.Xrow

open Checked MsgPack List

def iprotoRequestType : Nat := 0x00
def iprotoSync : Nat := 0x01
def iprotoReplicaId : Nat := 0x02
def iprotoLsn : Nat := 0x03
def iprotoTimestamp : Nat := 0x04
def iprotoSchemaVersion : Nat := 0x05
def iprotoGroupId : Nat := 0x07
def iprotoTsn : Nat := 0x08
def iprotoFlags : Nat := 0x09
def iprotoKeyMax : Nat := 0x54
def iprotoNop : UInt16 := 12
def iprotoFlagCommit : UInt8 := 0x01
def iprotoFlagWaitSync : UInt8 := 0x02
def iprotoFlagWaitAck : UInt8 := 0x04
def xrowHeaderLenMax : Nat := 52
def xrowIovmax : Nat := 3

def packetHeader : String := "packet header"
def packetBody : String := "packet body"

def iprotoKeyType (key : Nat) : MpType :=
  if key = 0x04 then .double
  else if key ∈ [0x20, 0x21, 0x28, 0x30, 0x32, 0x33, 0x41, 0x51] then .array
  else if key ∈ [0x22, 0x23, 0x24, 0x25, 0x27, 0x31, 0x40] then .str
  else if key ∈ [0x26, 0x29, 0x2a, 0x2b, 0x42, 0x52] then .map
  else if key = 0x50 then .bool
  else .uint

/-- `xrow_header`. The timestamp is the bits of a floating point number. Signed numbers wrap
around, as they are compiled. -/
structure Header where
  type : UInt16
  replicaId : UInt32
  groupId : UInt32
  sync : UInt64
  lsn : Int64
  tm : UInt64
  tsn : Int64
  flags : UInt8
  schemaVersion : UInt32
  body : List Bytes
  deriving DecidableEq, Repr

def Header.zero : Header := ⟨0, 0, 0, 0, 0, 0, 0, 0, 0, []⟩

def Header.isCommit (header : Header) : Bool := header.flags &&& iprotoFlagCommit ≠ 0
def Header.waitSync (header : Header) : Bool := header.flags &&& iprotoFlagWaitSync ≠ 0
def Header.waitAck (header : Header) : Bool := header.flags &&& iprotoFlagWaitAck ≠ 0

/-- Both zeros are zero. -/
def isZero (tm : UInt64) : Prop := tm &&& 0x7fffffffffffffff = 0

instance (tm : UInt64) : Decidable (isZero tm) := inferInstanceAs (Decidable (_ = _))

/-- The id of the transaction is written, unless the row is the whole transaction. -/
def Header.writesTsn (header : Header) : Prop :=
  header.tsn ≠ 0 ∧ (header.tsn ≠ header.lsn ∨ header.isCommit = false)

instance (header : Header) : Decidable header.writesTsn := inferInstanceAs (Decidable (_ ∧ _))

def Header.flagsToEncode (header : Header) : UInt8 :=
  let flags := header.flags &&& ~~~iprotoFlagCommit
  if header.tsn ≠ 0 ∧ header.isCommit = true ∧ header.tsn ≠ header.lsn then
    flags ||| iprotoFlagCommit
  else flags

/-- The keys of the map with the bytes of their values, in the order in which they are
written. -/
def Header.fields (header : Header) (sync : UInt64) : List (Nat × Bytes) :=
  [(iprotoRequestType, mpEncodeUint header.type.toNat)] ++
  (if sync ≠ 0 then [(iprotoSync, mpEncodeUint sync.toNat)] else []) ++
  (if header.replicaId ≠ 0 then [(iprotoReplicaId, mpEncodeUint header.replicaId.toNat)]
    else []) ++
  (if header.groupId ≠ 0 then [(iprotoGroupId, mpEncodeUint header.groupId.toNat)] else []) ++
  (if header.lsn ≠ 0 then [(iprotoLsn, mpEncodeUint header.lsn.toUInt64.toNat)] else []) ++
  (if ¬ isZero header.tm then [(iprotoTimestamp, mpEncodeDouble header.tm.toNat)] else []) ++
  (if header.writesTsn then
    [(iprotoTsn, mpEncodeUint (header.lsn - header.tsn).toUInt64.toNat)] else []) ++
  (if header.flagsToEncode ≠ 0 then [(iprotoFlags, mpEncodeUint header.flagsToEncode.toNat)]
    else [])

def encodeField (field : Nat × Bytes) : Bytes := mpEncodeUint field.1 ++ field.2

/-- `xrow_header_encode`: the header and the body. One byte is reserved for the size of the
map. -/
def headerEncode (header : Header) (sync : UInt64) : Option (List Bytes) := do
  let fields := header.fields sync
  let head := mpEncodeMap fields.length ++ fields.flatMap encodeField
  assertThat (head.length ≤ xrowHeaderLenMax)
  assertThat (1 + header.body.length ≤ xrowIovmax)
  return head :: header.body

/-- The header that is being read, and whether the key of the transaction's id has come. -/
structure Partial where
  header : Header
  hasTsn : Bool

def decodeValue (p : Partial) (key : Nat) (pos : Bytes) : Decode (Partial × Bytes) :=
  let h := p.header
  if key = iprotoRequestType then do
    let (n, pos) ← ExceptT.lift (mpDecodeUint pos)
    return ({ p with header := { h with type := UInt16.ofNat n } }, pos)
  else if key = iprotoSync then do
    let (n, pos) ← ExceptT.lift (mpDecodeUint pos)
    return ({ p with header := { h with sync := UInt64.ofNat n } }, pos)
  else if key = iprotoReplicaId then do
    let (n, pos) ← ExceptT.lift (mpDecodeUint pos)
    return ({ p with header := { h with replicaId := UInt32.ofNat n } }, pos)
  else if key = iprotoGroupId then do
    let (n, pos) ← ExceptT.lift (mpDecodeUint pos)
    return ({ p with header := { h with groupId := UInt32.ofNat n } }, pos)
  else if key = iprotoLsn then do
    let (n, pos) ← ExceptT.lift (mpDecodeUint pos)
    return ({ p with header := { h with lsn := (UInt64.ofNat n).toInt64 } }, pos)
  else if key = iprotoTimestamp then do
    let (n, pos) ← ExceptT.lift (mpDecodeDouble pos)
    return ({ p with header := { h with tm := UInt64.ofNat n } }, pos)
  else if key = iprotoSchemaVersion then do
    let (n, pos) ← ExceptT.lift (mpDecodeUint pos)
    return ({ p with header := { h with schemaVersion := UInt32.ofNat n } }, pos)
  else if key = iprotoTsn then do
    let (n, pos) ← ExceptT.lift (mpDecodeUint pos)
    return ({ header := { h with tsn := (UInt64.ofNat n).toInt64 }, hasTsn := true }, pos)
  else if key = iprotoFlags then do
    let (n, pos) ← ExceptT.lift (mpDecodeUint pos)
    return ({ p with header := { h with flags := UInt8.ofNat n } }, pos)
  else do
    let pos ← ExceptT.lift (mpNext pos)
    return (p, pos)

/-- The loop of `xrow_header_decode` over the pairs still to be read. -/
def decodeFields : Nat → Partial → Bytes → Decode (Partial × Bytes)
  | 0, p, pos => return (p, pos)
  | size + 1, p, pos => do
    let (key, pos) ← decodeUint packetHeader pos
    match headType pos with
    | none => ExceptT.mk none
    | some type =>
      if key ≥ iprotoKeyMax ∨ iprotoKeyType key ≠ type then throw packetHeader
      else
        let (p, pos) ← decodeValue p key pos
        decodeFields size p pos

/-- What follows the loop over the map: a row without the id of a transaction is a whole
transaction, and a row that is no NOP may have a body. -/
def finishHeader (p : Partial) (pos : Bytes) (endIsExact : Bool) : Decode (Header × Bytes) := do
  let h := p.header
  let h := if p.hasTsn = true then h else { h with flags := h.flags ||| iprotoFlagCommit }
  let h := { h with tsn := h.lsn - h.tsn }
  let (h, rest) ← (
    if pos ≠ [] ∧ h.type ≠ iprotoNop then
      match mpCheck pos with
      | none => throw packetBody
      | some rest => pure ({ h with body := [pos.take (pos.length - rest.length)] }, rest)
    else pure (h, pos))
  if endIsExact = true ∧ rest ≠ [] then throw packetBody
  return (h, rest)

/-- `xrow_header_decode` of a packet: the header, and what is left of the packet. -/
def headerDecode (packet : Bytes) (endIsExact : Bool) : Decode (Header × Bytes) := do
  if (mpCheck packet).isNone = true then throw packetHeader
  if headType packet ≠ some .map then throw packetHeader
  let (size, pos) ← ExceptT.lift (mpDecodeMap packet)
  let (p, pos) ← decodeFields size ⟨.zero, false⟩ pos
  finishHeader p pos endIsExact

variable {header h : Header} {p p' p'' : Partial} {fields more : List (Nat × Bytes)}

/-- Reading the fields turns one partial header into another, whatever follows. -/
def Reads (fields : List (Nat × Bytes)) (p p' : Partial) : Prop :=
  ∀ size rest, decodeFields (fields.length + size) p (fields.flatMap encodeField ++ rest) =
    decodeFields size p' rest

lemma Reads.nil : Reads [] p p := by
  intro size rest
  simp

lemma Reads.append (h : Reads fields p p') (h' : Reads more p' p'') :
    Reads (fields ++ more) p p'' := by
  intro size rest
  rw [length_append, flatMap_append, append_assoc, Nat.add_assoc, h, h']

lemma Reads.field {key : Nat} {value : Bytes} (hk : key < iprotoKeyMax)
    (ht : ∀ rest, headType (value ++ rest) = some (iprotoKeyType key))
    (hv : ∀ rest, decodeValue p key (value ++ rest) = pure (p', rest)) :
    Reads [(key, value)] p p' := by
  intro size rest
  have hl : key < 2 ^ 64 := hk.trans (by decide)
  have ho : ¬ (key ≥ iprotoKeyMax ∨ iprotoKeyType key ≠ iprotoKeyType key) := by
    simpa using hk
  rw [length_singleton, Nat.add_comm, flatMap_singleton, encodeField]
  simp only [decodeFields, append_assoc, decodeUint_encode hl, pure_bind, ht, ho, if_false, hv]

/-- A field that is left out keeps the value it has already. -/
lemma Reads.optional {c : Prop} [Decidable c] (h : Reads fields p p') (hn : ¬ c → p' = p) :
    Reads (if c then fields else []) p p' := by
  by_cases hc : c
  · rw [if_pos hc]
    exact h
  · rw [if_neg hc, hn hc]
    exact Reads.nil

lemma Reads.uint (key : Nat) (f : Nat → Partial) {n : Nat} (hk : key < iprotoKeyMax)
    (ht : iprotoKeyType key = .uint)
    (hv : ∀ pos, decodeValue p key pos = (do
      let (n, pos) ← ExceptT.lift (mpDecodeUint pos)
      return (f n, pos)))
    (hn : n < 2 ^ 64) : Reads [(key, mpEncodeUint n)] p (f n) := by
  refine Reads.field hk (fun rest => ht ▸ headType_uint n rest) fun rest => ?_
  rw [hv, mpDecodeUint_encode hn]
  rfl

lemma Reads.double (f : Nat → Partial) {bits : Nat}
    (hv : ∀ pos, decodeValue p iprotoTimestamp pos = (do
      let (n, pos) ← ExceptT.lift (mpDecodeDouble pos)
      return (f n, pos)))
    (hb : bits < 2 ^ 64) : Reads [(iprotoTimestamp, mpEncodeDouble bits)] p (f bits) := by
  refine Reads.field (by decide) (fun rest => rfl) fun rest => ?_
  rw [hv, mpDecodeDouble_encode hb]
  rfl

def Header.transmitted (header : Header) (sync : UInt64) : Header where
  type := header.type
  replicaId := header.replicaId
  groupId := header.groupId
  sync := sync
  lsn := header.lsn
  tm := if isZero header.tm then 0 else header.tm
  tsn := if header.writesTsn then header.lsn - header.tsn else 0
  flags := header.flagsToEncode
  schemaVersion := 0
  body := []

lemma reads_type (header : Header) (p : Partial) :
    Reads [(iprotoRequestType, mpEncodeUint header.type.toNat)] p
      { p with header := { p.header with type := header.type } } := by
  have h : header.type.toNat < 2 ^ 64 := header.type.toNat_lt.trans (by decide)
  simpa using Reads.uint iprotoRequestType
    (fun n => { p with header := { p.header with type := UInt16.ofNat n } })
    (by decide) (by decide) (fun _ => rfl) h

lemma reads_sync (sync : UInt64) (hz : p.header.sync = 0) :
    Reads (if sync ≠ 0 then [(iprotoSync, mpEncodeUint sync.toNat)] else []) p
      { p with header := { p.header with sync := sync } } := by
  refine Reads.optional ?_ fun hn => by simp [not_not.mp hn, ← hz]
  simpa using Reads.uint iprotoSync
    (fun n => { p with header := { p.header with sync := UInt64.ofNat n } })
    (by decide) (by decide) (fun _ => rfl) sync.toNat_lt

section

variable (header : Header)

lemma reads_replicaId (hz : p.header.replicaId = 0) :
    Reads (if header.replicaId ≠ 0 then [(iprotoReplicaId, mpEncodeUint header.replicaId.toNat)]
      else []) p { p with header := { p.header with replicaId := header.replicaId } } := by
  have h : header.replicaId.toNat < 2 ^ 64 := header.replicaId.toNat_lt.trans (by decide)
  refine Reads.optional ?_ fun hn => by simp [not_not.mp hn, ← hz]
  simpa using Reads.uint iprotoReplicaId
    (fun n => { p with header := { p.header with replicaId := UInt32.ofNat n } })
    (by decide) (by decide) (fun _ => rfl) h

lemma reads_groupId (hz : p.header.groupId = 0) :
    Reads (if header.groupId ≠ 0 then [(iprotoGroupId, mpEncodeUint header.groupId.toNat)]
      else []) p { p with header := { p.header with groupId := header.groupId } } := by
  have h : header.groupId.toNat < 2 ^ 64 := header.groupId.toNat_lt.trans (by decide)
  refine Reads.optional ?_ fun hn => by simp [not_not.mp hn, ← hz]
  simpa using Reads.uint iprotoGroupId
    (fun n => { p with header := { p.header with groupId := UInt32.ofNat n } })
    (by decide) (by decide) (fun _ => rfl) h

lemma reads_lsn (hz : p.header.lsn = 0) :
    Reads (if header.lsn ≠ 0 then [(iprotoLsn, mpEncodeUint header.lsn.toUInt64.toNat)]
      else []) p { p with header := { p.header with lsn := header.lsn } } := by
  refine Reads.optional ?_ fun hn => by simp [not_not.mp hn, ← hz]
  simpa using Reads.uint iprotoLsn
    (fun n => { p with header := { p.header with lsn := (UInt64.ofNat n).toInt64 } })
    (by decide) (by decide) (fun _ => rfl)
    header.lsn.toUInt64.toNat_lt

lemma reads_tm (hz : p.header.tm = 0) :
    Reads (if ¬ isZero header.tm then [(iprotoTimestamp, mpEncodeDouble header.tm.toNat)]
      else []) p
      { p with header := { p.header with tm := if isZero header.tm then 0 else header.tm } } := by
  by_cases h : isZero header.tm
  · simp only [h, not_true_eq_false, if_false, if_true, ← hz]
    exact Reads.nil
  · simpa [h] using Reads.double
      (fun n => { p with header := { p.header with tm := UInt64.ofNat n } }) (fun _ => rfl)
      header.tm.toNat_lt

lemma reads_tsn (hz : p.header.tsn = 0) (hn : p.hasTsn = false) :
    Reads (if header.writesTsn then
        [(iprotoTsn, mpEncodeUint (header.lsn - header.tsn).toUInt64.toNat)] else []) p
      ⟨{ p.header with tsn := if header.writesTsn then header.lsn - header.tsn else 0 },
        decide header.writesTsn⟩ := by
  by_cases h : header.writesTsn
  · have hr := Reads.uint iprotoTsn
      (fun n => ⟨{ p.header with tsn := (UInt64.ofNat n).toInt64 }, true⟩)
      (by decide) (by decide) (fun _ => rfl) (header.lsn - header.tsn).toUInt64.toNat_lt
    rw [UInt64.ofNat_toNat, Int64.toInt64_toUInt64] at hr
    simp only [h, if_true, decide_true]
    exact hr
  · simp only [h, if_false, decide_false, ← hz, ← hn]
    exact Reads.nil

lemma reads_flags (hz : p.header.flags = 0) :
    Reads (if header.flagsToEncode ≠ 0 then
        [(iprotoFlags, mpEncodeUint header.flagsToEncode.toNat)] else []) p
      { p with header := { p.header with flags := header.flagsToEncode } } := by
  have h : header.flagsToEncode.toNat < 2 ^ 64 := header.flagsToEncode.toNat_lt.trans (by decide)
  refine Reads.optional ?_ fun hn => by simp [not_not.mp hn, ← hz]
  simpa using Reads.uint iprotoFlags
    (fun n => { p with header := { p.header with flags := UInt8.ofNat n } })
    (by decide) (by decide) (fun _ => rfl) h

lemma reads_fields (sync : UInt64) : Reads (header.fields sync) ⟨.zero, false⟩
      ⟨header.transmitted sync, decide header.writesTsn⟩ :=
  (((((((reads_type header _).append (reads_sync sync rfl)).append
    (reads_replicaId header rfl)).append (reads_groupId header rfl)).append
    (reads_lsn header rfl)).append (reads_tm header rfl)).append
    (reads_tsn header rfl rfl)).append (reads_flags header rfl)

end

lemma length_append_optional {c : Prop} [Decidable c] {field : Nat × Bytes} {n : Nat}
    (h : fields.length ≤ n) : (fields ++ if c then [field] else []).length ≤ n + 1 := by
  rw [length_append]
  split <;> simp <;> omega

lemma length_encode_append {c : Prop} [Decidable c] {key m n : Nat} {value : Bytes}
    (h : (fields.flatMap encodeField).length ≤ n) (hk : key < 128) (hv : value.length ≤ m) :
    ((fields ++ if c then [(key, value)] else []).flatMap encodeField).length ≤ n + (m + 1) := by
  rw [flatMap_append, length_append]
  split
  · rw [flatMap_singleton, encodeField, length_append, length_mpEncodeUint_of_fixint hk]
    have hv : (key, value).2.length ≤ m := hv
    omega
  · rw [flatMap_nil, length_nil]
    omega

lemma length_fields_le (header : Header) (sync : UInt64) : (header.fields sync).length ≤ 8 :=
  length_append_optional (length_append_optional (length_append_optional (length_append_optional
    (length_append_optional (length_append_optional (length_append_optional (Nat.le_refl 1)))))))

lemma length_encode_fields (hr : header.replicaId.toNat < vclockMax)
    (hg : header.groupId = 0 ∨ header.groupId = 1) (sync : UInt64) :
    ((header.fields sync).flatMap encodeField).length ≤ 51 := by
  have ht : ([(iprotoRequestType, mpEncodeUint header.type.toNat)].flatMap
      encodeField).length ≤ 4 := by
    have hl := length_mpEncodeUint_of_lt header.type.toNat_lt
    have hk : (mpEncodeUint iprotoRequestType).length = 1 := by decide
    simp only [flatMap_singleton, encodeField, length_append, hk]
    omega
  have hr : (mpEncodeUint header.replicaId.toNat).length ≤ 1 :=
    (length_mpEncodeUint_of_fixint (hr.trans (by decide))).le
  have hg : (mpEncodeUint header.groupId.toNat).length ≤ 1 := by
    rcases hg with h | h <;> rw [h] <;> decide
  have hd : (mpEncodeDouble header.tm.toNat).length ≤ 9 := by
    simp [mpEncodeDouble, length_storeBe]
  have hf := length_mpEncodeUint_of_byte header.flagsToEncode.toNat_lt
  exact length_encode_append (length_encode_append (length_encode_append (length_encode_append
    (length_encode_append (length_encode_append (length_encode_append ht
    (by decide) (length_mpEncodeUint_le _)) (by decide) hr) (by decide) hg)
    (by decide) (length_mpEncodeUint_le _)) (by decide) hd)
    (by decide) (length_mpEncodeUint_le _)) (by decide) hf

lemma values_fields (h : ∀ field ∈ fields, Values 1 field.2) :
    Values (2 * fields.length) (fields.flatMap encodeField) := by
  induction fields with
  | nil => exact Values.nil
  | cons field fields ih =>
    rw [forall_mem_cons] at h
    have hp : Values 2 (encodeField field) := (Values.uint field.1).append h.1
    rw [length_cons, flatMap_cons, Nat.mul_succ, Nat.add_comm]
    exact hp.append (ih h.2)

lemma values_optional (c : Prop) [Decidable c] {field : Nat × Bytes} (h : Values 1 field.2) :
    ∀ f ∈ (if c then [field] else []), Values 1 f.2 := by
  split
  · simpa using h
  · simp

open Header

lemma values_of_fields (header : Header) (sync : UInt64) :
    ∀ field ∈ header.fields sync, Values 1 field.2 := by
  simp only [fields, forall_mem_append, forall_mem_singleton]
  exact ⟨⟨⟨⟨⟨⟨⟨Values.uint _, values_optional _ (Values.uint _)⟩,
    values_optional _ (Values.uint _)⟩,
    values_optional _ (Values.uint _)⟩, values_optional _ (Values.uint _)⟩,
    values_optional _ (Values.double _)⟩, values_optional _ (Values.uint _)⟩,
    values_optional _ (Values.uint _)⟩

lemma commit_byte (flags : UInt8) : (flags ||| iprotoFlagCommit) &&& iprotoFlagCommit ≠ 0 ∧
    flags &&& ~~~iprotoFlagCommit ||| iprotoFlagCommit = flags ||| iprotoFlagCommit ∧
    (flags &&& iprotoFlagCommit ≠ 0 → flags ||| iprotoFlagCommit = flags) ∧
    (flags &&& iprotoFlagCommit = 0 → flags &&& ~~~iprotoFlagCommit = flags) := by
  obtain ⟨n, hn, rfl⟩ : ∃ n < 256, flags = UInt8.ofNat n :=
    ⟨flags.toNat, flags.toNat_lt, UInt8.ofNat_toNat.symm⟩
  revert n
  decide +kernel

lemma flags_restored (ht : header.tsn ≠ 0) :
    (if decide header.writesTsn = true then header.flagsToEncode
      else header.flagsToEncode ||| iprotoFlagCommit) = header.flags := by
  obtain ⟨-, hset, hs, hcl⟩ := commit_byte header.flags
  cases hc : header.isCommit with
  | true =>
    have hb : header.flags &&& iprotoFlagCommit ≠ 0 := by
      simpa [isCommit] using hc
    by_cases he : header.tsn = header.lsn
    · simp [writesTsn, flagsToEncode, he, hc, hset, hs hb]
    · simp [writesTsn, flagsToEncode, he, ht, hc, hset, hs hb]
  | false =>
    have hb : header.flags &&& iprotoFlagCommit = 0 := by
      simpa [isCommit] using hc
    simp [writesTsn, flagsToEncode, ht, hc, hcl hb]

lemma tsn_restored (ht : header.tsn ≠ 0) :
    header.lsn - (if header.writesTsn then header.lsn - header.tsn else 0) = header.tsn := by
  split
  · grind
  · rename_i hn
    have he : header.tsn = header.lsn := by
      by_contra hne
      exact hn ⟨ht, .inl hne⟩
    grind

/-- The same number: the two zeros are equal. -/
def SameNumber (tm tm' : UInt64) : Prop := tm = tm' ∨ isZero tm ∧ isZero tm'

/-- What is read back of a header that was written with this `sync`. -/
structure Header.Agrees (header decoded : Header) (sync : UInt64) : Prop where
  type_eq : decoded.type = header.type
  sync_eq : decoded.sync = sync
  replicaId_eq : decoded.replicaId = header.replicaId
  groupId_eq : decoded.groupId = header.groupId
  lsn_eq : decoded.lsn = header.lsn
  tm_eq : SameNumber decoded.tm header.tm
  tsn_eq : decoded.tsn = header.tsn
  isCommit_eq : decoded.isCommit = header.isCommit
  waitSync_eq : decoded.waitSync = header.waitSync
  waitAck_eq : decoded.waitAck = header.waitAck
  body_eq : decoded.body.flatten = header.body.flatten

def Partial.finished (p : Partial) : Header :=
  { p.header with
    flags := if p.hasTsn = true then p.header.flags else p.header.flags ||| iprotoFlagCommit
    tsn := p.header.lsn - p.header.tsn }

/-- The body is one complete value, or there is none: then nothing follows, or the row is a
NOP. -/
lemma finishHeader_body {body rest : Bytes} {endIsExact : Bool}
    (hb : body = [] ∧ (rest = [] ∨ p.header.type = iprotoNop) ∨
      p.header.type ≠ iprotoNop ∧ mpCheck body = some [])
    (hex : endIsExact = true → rest = []) (he : p.header.body = []) :
    finishHeader p (body ++ rest) endIsExact =
      pure ({ p.finished with body := if body = [] then [] else [body] }, rest) := by
  obtain ⟨header, hasTsn⟩ := p
  have he : header.body = [] := he
  have hen : ¬ (endIsExact = true ∧ ¬ rest = []) := fun h => h.2 (hex h.1)
  rcases hb with ⟨rfl, hn⟩ | ⟨ht, hc⟩
  · have hs : ¬ (¬ rest = [] ∧ ¬ header.type = iprotoNop) := by
      rintro ⟨hne, ht⟩
      exact hn.elim hne ht
    cases hasTsn <;> simp [finishHeader, Partial.finished, ← he, eq_false hs, eq_false hen]
  · have hne : body ≠ [] := by
      rintro rfl
      cases hc
    have ht : header.type ≠ iprotoNop := ht
    have hc := mpCheck_append_rest hc rest
    cases hasTsn <;> simp [finishHeader, Partial.finished, hne, ht, hc, eq_false hen]

def Header.head (header : Header) (sync : UInt64) : Bytes :=
  mpEncodeMap (header.fields sync).length ++ (header.fields sync).flatMap encodeField

lemma length_head (hr : header.replicaId.toNat < vclockMax)
    (hg : header.groupId = 0 ∨ header.groupId = 1) (sync : UInt64) :
    (header.head sync).length ≤ xrowHeaderLenMax := by
  have hc := length_fields_le header sync
  have hm : (mpEncodeMap (header.fields sync).length).length = 1 := by
    rw [mpEncodeMap, if_pos (by omega), length_storeBe]
  have hl := length_encode_fields hr hg sync
  rw [Header.head, length_append, hm, xrowHeaderLenMax]
  omega

lemma headerEncode_eq (hr : header.replicaId.toNat < vclockMax)
    (hg : header.groupId = 0 ∨ header.groupId = 1) (hi : header.body.length ≤ 2)
    (sync : UInt64) : headerEncode header sync = some (header.head sync :: header.body) := by
  have hl := length_head hr hg sync
  have hi : 1 + header.body.length ≤ xrowIovmax := by
    rw [xrowIovmax]
    omega
  exact assert_bind_eq_some.mpr ⟨hl, assert_bind_eq_some.mpr ⟨hi, rfl⟩⟩

/-- The header as it is read back, with its body in one piece. -/
def Header.readBack (header : Header) (sync : UInt64) : Header :=
  { Partial.finished ⟨header.transmitted sync, decide header.writesTsn⟩ with
    body := if header.body.flatten = [] then [] else [header.body.flatten] }

lemma headerDecode_append {rest : Bytes} (endIsExact : Bool)
    (hb : header.body.flatten = [] ∧ (rest = [] ∨ header.type = iprotoNop) ∨
      header.type ≠ iprotoNop ∧ mpCheck header.body.flatten = some [])
    (he : endIsExact = true → rest = []) (sync : UInt64) :
    headerDecode (header.head sync ++ (header.body.flatten ++ rest)) endIsExact =
      pure (header.readBack sync, rest) := by
  have hco := length_fields_le header sync
  have hv := Values.map (by omega) (values_fields (values_of_fields header sync))
  have hr := reads_fields header sync 0 (header.body.flatten ++ rest)
  have hc := hv.check (header.body.flatten ++ rest)
  have ht := headType_map (header.fields sync).length
    ((header.fields sync).flatMap encodeField ++ (header.body.flatten ++ rest))
  have hs := mpDecodeMap_encode (n := (header.fields sync).length) (by omega)
    ((header.fields sync).flatMap encodeField ++ (header.body.flatten ++ rest))
  have hf := finishHeader_body (p := ⟨header.transmitted sync, decide header.writesTsn⟩) hb he rfl
  rw [Header.head, append_assoc]
  rw [append_assoc] at hc
  simp only [headerDecode, hc, ht, hs]
  rw [if_neg (by simp), if_neg (by simp)]
  calc _ = finishHeader ⟨header.transmitted sync, decide header.writesTsn⟩
        (header.body.flatten ++ rest) endIsExact :=
      congrArg (fun read => read >>= fun (p, pos) => finishHeader p pos endIsExact) hr
    _ = _ := hf

/-- All but the id of the transaction and the flags is read back in any case. -/
lemma agrees_of_numbers {tsn : Int64} {flags : UInt8} {sync : UInt64}
    (ht : (header.readBack sync).tsn = tsn) (hf : (header.readBack sync).flags = flags) :
    ({ header with tsn := tsn, flags := flags } : Header).Agrees (header.readBack sync) sync := by
  subst ht hf
  refine ⟨rfl, rfl, rfl, rfl, rfl, ?_, rfl, rfl, rfl, rfl, ?_⟩
  · change SameNumber (if isZero header.tm then 0 else header.tm) header.tm
    split
    · exact .inr ⟨by decide, by assumption⟩
    · exact .inl rfl
  · change (if header.body.flatten = [] then [] else [header.body.flatten]).flatten = _
    split
    · rename_i hn
      exact hn.symm
    · simp

lemma agrees_readBack (ht : header.tsn ≠ 0) (sync : UInt64) :
    header.Agrees (header.readBack sync) sync :=
  agrees_of_numbers (tsn_restored ht) (flags_restored ht)

def groupDefault : UInt32 := 0
def groupLocal : UInt32 := 1

/-- Rows that a log can hold: they have a body unless they are NOPs. -/
structure WellFormed (row : Header) : Prop where
  replica : row.replicaId.toNat < vclockMax
  group : row.groupId = groupDefault ∨ row.groupId = groupLocal
  iov : row.body.length ≤ 2
  body : row.body.flatten = [] ∧ row.type = iprotoNop ∨
    row.type ≠ iprotoNop ∧ mpCheck row.body.flatten = some []

/-- A row without the id of a transaction counts as a transaction of its own. -/
def Header.single (header : Header) : Header :=
  if header.tsn = 0 then
    { header with tsn := header.lsn, flags := header.flags ||| iprotoFlagCommit }
  else header

/-- Every row is read back, with the id and the mark that were left out. -/
lemma single_agrees_readBack (header : Header) : header.single.Agrees (header.readBack 0) 0 := by
  by_cases ht : header.tsn = 0
  · have hn : ¬ header.writesTsn := fun hw => hw.1 ht
    have hb := (commit_byte header.flags).2.1
    have hf : (header.readBack 0).flags = header.flags ||| iprotoFlagCommit := by
      simp [readBack, Partial.finished, transmitted, flagsToEncode, hn, ht, hb]
    have hl : (header.readBack 0).tsn = header.lsn := by
      simp [readBack, Partial.finished, transmitted, hn]
    rw [single, if_pos ht]
    exact agrees_of_numbers hl hf
  · rw [single, if_neg ht]
    exact agrees_readBack ht 0

/-- A header is read back as it was written, with its body, from at most
`XROW_HEADER_LEN_MAX` bytes. -/
theorem header_decode_encode (htsn : header.tsn ≠ 0) (hreplica : header.replicaId.toNat < vclockMax)
    (hgroup : header.groupId = 0 ∨ header.groupId = 1) (hiov : header.body.length ≤ 2)
    (hbody : header.body = [] ∨ header.type ≠ iprotoNop ∧ mpCheck header.body.flatten = some [])
    (sync : UInt64) (endIsExact : Bool) :
    ∃ head decoded, headerEncode header sync = some (head :: header.body) ∧
      head.length ≤ xrowHeaderLenMax ∧
      headerDecode (head :: header.body).flatten endIsExact = pure (decoded, []) ∧
      header.Agrees decoded sync := by
  have hbody : header.body.flatten = [] ∧ (([] : Bytes) = [] ∨ header.type = iprotoNop) ∨
      header.type ≠ iprotoNop ∧ mpCheck header.body.flatten = some [] := by
    rcases hbody with hn | hbody
    · exact .inl ⟨by rw [hn]; rfl, .inl rfl⟩
    · exact .inr hbody
  refine ⟨header.head sync, header.readBack sync, headerEncode_eq hreplica hgroup hiov sync,
    length_head hreplica hgroup sync, ?_, agrees_readBack htsn sync⟩
  have hd := headerDecode_append endIsExact hbody (fun _ => rfl) sync
  rw [append_nil] at hd
  rw [flatten_cons, hd]

/-- The last row of a transaction of three, with a body in two pieces. -/
def lastOfThree : Header where
  type := 2
  replicaId := 1
  groupId := 0
  sync := 0
  lsn := 7
  tm := 0x41d8000000000000
  tsn := 5
  flags := 3
  schemaVersion := 9
  body := [[0x81, 0x10], [0x01]]

theorem header_decode_encode_last :
    ∃ head decoded, headerEncode lastOfThree 0 = some (head :: lastOfThree.body) ∧
      head.length ≤ xrowHeaderLenMax ∧
      headerDecode (head :: lastOfThree.body).flatten true = pure (decoded, []) ∧
      lastOfThree.Agrees decoded 0 :=
  header_decode_encode (by decide) (by decide) (by decide) (by decide) (by decide) 0 true

end TarantoolStorage.Xrow
