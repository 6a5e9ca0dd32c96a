import TarantoolStorage.Xrow.Header

/-!
Requests that change data, after `xrow_decode_dml`. The keys of a request are looked up by their
first byte in a map of 64 bits where the shift is taken modulo 64, so `0x50` to `0x53` pass for
`0x10` to `0x13`.
-/
namespace TarantoolStorage.Xrow

open MsgPack List

/-- The keys of such a request, see `Request.read`. -/
def dmlKeys : List Nat := [0x10, 0x11, 0x12, 0x13, 0x14, 0x15, 0x20, 0x21, 0x28, 0x2a]

/-- Keys of other requests, `0x40` above keys of these. -/
def dmlAliases : List Nat := [0x50, 0x51, 0x52, 0x53]

/-- `1ULL << key`, as it is compiled. -/
def iprotoKeyBit (key : Nat) : BitVec 64 := 1#64 <<< (key % 64)

def iprotoDmlBodyBmap : BitVec 64 := (dmlKeys.map iprotoKeyBit).foldl (· ||| ·) 0#64

def firstByte : Bytes → Nat
  | [] => iprotoKeyMax
  | c :: _ => c.toNat

def iprotoDmlBodyHasKey (pos : Bytes) : Bool :=
  firstByte pos < iprotoKeyMax && (iprotoDmlBodyBmap &&& iprotoKeyBit (firstByte pos)) != 0#64

/-- `ER_INVALID_MSGPACK` and `ER_MISSING_REQUEST_FIELD`, that prints the name of the key. -/
inductive DmlError where
  | invalidMsgpack (what : String)
  | missingField (key : Nat)

abbrev DecodeDml := ExceptT DmlError Option

/-- `request`. What lies between two pointers is the bytes there. -/
structure Request where
  header : Header
  type : UInt16
  spaceId : UInt32
  indexId : UInt32
  offset : UInt32
  limit : UInt32
  iterator : UInt32
  key : Option Bytes
  tuple : Option Bytes
  ops : Option Bytes
  tupleMeta : Option Bytes
  indexBase : Int32

/-- A pair of the body: where it begins, where its value does, and what follows. -/
structure Pair where
  pos : Bytes
  value : Bytes
  rest : Bytes

def Pair.number (p : Pair) : Option Nat := (mpDecodeUint p.value).map Prod.fst

def Pair.bytes (p : Pair) : Bytes := p.value.take (p.value.length - p.rest.length)

/-- The switch of `xrow_decode_dml`. The type of the value has been checked. -/
def Request.read (req : Request) (key : Nat) (p : Pair) : Request :=
  let n := p.number.getD 0
  match key with
  | 0x10 => { req with spaceId := UInt32.ofNat n }
  | 0x11 => { req with indexId := UInt32.ofNat n }
  | 0x13 => { req with offset := UInt32.ofNat n }
  | 0x15 => { req with indexBase := Int32.ofNat n }
  | 0x12 => { req with limit := UInt32.ofNat n }
  | 0x14 => { req with iterator := UInt32.ofNat n }
  | 0x21 => { req with tuple := some p.bytes }
  | 0x20 => { req with key := some p.bytes }
  | 0x28 => { req with ops := some p.bytes }
  | 0x2a => { req with tupleMeta := some p.bytes }
  | _ => req

def bitCtz (x : BitVec 64) : Option Nat := (range 64).find? x.getLsbD

/-- The label `done`. -/
def dmlDone (keyMap : BitVec 64) (req : Request) : DecodeDml Request :=
  match bitCtz keyMap with
  | none => return req
  | some key => throw (.missingField key)

/-- The loop over the pairs, and what follows it. -/
def decodeDmlPairs : Nat → BitVec 64 → Request → Bytes → DecodeDml Request
  | 0, keyMap, req, data =>
    if data = [] then dmlDone keyMap req else throw (.invalidMsgpack "packet end")
  | size + 1, keyMap, req, data =>
    if iprotoDmlBodyHasKey data then
      match mpDecodeUint data with
      | none => ExceptT.mk none
      | some (key, value) =>
        match mpCheck value with
        | none => throw (.invalidMsgpack packetBody)
        | some rest =>
          if key ≥ iprotoKeyMax ∨ headType value ≠ some (iprotoKeyType key) then
            throw (.invalidMsgpack packetBody)
          else
            decodeDmlPairs size (keyMap &&& ~~~iprotoKeyBit key)
              (req.read key ⟨data, value, rest⟩) rest
    else
      match (mpCheck data).bind mpCheck with
      | none => throw (.invalidMsgpack packetBody)
      | some rest => decodeDmlPairs size keyMap req rest

def Request.zero (row : Header) : Request :=
  ⟨row, row.type, 0, 0, 0, 0, 0, none, none, none, none, 0⟩

def xrowDecodeDml (row : Header) (keyMap : BitVec 64) : DecodeDml Request :=
  match row.body with
  | [] => dmlDone keyMap (.zero row)
  | [body] =>
    if body = [] then ExceptT.mk none
    else
      match mpDecodeMap body with
      -- no map, or its header is cut off
      | none => throw (.invalidMsgpack packetBody)
      | some (size, data) => decodeDmlPairs size keyMap (.zero row) data
  | _ => ExceptT.mk none

def bodyPairs : Nat → Bytes → Option (List Pair)
  | 0, pos => if pos = [] then some [] else none
  | size + 1, pos => do
    let value ← mpCheck pos
    let rest ← mpCheck value
    let pairs ← bodyPairs size rest
    return ⟨pos, value, rest⟩ :: pairs

def Header.pairs (row : Header) : Option (List Pair) :=
  match row.body with
  | [] => some []
  | [body] => (mpDecodeMap body).bind fun p => bodyPairs p.1 p.2
  | _ => none

def Pair.key (p : Pair) : Option Nat := (mpDecodeUint p.pos).map Prod.fst

def Pair.byte (p : Pair) : Nat := firstByte p.pos

def Pair.isDml (p : Pair) : Bool := dmlKeys.any (p.key = some ·)

def Pair.Typed (p : Pair) (key : Nat) : Prop := headType p.value = some (iprotoKeyType key)

instance (p : Pair) (key : Nat) : Decidable (p.Typed key) := inferInstanceAs (Decidable (_ = _))

def Pair.seen (p : Pair) : Bool := iprotoDmlBodyHasKey p.pos

variable (keyMap : BitVec 64) (req : Request) {pairs : List Pair}

def clearAll (pairs : List Pair) : BitVec 64 :=
  pairs.foldl (fun keyMap p => keyMap &&& ~~~iprotoKeyBit p.byte) keyMap

def Request.readAll (pairs : List Pair) : Request :=
  pairs.foldl (fun req p => req.read p.byte p) req

/-- What the loop makes of the pairs it does not skip. -/
def dmlOf (pairs : List Pair) : DecodeDml Request :=
  if pairs.all fun p => p.Typed p.byte then dmlDone (clearAll keyMap pairs) (req.readAll pairs)
  else throw (.invalidMsgpack packetBody)

open Pair Request

lemma hasKey_iff_of_lt : ∀ key < iprotoKeyMax,
    (iprotoDmlBodyBmap &&& iprotoKeyBit key ≠ 0#64 ↔ key ∈ dmlKeys ∨ key ∈ dmlAliases) := by
  decide

lemma seen_iff (p : Pair) : p.seen = true ↔ p.byte ∈ dmlKeys ∨ p.byte ∈ dmlAliases := by
  rw [seen, byte, iprotoDmlBodyHasKey]
  by_cases h : firstByte p.pos < iprotoKeyMax
  · simp [h, ← hasKey_iff_of_lt _ h]
  · have hmem : ∀ key ∈ dmlKeys ++ dmlAliases, key < iprotoKeyMax := by decide
    have hout : firstByte p.pos ∉ dmlKeys ++ dmlAliases := fun hin => h (hmem _ hin)
    simpa [h] using hout

/-- A key of one byte. -/
lemma read_of_hasKey {pos : Bytes} (h : iprotoDmlBodyHasKey pos = true) :
    firstByte pos < iprotoKeyMax ∧
      ∃ rest, mpDecodeUint pos = some (firstByte pos, rest) ∧ mpCheck pos = some rest := by
  simp only [iprotoDmlBodyHasKey, Bool.and_eq_true, decide_eq_true_eq] at h
  cases pos with
  | nil => cases Nat.lt_irrefl _ h.1
  | cons c bs =>
    have hle : c.toNat ≤ 0x7f := h.1.le.trans (by decide)
    have he : mpEncodeUint c.toNat ++ bs = c :: bs := by simp [mpEncodeUint, hle, storeBe_one]
    refine ⟨h.1, bs, ?_⟩
    rw [← he, mpDecodeUint_encode (by omega), (Values.uint _).check, he]
    exact ⟨rfl, rfl⟩

lemma key_of_mem {p : Pair} (h : p.byte ∈ dmlKeys) : p.key = some p.byte := by
  obtain ⟨-, rest, hread, -⟩ := read_of_hasKey ((seen_iff p).mpr (.inl h))
  simp [Pair.key, hread, byte]

/-- A body of pairs comes out as they say, any other is refused. -/
lemma decodeDmlPairs_eq (size : Nat) (pos : Bytes) :
    (∀ pairs, bodyPairs size pos = some pairs →
      decodeDmlPairs size keyMap req pos = dmlOf keyMap req (pairs.filter seen)) ∧
    (bodyPairs size pos = none → ∃ error, decodeDmlPairs size keyMap req pos = throw error) := by
  induction size generalizing keyMap req pos with
  | zero =>
    by_cases h : pos = [] <;> simp [bodyPairs, decodeDmlPairs, dmlOf, clearAll, readAll, h]
  | succ size ih =>
    rw [bodyPairs, decodeDmlPairs]
    by_cases hkey : iprotoDmlBodyHasKey pos = true
    · obtain ⟨hlt, value, hread, hcheck⟩ := read_of_hasKey hkey
      cases hvalue : mpCheck value with
      | none => simp [hkey, hread, hcheck, hvalue]
      | some rest =>
        have hrest := fun keyMap req => ih keyMap req rest
        by_cases htyped : headType value = some (iprotoKeyType (firstByte pos)) <;>
          cases hpairs : bodyPairs size rest <;>
            simp_all [dmlOf, Typed, byte, seen, clearAll, readAll, hlt.not_ge]
    · cases hcheck : mpCheck pos with
      | none => simp [hkey]
      | some value =>
        cases hvalue : mpCheck value with
        | none => simp [hkey, hvalue]
        | some rest =>
          have hrest := ih keyMap req rest
          cases hpairs : bodyPairs size rest <;> simp_all [seen]

lemma xrowDecodeDml_eq (row : Header) :
    (∀ pairs, row.pairs = some pairs →
      xrowDecodeDml row keyMap = dmlOf keyMap (.zero row) (pairs.filter seen)) ∧
    (row.pairs = none → ∀ req, xrowDecodeDml row keyMap ≠ pure req) := by
  have hthrow (error : DmlError) (req : Request) :
      (throw error : DecodeDml Request) ≠ pure req := nofun
  have hmisuse (req : Request) : (ExceptT.mk none : DecodeDml Request) ≠ pure req := nofun
  unfold Header.pairs xrowDecodeDml
  rcases row.body with _ | ⟨_ | ⟨c, body⟩, _ | ⟨_, _⟩⟩
  · simp [dmlOf, clearAll, readAll]
  · simpa [mpDecodeMap] using hmisuse
  · simpa using hmisuse
  · cases hmap : mpDecodeMap (c :: body) with
    | none => simpa [hmap] using hthrow _
    | some p =>
      obtain ⟨hsome, hnone⟩ := decodeDmlPairs_eq keyMap (.zero row) p.1 p.2
      simp only [hmap, Option.bind_some]
      refine ⟨hsome, fun h req => ?_⟩
      obtain ⟨error, herror⟩ := hnone h
      simpa [herror] using hthrow error req
  · simpa using hmisuse

/-! What a request should say -/

/-- The last pair of the key. -/
def latest (pairs : List Pair) (key : Nat) : Option Pair :=
  (pairs.filter (·.key = some key)).getLast?

/-- The field of the key has the value of the pair. -/
def Request.Says (key : Nat) (p : Pair) : Prop :=
  match key with
  | 0x10 => p.number = some req.spaceId.toNat
  | 0x11 => p.number = some req.indexId.toNat
  | 0x12 => p.number = some req.limit.toNat
  | 0x13 => p.number = some req.offset.toNat
  | 0x14 => p.number = some req.iterator.toNat
  | 0x15 => p.number.map Int.ofNat = some req.indexBase.toInt
  | 0x20 => req.key = some p.bytes
  | 0x21 => req.tuple = some p.bytes
  | 0x28 => req.ops = some p.bytes
  | 0x2a => req.tupleMeta = some p.bytes
  | _ => True

/-- The number of a pair fits the field of the key. -/
def Pair.fits (p : Pair) : Nat → Bool
  | 0x20 | 0x21 | 0x28 | 0x2a => true
  | 0x15 => p.number.any (· < 2 ^ 31)
  | _ => p.number.any (· < 2 ^ 32)

/-- On success each required key is there with a value of its type, and each field has the value of
the last pair of its key. Pairs of other keys could as well be left out. -/
def DmlChecked (row : Header) : Prop :=
  (∀ req, xrowDecodeDml row keyMap = pure req → ∃ pairs, row.pairs = some pairs ∧
    (∀ key, keyMap.getLsbD key = true → ∃ p ∈ pairs, p.key = some key ∧ p.Typed key) ∧
    ∀ key ∈ dmlKeys, ∀ p, latest pairs key = some p → req.Says key p) ∧
  ∀ pairs, row.pairs = some pairs →
    xrowDecodeDml row keyMap = dmlOf keyMap (.zero row) (pairs.filter Pair.isDml)

/-- The keys `0x50` to `0x53` are absent, those of these requests are written as one byte, and
their numbers fit the fields. -/
structure DmlPlain (pairs : List Pair) : Prop where
  own : ∀ p ∈ pairs, p.byte ∉ dmlAliases
  short : ∀ p ∈ pairs, p.isDml = true → p.byte ∈ dmlKeys
  fits : ∀ p ∈ pairs, p.isDml = true → p.Typed p.byte → p.fits p.byte = true

lemma says_read {key : Nat} {p : Pair} (h : p.fits key = true) : (req.read key p).Says key p := by
  have hn {b : Nat} (hb : p.number.any (· < b) = true) : ∃ n < b, p.number = some n := by
    obtain ⟨n, hn, hlt⟩ := Option.any_eq_true _ _ |>.mp hb
    exact ⟨n, by simpa using hlt, hn⟩
  unfold Says
  split <;> simp only [Request.read] <;> obtain ⟨n, hlt, hp⟩ := hn h
  case h_6 => simp [hp, Int32.toInt_ofNat_of_lt hlt]
  all_goals simpa [hp] using (Nat.mod_eq_of_lt hlt).symm

lemma says_read_of_ne {key byte : Nat} (h : byte ≠ key) (p q : Pair) :
    (req.read byte q).Says key p ↔ req.Says key p := by
  unfold Request.read
  split <;> unfold Says <;> split <;> first | rfl | exact absurd rfl h

/-- A field holds the last value of its key that was read. -/
lemma says_readAll (hkey : ∀ p ∈ pairs, p.key = some p.byte) {key : Nat}
    (hfits : ∀ p ∈ pairs, p.fits p.byte = true) (p : Pair)
    (h : latest pairs key = some p) : (req.readAll pairs).Says key p := by
  induction pairs using reverseRecOn with
  | nil => cases h
  | append_singleton pairs q ih =>
    rw [readAll, foldl_append, foldl_cons, foldl_nil]
    have hq := hkey q (by simp)
    by_cases hk : q.byte = key
    · subst hk
      obtain rfl : q = p := by simpa [latest, filter_append, hq] using h
      exact says_read _ (hfits q (by simp))
    · rw [says_read_of_ne _ hk]
      exact ih (fun p hp => hkey p (by simp [hp])) (fun p hp => hfits p (by simp [hp]))
        (by simpa [latest, filter_append, hq, hk] using h)

lemma getLsbD_keyBit (byte key : Nat) :
    (iprotoKeyBit byte).getLsbD key = decide (byte % 64 = key) := by
  have hlt := Nat.mod_lt byte (by decide : 64 > 0)
  simp only [iprotoKeyBit, BitVec.getLsbD_shiftLeft, BitVec.getLsbD_one]
  rw [Bool.eq_iff_iff]
  simp
  omega

/-- A required key is read, or missed in the end. -/
lemma getLsbD_clearAll {key : Nat} (h : keyMap.getLsbD key = true)
    (hn : ∀ p ∈ pairs, p.byte % 64 ≠ key) : (clearAll keyMap pairs).getLsbD key = true := by
  induction pairs generalizing keyMap with
  | nil => exact h
  | cons p pairs ih =>
    obtain ⟨hp, hn⟩ := forall_mem_cons.mp hn
    refine ih _ ?_ hn
    rw [BitVec.getLsbD_and, BitVec.getLsbD_not, getLsbD_keyBit]
    simp [h, hp, BitVec.lt_of_getLsbD h]

variable {keyMap req}

/-- A success: the values have their types, and each required key was read. -/
lemma of_dmlOf_eq_pure {r : Request} (h : dmlOf keyMap req pairs = pure r) :
    (∀ p ∈ pairs, p.Typed p.byte) ∧
      (∀ key, keyMap.getLsbD key = true → ∃ p ∈ pairs, p.byte % 64 = key) ∧
      req.readAll pairs = r := by
  unfold dmlOf dmlDone at h
  split at h
  next htyped =>
    split at h
    next hnone =>
      refine ⟨by simpa using htyped, fun key hkey => ?_, by cases h; rfl⟩
      by_contra hcon
      have hbit := getLsbD_clearAll keyMap hkey fun p hp he => hcon ⟨p, hp, he⟩
      exact find?_eq_none.mp hnone key (mem_range.mpr (BitVec.lt_of_getLsbD hkey)) hbit
    next => cases h
  next => cases h

lemma dmlKeys_mod : ∀ byte ∈ dmlKeys, byte % 64 = byte := by decide

/-- Of a plain body the loop skips the pairs of other requests. -/
lemma filter_seen (h : DmlPlain pairs) : pairs.filter seen = pairs.filter isDml := by
  refine filter_congr fun p hp => Bool.eq_iff_iff.mpr ?_
  rw [seen_iff]
  constructor
  · rintro (hown | halias)
    · simpa [isDml, key_of_mem hown] using hown
    · exact absurd halias (h.own p hp)
  · exact fun hd => .inl (h.short p hp hd)

lemma latest_filter {key : Nat} (h : key ∈ dmlKeys) :
    latest (pairs.filter isDml) key = latest pairs key := by
  rw [latest, filter_filter, latest]
  congr 1
  refine filter_congr fun p _ => ?_
  by_cases hk : p.key = some key
  · simpa [isDml, hk] using h
  · simp [hk]

/-- A row with the body of a request. -/
def dmlRow (body : Bytes) : Header := { Header.zero with body := [body] }

end TarantoolStorage.Xrow
