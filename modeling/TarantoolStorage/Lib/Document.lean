import TarantoolStorage.Lib.MsgPack

/-! MessagePack documents: trees of heads. An encoding keeps the bytes of every head. -/
namespace MsgPack

open List Option

/-- The first part of a value: a scalar, or the count of a container. -/
inductive Head where
  | uint (n : Nat)
  | int (z : Int)
  | str (s : Bytes)
  /-- Any other scalar, as it is written. -/
  | other (raw : Bytes)
  | array (count : Nat)
  | map (count : Nat)
  deriving DecidableEq

def Head.nested : Head → Nat
  | .array count => count
  | .map count => 2 * count
  | _ => 0

def takeBytes (n : Nat) (bs : Bytes) : Option (Bytes × Bytes) :=
  if n ≤ bs.length then some (bs.take n, bs.drop n) else none

/-- Reads `k` bytes of a number in two's complement. -/
def loadSigned (k : Nat) (bs : Bytes) : Option (Int × Bytes) :=
  (loadBe 0 k bs).map fun (n, bs) => (Int.bmod n (256 ^ k), bs)

def mpDecodeInt : Bytes → Option (Int × Bytes)
  | [] => none
  | c :: bs =>
    if c = 0xd0 then loadSigned 1 bs
    else if c = 0xd1 then loadSigned 2 bs
    else if c = 0xd2 then loadSigned 4 bs
    else if c = 0xd3 then loadSigned 8 bs
    else if c < 0xe0 then none
    else some (Int.bmod c.toNat (2 ^ 8), bs)

def mpDecodeStrl : Bytes → Option (Nat × Bytes)
  | [] => none
  | c :: bs =>
    if c = 0xd9 then loadBe 0 1 bs
    else if c = 0xda then loadBe 0 2 bs
    else if c = 0xdb then loadBe 0 4 bs
    else if c < 0xa0 ∨ c > 0xbf then none
    else some ((c &&& 0x1f).toNat, bs)

def mpDecodeStr (bs : Bytes) : Option (Bytes × Bytes) :=
  (mpDecodeStrl bs).bind fun (len, bs) => takeBytes len bs

def decodeHead : Bytes → Option (Head × Bytes)
  | [] => none
  | c :: bs =>
    match mpTypeof c with
    | .uint => (mpDecodeUint (c :: bs)).map fun (n, rest) => (.uint n, rest)
    | .int => (mpDecodeInt (c :: bs)).map fun (z, rest) => (.int z, rest)
    | .str => (mpDecodeStr (c :: bs)).map fun (s, rest) => (.str s, rest)
    | .array => (mpDecodeArray (c :: bs)).map fun (n, rest) => (.array n, rest)
    | .map => (mpDecodeMap (c :: bs)).map fun (n, rest) => (.map n, rest)
    | _ => (mpNext (c :: bs)).map fun rest =>
      (.other ((c :: bs).take (bs.length + 1 - rest.length)), rest)

inductive Doc where
  | mk (head : Head) (children : List Doc)

/-- An encoded document: the bytes of its head and the encoded values that belong to it. -/
inductive Node where
  | mk (raw : Bytes) (head : Head) (children : List Node)

namespace Node

def raw : Node → Bytes
  | mk raw _ _ => raw

def head : Node → Head
  | mk _ head _ => head

def children : Node → List Node
  | mk _ _ children => children

mutual

def bytes : Node → Bytes
  | mk raw _ children => raw ++ bytesAll children

def bytesAll : List Node → Bytes
  | [] => []
  | node :: nodes => node.bytes ++ bytesAll nodes

end

mutual

def doc : Node → Doc
  | mk _ head children => .mk head (docAll children)

def docAll : List Node → List Doc
  | [] => []
  | node :: nodes => node.doc :: docAll nodes

end

/-- The bytes of every head are an encoding of it, and it has its values. -/
inductive WF : Node → Prop
  | mk {raw : Bytes} {head : Head} {children : List Node}
    (hraw : ∀ rest, decodeHead (raw ++ rest) = some (head, rest))
    (hlen : children.length = head.nested)
    (hsmall : ∀ n, head = .map n → n < 2 ^ 31)
    (hchildren : ∀ child ∈ children, child.WF) : WF (mk raw head children)

end Node

/-- Decodes so many values, and the values that belong to them. -/
def decodeDocs : Nat → Nat → Bytes → Option (List Doc × Bytes)
  | _, 0, bs => some ([], bs)
  | 0, _ + 1, _ => none
  | fuel + 1, k + 1, bs =>
    (decodeHead bs).bind fun (head, bs) =>
      (decodeDocs fuel head.nested bs).bind fun (children, bs) =>
        (decodeDocs fuel k bs).map fun (docs, bs) => (.mk head children :: docs, bs)

def decode (bs : Bytes) : Option Doc :=
  match decodeDocs bs.length 1 bs with
  | some ([doc], []) => some doc
  | _ => none

lemma Node.docAll_eq (nodes : List Node) : docAll nodes = nodes.map doc := by
  induction nodes with
  | nil => rfl
  | cons node nodes ih => rw [docAll, ih, map_cons]

lemma Node.bytesAll_append (ns ms : List Node) :
    bytesAll (ns ++ ms) = bytesAll ns ++ bytesAll ms := by
  induction ns with
  | nil => rfl
  | cons node ns ih => rw [cons_append, bytesAll, ih, bytesAll, append_assoc]

lemma forall_byte {P : UInt8 → Prop} (h : ∀ n < 256, P (UInt8.ofNat n)) (c : UInt8) : P c := by
  have := h c.toNat c.toNat_lt
  rwa [UInt8.ofNat_toNat] at this

variable {k n : Nat} {bs rest : Bytes} {c : UInt8} {head : Head}

lemma loadSigned_eq_skipBytes {z : Int} (h : loadSigned k bs = some (z, rest)) :
    skipBytes k bs = some rest := by
  obtain ⟨⟨n, bs'⟩, hl, he⟩ := map_eq_some_iff.1 h
  obtain ⟨-, rfl⟩ := Prod.mk.inj he
  exact loadBe_eq_skipBytes hl

lemma takeBytes_eq_skipBytes {s : Bytes} (h : takeBytes n bs = some (s, rest)) :
    skipBytes n bs = some rest := by
  unfold takeBytes at h
  unfold skipBytes
  split at h
  next hl =>
    rw [if_pos hl]
    cases h
    rfl
  · cases h

/-- No values follow that belong to the one the byte begins. -/
def Hint.flat : Hint → Bool
  | .payload _ | .lengthPrefixed _ _ => true
  | .nested _ | .countPrefixed _ _ => false

/-- What the first byte of a value tells: its decoder's case, and how it is skipped. -/
lemma byte_cases (c : UInt8) :
    (mpTypeof c = .uint →
      (c = 0xcc ∧ mpParserHint c = .payload 1) ∨ (c = 0xcd ∧ mpParserHint c = .payload 2) ∨
      (c = 0xce ∧ mpParserHint c = .payload 4) ∨ (c = 0xcf ∧ mpParserHint c = .payload 8) ∨
      (c ≠ 0xcc ∧ c ≠ 0xcd ∧ c ≠ 0xce ∧ c ≠ 0xcf ∧ mpParserHint c = .payload 0)) ∧
    (mpTypeof c = .int →
      (c = 0xd0 ∧ mpParserHint c = .payload 1) ∨ (c = 0xd1 ∧ mpParserHint c = .payload 2) ∨
      (c = 0xd2 ∧ mpParserHint c = .payload 4) ∨ (c = 0xd3 ∧ mpParserHint c = .payload 8) ∨
      (c ≠ 0xd0 ∧ c ≠ 0xd1 ∧ c ≠ 0xd2 ∧ c ≠ 0xd3 ∧ mpParserHint c = .payload 0)) ∧
    (mpTypeof c = .str → (c = 0xd9 ∧ mpParserHint c = .lengthPrefixed 1 0) ∨
      (c = 0xda ∧ mpParserHint c = .lengthPrefixed 2 0) ∨
      (c = 0xdb ∧ mpParserHint c = .lengthPrefixed 4 0) ∨
      (c ≠ 0xd9 ∧ c ≠ 0xda ∧ c ≠ 0xdb ∧ mpParserHint c = .payload (c &&& 0x1f).toNat)) ∧
    (mpTypeof c = .array → (c &&& 0x40 = 0 ∧ mpParserHint c = .nested (c &&& 0xf).toNat) ∨
      (c &&& 0x40 ≠ 0 ∧ c &&& 1 = 0 ∧ mpParserHint c = .countPrefixed 2 1) ∨
      (c &&& 0x40 ≠ 0 ∧ c &&& 1 ≠ 0 ∧ mpParserHint c = .countPrefixed 4 1)) ∧
    (mpTypeof c = .map → (c = 0xde ∧ mpParserHint c = .countPrefixed 2 2) ∨
      (c = 0xdf ∧ mpParserHint c = .countPrefixed 4 2) ∨
      (c ≠ 0xde ∧ c ≠ 0xdf ∧ mpParserHint c = .nested (2 * (c &&& 0xf).toNat))) ∧
    (mpTypeof c = .array ∨ mpTypeof c = .map ∨ (mpParserHint c).flat = true) ∧
    (c &&& 0xf).toNat < 16 := by
  and_intros <;> revert c <;> exact forall_byte (by decide +kernel)

lemma skipHead_flat (hf : (mpParserHint c).flat = true)
    (h : skipHead (c :: bs) = some (n, rest)) : n = 0 := by
  rw [skipHead] at h
  cases hint : mpParserHint c with
  | payload k =>
    rw [hint] at h
    obtain ⟨bs', -, he⟩ := map_eq_some_iff.mp h
    exact (Prod.mk.inj he).1.symm
  | lengthPrefixed width extra =>
    rw [hint] at h
    obtain ⟨q, -, h⟩ := bind_eq_some_iff.mp h
    obtain ⟨bs', -, he⟩ := map_eq_some_iff.mp h
    exact (Prod.mk.inj he).1.symm
  | nested | countPrefixed => simp [hint, Hint.flat] at hf

lemma mpNext_of_skipHead (h : skipHead bs = some (0, rest)) : mpNext bs = some rest := by
  cases bs with
  | nil => cases h
  | cons c bs =>
    rw [mpNext, length_cons, skipValues_succ, h, bind_some]
    exact skipValues_zero _ _

lemma skipHead_payload (hint : mpParserHint c = .payload n) (h : skipBytes n bs = some rest) :
    skipHead (c :: bs) = some (0, rest) := by
  simp [skipHead, hint, h]

lemma skipHead_lengthPrefixed {width : Nat} {bs' : Bytes}
    (hint : mpParserHint c = .lengthPrefixed width 0) (hl : loadBe 0 width bs = some (n, bs'))
    (h : skipBytes n bs' = some rest) : skipHead (c :: bs) = some (0, rest) := by
  simp [skipHead, hint, hl, h]

lemma skipBytes_zero (bs : Bytes) : skipBytes 0 bs = some bs := by
  simp [skipBytes]

lemma skipHead_of_mpDecodeUint (ht : mpTypeof c = .uint)
    (h : mpDecodeUint (c :: bs) = some (n, rest)) : skipHead (c :: bs) = some (0, rest) := by
  rcases (byte_cases c).1 ht with ⟨rfl, hint⟩ | ⟨rfl, hint⟩ | ⟨rfl, hint⟩ | ⟨rfl, hint⟩ |
    ⟨h₁, h₂, h₃, h₄, hint⟩
  iterate 4 exact skipHead_payload hint (loadBe_eq_skipBytes h)
  · simp only [mpDecodeUint, h₁, h₂, h₃, h₄, if_false] at h
    split at h
    · cases h
    · obtain ⟨-, rfl⟩ := Prod.mk.inj (some.inj h)
      exact skipHead_payload hint (skipBytes_zero bs)

lemma skipHead_of_mpDecodeInt {z : Int} (ht : mpTypeof c = .int)
    (h : mpDecodeInt (c :: bs) = some (z, rest)) : skipHead (c :: bs) = some (0, rest) := by
  rcases (byte_cases c).2.1 ht with ⟨rfl, hint⟩ | ⟨rfl, hint⟩ | ⟨rfl, hint⟩ | ⟨rfl, hint⟩ |
    ⟨h₁, h₂, h₃, h₄, hint⟩
  iterate 4 exact skipHead_payload hint (loadSigned_eq_skipBytes h)
  · simp only [mpDecodeInt, h₁, h₂, h₃, h₄, if_false] at h
    split at h
    · cases h
    · obtain ⟨-, rfl⟩ := Prod.mk.inj (some.inj h)
      exact skipHead_payload hint (skipBytes_zero bs)

lemma skipHead_of_mpDecodeStr {s : Bytes} (ht : mpTypeof c = .str)
    (h : mpDecodeStr (c :: bs) = some (s, rest)) : skipHead (c :: bs) = some (0, rest) := by
  obtain ⟨⟨len, bs'⟩, hl, hta⟩ := bind_eq_some_iff.1 h
  have hs := takeBytes_eq_skipBytes hta
  rcases (byte_cases c).2.2.1 ht with ⟨rfl, hint⟩ | ⟨rfl, hint⟩ | ⟨rfl, hint⟩ | ⟨h₁, h₂, h₃, hint⟩
  iterate 3 exact skipHead_lengthPrefixed hint hl hs
  · simp only [mpDecodeStrl, h₁, h₂, h₃, if_false] at hl
    split at hl
    · cases hl
    · obtain ⟨rfl, rfl⟩ := Prod.mk.inj (some.inj hl)
      exact skipHead_payload hint hs

lemma loadBe_lt {acc : Nat} (h : loadBe acc k bs = some (n, rest)) : n < (acc + 1) * 256 ^ k := by
  induction k generalizing acc bs with
  | zero =>
    cases h
    omega
  | succ k ih =>
    cases bs with
    | nil => cases h
    | cons b bs =>
      have hb := b.toNat_lt
      calc n < (acc * 256 + b.toNat + 1) * 256 ^ k := ih h
        _ ≤ (acc + 1) * 256 * 256 ^ k := Nat.mul_le_mul_right _ (by omega)
        _ = (acc + 1) * 256 ^ (k + 1) := by ring

lemma skipHead_of_mpDecodeArray (ht : mpTypeof c = .array)
    (h : mpDecodeArray (c :: bs) = some (n, rest)) : skipHead (c :: bs) = some (n, rest) := by
  rcases (byte_cases c).2.2.2.1 ht with ⟨h₁, hint⟩ | ⟨h₁, h₂, hint⟩ | ⟨h₁, h₂, hint⟩
  · simp only [mpDecodeArray, h₁, if_true] at h
    simp only [skipHead, hint, h]
  all_goals
    simp only [mpDecodeArray, h₁, h₂, if_false, if_true] at h
    have hl := loadBe_lt h
    simp only [skipHead, hint, h, map_some, Nat.one_mul]
    rw [Nat.mod_eq_of_lt (by omega)]

lemma skipHead_of_mpDecodeMap (ht : mpTypeof c = .map)
    (h : mpDecodeMap (c :: bs) = some (n, rest)) (hn : n < 2 ^ 31) :
    skipHead (c :: bs) = some (2 * n, rest) := by
  rcases (byte_cases c).2.2.2.2.1 ht with ⟨rfl, hint⟩ | ⟨rfl, hint⟩ | ⟨h₁, h₂, hint⟩
  iterate 2
    have hl : loadBe 0 _ bs = some (n, rest) := h
    simp only [skipHead, hint, hl, map_some]
    rw [Nat.mod_eq_of_lt (by omega)]
  simp only [mpDecodeMap, h₁, h₂, if_false] at h
  split at h
  · cases h
  · obtain ⟨rfl, rfl⟩ := Prod.mk.inj (some.inj h)
    simp [skipHead, hint]

def Reads (bs rest : Bytes) : Head → Prop
  | .uint n => headType bs = some .uint ∧ mpDecodeUint bs = some (n, rest)
  | .int z => headType bs = some .int ∧ mpDecodeInt bs = some (z, rest)
  | .str s => headType bs = some .str ∧ mpDecodeStr bs = some (s, rest)
  | .array n => headType bs = some .array ∧ mpDecodeArray bs = some (n, rest)
  | .map n => headType bs = some .map ∧ mpDecodeMap bs = some (n, rest)
  | .other _ => ∃ t, headType bs = some t ∧ t ≠ .uint ∧ t ≠ .int ∧ t ≠ .str ∧ t ≠ .array ∧
      t ≠ .map ∧ mpNext bs = some rest

section

variable (h : decodeHead bs = some (head, rest))
include h

lemma reads_of_decodeHead : Reads bs rest head := by
  cases bs with
  | nil => cases h
  | cons c bs =>
    unfold decodeHead at h
    cases ht : mpTypeof c <;> simp only [ht] at h <;>
      obtain ⟨p, hp, he⟩ := map_eq_some_iff.1 h <;> cases he <;>
      simp [Reads, headType, ht, hp]

lemma skipHead_of_decodeHead
    (hs : ∀ n, head = .map n → n < 2 ^ 31) : skipHead bs = some (head.nested, rest) := by
  cases bs with
  | nil => cases h
  | cons c bs =>
    have hc := reads_of_decodeHead h
    cases head with
    | uint n => exact skipHead_of_mpDecodeUint (some.inj hc.1) hc.2
    | int z => exact skipHead_of_mpDecodeInt (some.inj hc.1) hc.2
    | str s => exact skipHead_of_mpDecodeStr (some.inj hc.1) hc.2
    | array n => exact skipHead_of_mpDecodeArray (some.inj hc.1) hc.2
    | map n => exact skipHead_of_mpDecodeMap (some.inj hc.1) hc.2 (hs n rfl)
    | other raw =>
      obtain ⟨t, ht, -, -, -, ha, hm, hn⟩ := hc
      obtain rfl : mpTypeof c = t := some.inj ht
      rw [mpNext, length_cons, skipValues_succ] at hn
      obtain ⟨⟨k, bs'⟩, hp, hn⟩ := bind_eq_some_iff.mp hn
      have hf := ((byte_cases c).2.2.2.2.2.1.resolve_left ha).resolve_left hm
      obtain rfl : k = 0 := skipHead_flat hf hp
      rw [hp, ← some.inj ((skipValues_zero _ _).symm.trans hn)]
      rfl

lemma skipValues_of_decodeHead
    (hsm : ∀ n, head = .map n → n < 2 ^ 31) (k : Nat) :
    skipValues bs.length (k + 1) bs = skipValues rest.length (k + head.nested) rest := by
  have hs := skipHead_of_decodeHead h hsm
  have hl : rest.length < bs.length := length_of_skipHead hs
  obtain ⟨fuel, hf⟩ : ∃ fuel, bs.length = fuel + 1 := ⟨bs.length - 1, by omega⟩
  rw [hf, skipValues_succ, hs, bind_some]
  exact skipValues_fuel (Nat.le_of_lt_succ (Nat.lt_of_lt_of_eq hl hf)) (Nat.le_refl _)

end

lemma ne_nil_of_decodeHead {raw : Bytes}
    (h : ∀ rest, decodeHead (raw ++ rest) = some (head, rest)) : raw ≠ [] := by
  rintro rfl
  cases h []

lemma length_of_mpNext (h : mpNext bs = some rest) : rest.length < bs.length :=
  length_of_skipValues h

lemma decodeHead_of_reads (h : Reads bs rest head) (ho : ∀ raw, head ≠ .other raw) :
    decodeHead bs = some (head, rest) := by
  cases bs with
  | nil => cases head <;> simp_all [Reads, headType]
  | cons c bs => cases head <;> simp_all [Reads, headType, decodeHead]

lemma decodeHead_encodeArray (hn : n < 2 ^ 32) (rest : Bytes) :
    decodeHead (mpEncodeArray n ++ rest) = some (.array n, rest) :=
  decodeHead_of_reads ⟨headType_array n rest, mpDecodeArray_encode hn rest⟩ (by simp)

lemma decodeHead_encodeMap (hn : n < 2 ^ 32) (rest : Bytes) :
    decodeHead (mpEncodeMap n ++ rest) = some (.map n, rest) :=
  decodeHead_of_reads ⟨headType_map n rest, mpDecodeMap_encode hn rest⟩ (by simp)

lemma fixstr_byte : ∀ n < 32, UInt8.ofNat (0xa0 ||| n) ≠ 0xd9 ∧ UInt8.ofNat (0xa0 ||| n) ≠ 0xda ∧
    UInt8.ofNat (0xa0 ||| n) ≠ 0xdb ∧
    ¬ (UInt8.ofNat (0xa0 ||| n) < 0xa0 ∨ UInt8.ofNat (0xa0 ||| n) > 0xbf) ∧
    (UInt8.ofNat (0xa0 ||| n) &&& 0x1f).toNat = n ∧ mpTypeof (UInt8.ofNat (0xa0 ||| n)) = .str := by
  decide

lemma mpDecodeStrl_encode (hn : n < 2 ^ 32) (rest : Bytes) :
    mpDecodeStrl (mpEncodeStrl n ++ rest) = some (n, rest) := by
  unfold mpEncodeStrl
  split
  · rename_i h
    obtain ⟨h₁, h₂, h₃, h₄, h₅, -⟩ := fixstr_byte n (by omega)
    rw [storeBe_one]
    simp only [singleton_append, mpDecodeStrl, h₁, h₂, h₃, h₄, h₅, if_false]
  · split
    · exact loadBe_storeBe_of_lt (by omega) rest
    · split
      · exact loadBe_storeBe_of_lt (by omega) rest
      · exact loadBe_storeBe_of_lt (by omega) rest

lemma headType_strl (n : Nat) (rest : Bytes) : headType (mpEncodeStrl n ++ rest) = some .str := by
  unfold mpEncodeStrl
  split
  · rename_i h
    rw [storeBe_one]
    exact congrArg some (fixstr_byte n (by omega)).2.2.2.2.2
  · split
    · rfl
    · split <;> rfl

lemma decodeHead_encodeStr {s : Bytes} (hs : s.length < 2 ^ 32) (rest : Bytes) :
    decodeHead (mpEncodeStrl s.length ++ s ++ rest) = some (.str s, rest) := by
  rw [append_assoc]
  refine decodeHead_of_reads ⟨headType_strl s.length (s ++ rest), ?_⟩ (by simp)
  rw [mpDecodeStr, mpDecodeStrl_encode hs, bind_some]
  simp [takeBytes]

lemma length_loadBe {acc : Nat} (h : loadBe acc k bs = some (n, rest)) :
    bs.length = k + rest.length := by
  induction k generalizing acc bs with
  | zero =>
    cases h
    omega
  | succ k ih =>
    cases bs with
    | nil => cases h
    | cons b bs =>
      have := ih h
      rw [length_cons]
      omega

lemma length_mpEncodeArray_le (h : Reads bs [] (.array n)) :
    (mpEncodeArray n).length ≤ bs.length := by
  obtain ⟨ht, h⟩ := h
  cases bs with
  | nil => cases h
  | cons c bs =>
    rw [length_cons]
    rcases (byte_cases c).2.2.2.1 (some.inj ht) with ⟨h₁, -⟩ | ⟨h₁, h₂, -⟩ | ⟨h₁, h₂, -⟩
    · simp only [mpDecodeArray, h₁, if_true] at h
      obtain ⟨rfl, -⟩ := Prod.mk.inj (some.inj h)
      have := (byte_cases c).2.2.2.2.2.2
      rw [mpEncodeArray, if_pos (by omega), length_storeBe]
      omega
    · simp only [mpDecodeArray, h₁, h₂, if_false, if_true] at h
      have hlt := loadBe_lt h
      have hl := length_loadBe h
      unfold mpEncodeArray
      split_ifs <;> simp [length_storeBe] <;> omega
    · simp only [mpDecodeArray, h₁, h₂, if_false] at h
      have hl := length_loadBe h
      unfold mpEncodeArray
      split_ifs <;> simp [length_storeBe] <;> omega

lemma length_mpEncodeMap_le (h : Reads bs [] (.map n)) : (mpEncodeMap n).length ≤ bs.length := by
  obtain ⟨ht, h⟩ := h
  cases bs with
  | nil => cases h
  | cons c bs =>
    rw [length_cons]
    rcases (byte_cases c).2.2.2.2.1 (some.inj ht) with ⟨rfl, -⟩ | ⟨rfl, -⟩ | ⟨h₁, h₂, -⟩
    · have hl : loadBe 0 2 bs = some (n, []) := h
      have hlt := loadBe_lt hl
      have hle := length_loadBe hl
      unfold mpEncodeMap
      split_ifs <;> simp [length_storeBe] <;> omega
    · have hl : loadBe 0 4 bs = some (n, []) := h
      have hle := length_loadBe hl
      unfold mpEncodeMap
      split_ifs <;> simp [length_storeBe] <;> omega
    · simp only [mpDecodeMap, h₁, h₂, if_false] at h
      split at h
      · cases h
      · obtain ⟨rfl, -⟩ := Prod.mk.inj (some.inj h)
        have := (byte_cases c).2.2.2.2.2.2
        rw [mpEncodeMap, if_pos (by omega), length_storeBe]
        omega

namespace Node

variable {node : Node} {nodes : List Node}

lemma length_bytes_pos (h : node.WF) : 0 < node.bytes.length := by
  obtain ⟨hr, -, -, -⟩ := h
  rw [bytes, length_append]
  have := length_pos_iff.2 (ne_nil_of_decodeHead hr)
  omega

lemma values_bytesAll (h : ∀ node ∈ nodes, node.WF) : Values nodes.length (bytesAll nodes) := by
  -- by induction on the number of bytes: a head takes at least one
  induction hn : (bytesAll nodes).length using Nat.strong_induction_on generalizing nodes with
  | _ n ih =>
    cases nodes with
    | nil => exact Values.nil
    | cons node nodes =>
      have hp := length_bytes_pos (h node mem_cons_self)
      rw [bytesAll, length_append] at hn
      have hr : Values nodes.length (bytesAll nodes) :=
        ih _ (by omega) (fun m hm => h m (mem_cons_of_mem _ hm)) rfl
      have hno : Values 1 node.bytes := by
        obtain ⟨hra, hl, hs, hc⟩ := h node mem_cons_self
        rename_i raw head children
        have hne := length_pos_iff.2 (ne_nil_of_decodeHead hra)
        rw [bytes, length_append] at hn
        have hi : Values children.length (bytesAll children) := ih _ (by omega) hc rfl
        intro k rest
        rw [bytes, append_assoc, Nat.add_comm,
          skipValues_of_decodeHead (hra _) hs, ← hl, Nat.add_comm]
        exact hi k rest
      rw [bytesAll, length_cons, Nat.add_comm]
      exact hno.append hr

lemma values_bytes (h : node.WF) : Values 1 node.bytes := by
  have ha : Values [node].length (bytesAll [node]) := values_bytesAll (by simpa using h)
  simpa [bytesAll] using ha

lemma mpNext_bytes (h : node.WF) (rest : Bytes) : mpNext (node.bytes ++ rest) = some rest :=
  (values_bytes h).check rest

lemma decodeDocs_bytesAll {fuel : Nat} (h : ∀ node ∈ nodes, node.WF)
    (hf : (bytesAll nodes).length ≤ fuel) (rest : Bytes) :
    decodeDocs fuel nodes.length (bytesAll nodes ++ rest) = some (docAll nodes, rest) := by
  induction fuel generalizing nodes rest with
  | zero =>
    cases nodes with
    | nil => rfl
    | cons node nodes =>
      have hp := length_bytes_pos (h node mem_cons_self)
      rw [bytesAll, length_append] at hf
      omega
  | succ fuel ih =>
    cases nodes with
    | nil => rfl
    | cons node nodes =>
      obtain ⟨hra, hl, -, hc⟩ := h node mem_cons_self
      rename_i raw head children
      have hn := length_pos_iff.2 (ne_nil_of_decodeHead hra)
      rw [bytesAll, bytes, length_append, length_append] at hf
      have hi := ih hc (by omega) (bytesAll nodes ++ rest)
      have hr := ih (fun m hm => h m (mem_cons_of_mem _ hm)) (by omega) rest
      rw [hl] at hi
      simp [bytesAll, bytes, decodeDocs, hra, hi, hr, docAll, doc]

lemma decode_bytes (h : node.WF) : decode node.bytes = some node.doc := by
  have hd : decodeDocs node.bytes.length 1 node.bytes = some ([node.doc], []) := by
    have ha : decodeDocs node.bytes.length [node].length (bytesAll [node] ++ []) =
        some (docAll [node], []) :=
      decodeDocs_bytesAll (by simpa using h) (by simp [bytesAll]) []
    simpa [bytesAll, docAll] using ha
  rw [decode, hd]

lemma bytes_eq (node : Node) : node.bytes = node.raw ++ bytesAll node.children := by
  cases node
  rfl

lemma WF.reads (h : node.WF) (rest : Bytes) :
    Reads (node.bytes ++ rest) (bytesAll node.children ++ rest) node.head := by
  obtain ⟨hr, -, -, -⟩ := h
  rw [bytes, append_assoc]
  exact reads_of_decodeHead (hr _)

lemma WF.length_raw_pos (h : node.WF) : 0 < node.raw.length := by
  obtain ⟨hr, -, -, -⟩ := h
  exact length_pos_iff.2 (ne_nil_of_decodeHead hr)

lemma WF.length_children (h : node.WF) : node.children.length = node.head.nested := by
  obtain ⟨-, hl, -, -⟩ := h
  exact hl

lemma WF.children (h : node.WF) : ∀ child ∈ node.children, child.WF := by
  obtain ⟨-, -, -, hc⟩ := h
  exact hc

lemma WF.keep (h : node.WF) (hl : nodes.length = node.children.length)
    (hn : ∀ m ∈ nodes, m.WF) : (Node.mk node.raw node.head nodes).WF := by
  obtain ⟨hr, ho, hs, -⟩ := h
  exact ⟨hr, hl.trans ho, hs, hn⟩

lemma bytesAll_split {i : Nat} (h : nodes[i]? = some node) :
    bytesAll (nodes.drop i) = node.bytes ++ bytesAll (nodes.drop (i + 1)) := by
  obtain ⟨hi, rfl⟩ := List.getElem?_eq_some_iff.1 h
  rw [drop_eq_getElem_cons hi, bytesAll]

lemma bytesAll_take_drop (nodes : List Node) (i : Nat) :
    bytesAll nodes = bytesAll (nodes.take i) ++ bytesAll (nodes.drop i) := by
  rw [← bytesAll_append, take_append_drop]

lemma bytesAll_set {i : Nat} (hi : i < nodes.length) (node : Node) : bytesAll (nodes.set i node) =
      bytesAll (nodes.take i) ++ (node.bytes ++ bytesAll (nodes.drop (i + 1))) := by
  rw [set_eq_take_append_cons_drop, if_pos hi, bytesAll_append, bytesAll]

lemma length_le_bytesAll (h : ∀ node ∈ nodes, node.WF) :
    nodes.length ≤ (bytesAll nodes).length := by
  induction nodes with
  | nil => exact Nat.le_refl _
  | cons node nodes ih =>
    have hp := length_bytes_pos (h node mem_cons_self)
    have hr := ih fun m hm => h m (mem_cons_of_mem _ hm)
    rw [bytesAll, length_append, length_cons]
    omega

end Node

end MsgPack
