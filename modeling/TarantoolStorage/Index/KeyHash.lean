import TarantoolStorage.Index.ComparatorsWithKey
import TarantoolStorage.Index.Hash

/-! Equal keys and their hashes. -/
namespace TarantoolStorage.Index

open Compare MsgPack Option Scalar

/-- The number that is hashed: the integer a number of another type is, or the number itself. -/
def Number.hashForm : Number → Int ⊕ Number
  | .integer i => .inl i.value
  | n =>
    match n.floating.bind Double.asInteger with
    | some z => .inl z
    | none => .inr n

/-- Two values that are not both numbers, or numbers that are hashed as one. -/
def SameForm (a b : Scalar) : Prop :=
  match a, b with
  | .number n, .number m => n.hashForm = m.hashForm
  | _, _ => True

/-- A collation hashes the strings alike that it takes for equal. -/
def Coll.HashConsistent (coll : Coll) : Prop :=
  ∀ s t, coll.cmp s t = 0 → coll.hash s = coll.hash t

def formBytes : Int ⊕ Number → Bytes
  | .inl z => encodeInteger z
  | .inr n => n.encode

section Numbers

variable {n m : Number} {z : Int}

lemma itemChunk_number (coll : Option Coll) (h : n.Canonical) :
    itemChunk coll n.encode (.number n) = formBytes n.hashForm := by
  cases n with
  | integer i =>
    cases i with
    | uint u => simp [itemChunk, Number.floating, Number.hashForm, formBytes, Number.encode,
        encodeInteger, Integer.value]
    | int i =>
      have hn : ¬0 ≤ i.toInt := not_le.2 h
      simp [itemChunk, Number.floating, Number.hashForm, formBytes, Number.encode,
        encodeInteger, Integer.value, hn]
  | float bits =>
    simp only [itemChunk, Number.hashForm]
    cases (Number.float bits).floating.bind Double.asInteger <;> rfl
  | double bits =>
    simp only [itemChunk, Number.hashForm]
    cases (Number.double bits).floating.bind Double.asInteger <;> rfl
  | decimal d => rfl

lemma Double.asInteger_bounds {x : Double} (h : x.asInteger = some z) :
    -2 ^ 63 ≤ z ∧ z < 2 ^ 64 := by
  unfold Double.asInteger at h
  split at h
  · split at h
    next hq =>
      cases h
      exact hq.2
    · cases h
  · cases h

/-- A form is an integer of 64 bits, or a number of another type. -/
lemma hashForm_cases (n : Number) : (∃ z, n.hashForm = .inl z ∧ -2 ^ 63 ≤ z ∧ z < 2 ^ 64) ∨
      (n.hashForm = .inr n ∧ ∀ i, n ≠ .integer i) := by
  cases n with
  | integer i =>
    refine .inl ⟨i.value, rfl, ?_⟩
    cases i with
    | uint u =>
      have := u.toNat_lt
      simp only [Integer.value]
      omega
    | int i =>
      have := i.le_toInt
      have := i.toInt_lt
      simp only [Integer.value]
      omega
  | float bits =>
    cases h : (Number.float bits).floating.bind Double.asInteger with
    | none => exact .inr ⟨by simp [Number.hashForm, h], by simp⟩
    | some z => exact .inl ⟨z, by simp [Number.hashForm, h], Double.asInteger_bounds h⟩
  | double bits =>
    cases h : (Number.double bits).floating.bind Double.asInteger with
    | none => exact .inr ⟨by simp [Number.hashForm, h], by simp⟩
    | some z => exact .inl ⟨z, by simp [Number.hashForm, h], Double.asInteger_bounds h⟩
  | decimal d => exact .inr ⟨rfl, by simp⟩

lemma headType_encodeInteger (h : -2 ^ 63 ≤ z) :
    headType (encodeInteger z) = some (if 0 ≤ z then .uint else .int) := by
  unfold encodeInteger
  split
  · simpa using headType_uint z.toNat []
  next hn => simpa using headType_int (not_le.1 hn) h []

lemma encodeInteger_inj {y : Int} (hy : -2 ^ 63 ≤ y ∧ y < 2 ^ 64) (hz : -2 ^ 63 ≤ z ∧ z < 2 ^ 64)
    (h : encodeInteger y = encodeInteger z) : y = z := by
  have hh := headType_encodeInteger hy.1
  rw [h, headType_encodeInteger hz.1] at hh
  unfold encodeInteger at h
  by_cases hyz : 0 ≤ y <;> by_cases hzz : 0 ≤ z <;> simp [hyz, hzz] at hh h
  · have := mpEncodeUint_inj (by omega) (by omega) h
    omega
  · exact mpEncodeInt_inj (by omega) hy.1 (by omega) hz.1 h

def Number.mpType : Number → MpType
  | .integer (.uint _) => .uint
  | .integer (.int _) => .int
  | .float _ => .float
  | .double _ => .double
  | .decimal _ => .ext

lemma headType_encode (h : ∀ i, n ≠ .integer i) : headType n.encode = some n.mpType := by
  cases n with
  | integer i => exact absurd rfl (h i)
  | float bits => rfl
  | double bits => rfl
  | decimal d => exact headType_extl 1 _ _

lemma encode_inj (hn : ∀ i, n ≠ .integer i) (hm : ∀ i, m ≠ .integer i)
    (h : n.encode = m.encode) : n = m := by
  have hh := headType_encode hn
  rw [h, headType_encode hm, some.injEq] at hh
  cases n with
  | integer i => exact absurd rfl (hn i)
  | float bits =>
    rcases m with (_ | _) | bits' | _ | _ <;> cases hh
    have hb := storeBe_inj bits.isLt bits'.isLt (List.cons.inj h).2
    rw [BitVec.eq_of_toNat_eq hb]
  | double bits =>
    rcases m with (_ | _) | _ | bits' | _ <;> cases hh
    have hb := storeBe_inj bits.isLt bits'.isLt (List.cons.inj h).2
    rw [BitVec.eq_of_toNat_eq hb]
  | decimal d =>
    rcases m with (_ | _) | _ | _ | e <;> cases hh
    rw [mpEncodeDecimal_inj h]

lemma encode_ne_encodeInteger (hn : ∀ i, n ≠ .integer i) (hz : -2 ^ 63 ≤ z) :
    n.encode ≠ encodeInteger z := by
  intro h
  have hh := headType_encode hn
  rw [h, headType_encodeInteger hz, some.injEq] at hh
  cases n with
  | integer i => exact hn i rfl
  | _ => split at hh <;> cases hh

/-- Numbers are hashed by the same bytes exactly when they have one form. -/
lemma formBytes_inj : formBytes n.hashForm = formBytes m.hashForm ↔ n.hashForm = m.hashForm := by
  refine ⟨fun h => ?_, fun h => by rw [h]⟩
  rcases hashForm_cases n with ⟨y, hy, hyb⟩ | ⟨hn, hni⟩ <;>
    rcases hashForm_cases m with ⟨z, hz, hzb⟩ | ⟨hm, hmi⟩
  · rw [hy, hz] at h ⊢
    rw [encodeInteger_inj hyb hzb h]
  · rw [hy, hm] at h
    exact absurd h.symm (encode_ne_encodeInteger hmi hyb.1)
  · rw [hn, hz] at h
    exact absurd h (encode_ne_encodeInteger hni hzb.1)
  · rw [hn, hm] at h ⊢
    rw [encode_inj hni hmi h]

end Numbers

section Keys

variable {stale : Decimal → Double → Int → Int} {keyDef : KeyDef} {part : KeyPart}
  {parts : List KeyPart} {a b : Scalar} {isNullable : Bool}

lemma compatible_nullable {type : FieldType} (h : fieldMpTypeIsCompatible type a isNullable) :
    fieldMpTypeIsCompatible type a true := by
  rcases a with _ | b | ((_ | _) | _ | _ | _) | s | s | u <;> cases type <;> first | rfl | exact h

lemma mpCompareStr_eq_zero {s t : Bytes} (h : mpCompareStr s t = 0) : s = t := by
  induction s generalizing t with
  | nil =>
    cases t with
    | nil => rfl
    | cons b t => simp at h
  | cons a s ih =>
    cases t with
    | nil => simp at h
    | cons b t =>
      rw [mpCompareStr_cons] at h
      split at h
      next he => rw [he, ih h]
      next hn => exact absurd (UInt8.toNat_inj.1 (compareResult_eq_zero.1 h)) hn

section

variable (ha : fieldMpTypeIsCompatible part.type a part.isNullable)
include ha

lemma equal_cases
    (hb : fieldMpTypeIsCompatible part.type b part.isNullable)
    (h : compareRow stale (part, a, b) = 0) :
    a = b ∨ (∃ n m, a = .number n ∧ b = .number m) ∨
      ∃ s t c, a = .str s ∧ b = .str t ∧ part.coll = some c ∧ c.cmp s t = 0 := by
  have ha' := compatible_nullable ha
  have hb' := compatible_nullable hb
  have hc : a.mpClass = b.mpClass := by
    by_contra hn
    rw [compareRow, compareValues_of_class_ne ha' hb' hn, compareResult_eq_zero] at h
    exact hn (MpClass.index_injective h)
  cases a with
  | nil => cases b <;> cases hc; exact .inl rfl
  | bool x =>
    cases b <;> cases hc
    next y =>
      rw [compareRow, compareValues_of_ne_nil (by simp) (by simp), tupleCompareField_bool ha,
        mpCompareBool, compareResult_eq_zero] at h
      cases x <;> cases y <;> first | exact .inl rfl | cases h
  | number n =>
    cases b <;> cases hc
    exact .inr (.inl ⟨n, _, rfl, rfl⟩)
  | str s =>
    cases b <;> cases hc
    rw [compareRow, compareValues_of_ne_nil (by simp) (by simp), tupleCompareField_str ha] at h
    split at h
    next hco => exact .inl (by rw [mpCompareStr_eq_zero h])
    next c hco => exact .inr (.inr ⟨s, _, c, rfl, rfl, hco, h⟩)
  | bin s =>
    cases b <;> cases hc
    rw [compareRow, compareValues_of_ne_nil (by simp) (by simp), tupleCompareField_bin ha] at h
    exact .inl (by rw [mpCompareStr_eq_zero h])
  | uuid u =>
    cases b <;> cases hc
    rw [compareRow, compareValues_of_ne_nil (by simp) (by simp), tupleCompareField_uuid ha,
      mpCompareUuid, memcmp_eq_mpCompareStr (uuid_length ha) (uuid_length hb)] at h
    exact .inl (by rw [mpCompareStr_eq_zero h])

/-- Equal values of a part are hashed by the same bytes exactly if they have one form. -/
lemma itemChunk_eq_iff
    (hb : fieldMpTypeIsCompatible part.type b part.isNullable) (hca : a.Canonical)
    (hcb : b.Canonical) (hco : ∀ c, part.coll = some c → c.HashConsistent)
    (h : compareRow stale (part, a, b) = 0) :
    itemChunk part.coll a.encode a = itemChunk part.coll b.encode b ↔ SameForm a b := by
  rcases equal_cases ha hb h with rfl | ⟨n, m, rfl, rfl⟩ | ⟨s, t, c, rfl, rfl, hc, hs⟩
  · refine iff_of_true rfl ?_
    cases a <;> simp [SameForm]
  · change itemChunk _ n.encode _ = itemChunk _ m.encode _ ↔ _
    rw [itemChunk_number _ hca, itemChunk_number _ hcb]
    exact formBytes_inj
  · refine iff_of_true ?_ trivial
    simpa [itemChunk, hc] using hco c hc s t hs

end

lemma lexicographic_eq_zero {rs : List Row} :
    lexicographic stale rs = 0 ↔ ∀ row ∈ rs, compareRow stale row = 0 := by
  induction rs with
  | nil => simp [lexicographic, lex]
  | cons row rs ih =>
    rw [lexicographic_cons, List.forall_mem_cons, ← ih]
    by_cases h : compareRow stale row = 0 <;> simp [h]

def keyChunks : List KeyPart → List Scalar → List Bytes
  | part :: parts, value :: key => itemChunk part.coll value.encode value :: keyChunks parts key
  | _, _ => []

lemma keyHashSlowpath_eq {key : List Scalar} (h : key.length = parts.length) :
    keyHashSlowpath parts (key.map item) = some (keyChunks parts key) := by
  induction parts generalizing key with
  | nil =>
    cases key with
    | nil => rfl
    | cons value key => cases h
  | cons part parts ih =>
    obtain ⟨value, key, rfl⟩ := List.exists_cons_of_length_eq_add_one h
    have hf : tupleHashField part.coll (value.item :: key.map item) =
        some (itemChunk part.coll value.encode value, key.map item) :=
      tupleHashField_scalar rfl
    rw [List.map_cons, keyHashSlowpath, hf]
    simp [ih (by simpa using h), keyChunks]

/-- A full key of canonical values that its parts admit. -/
structure FullKey (keyDef : KeyDef) (key : List Scalar) : Prop where
  length_eq : key.length = keyDef.parts.length
  fits : KeyFits keyDef.parts (key.map item)
  canonical : ∀ value ∈ key, value.Canonical

/-- Keys of values that the parts admit, equal part by part. -/
inductive EqualKeys (stale : Decimal → Double → Int → Int) :
    List KeyPart → List Scalar → List Scalar → Prop
  | nil : EqualKeys stale [] [] []
  | cons {part : KeyPart} {parts : List KeyPart} {a b : Scalar} {k l : List Scalar}
    (ha : fieldMpTypeIsCompatible part.type a part.isNullable)
    (hb : fieldMpTypeIsCompatible part.type b part.isNullable)
    (h : compareRow stale (part, a, b) = 0) (rest : EqualKeys stale parts k l) :
    EqualKeys stale (part :: parts) (a :: k) (b :: l)

lemma equalKeys_of_rows {k l : List Scalar} (hk : KeyFits parts (k.map item))
    (hl : KeyFits parts (l.map item)) (hlk : k.length = parts.length)
    (hll : l.length = parts.length)
    (h : ∀ row ∈ rows parts (k.map item) (l.map item), compareRow stale row = 0) :
    EqualKeys stale parts k l := by
  induction parts generalizing k l with
  | nil =>
    obtain rfl := List.length_eq_zero_iff.1 hlk
    obtain rfl := List.length_eq_zero_iff.1 hll
    exact .nil
  | cons part parts ih =>
    obtain ⟨a, k, rfl⟩ := List.exists_cons_of_length_eq_add_one hlk
    obtain ⟨b, l, rfl⟩ := List.exists_cons_of_length_eq_add_one hll
    obtain ⟨⟨v, hv, hva⟩, hk⟩ := hk
    obtain ⟨⟨w, hw, hwb⟩, hl⟩ := hl
    cases hv
    cases hw
    simp only [List.map_cons, rows, List.forall_mem_cons] at h
    exact .cons hva hwb h.1 (ih hk hl (by simpa using hlk) (by simpa using hll) h.2)

lemma keyChunks_eq_iff {k l : List Scalar} (h : EqualKeys stale parts k l)
    (hck : ∀ value ∈ k, value.Canonical) (hcl : ∀ value ∈ l, value.Canonical)
    (hc : ∀ part ∈ parts, ∀ c, part.coll = some c → c.HashConsistent) :
    keyChunks parts k = keyChunks parts l ↔ ∀ p ∈ k.zip l, SameForm p.1 p.2 := by
  induction h with
  | nil => simp
  | cons ha hb h _ ih =>
    rw [List.forall_mem_cons] at hck hcl hc
    have hh := itemChunk_eq_iff ha hb hck.1 hcl.1 hc.1 h
    simp only [keyChunks, List.cons.injEq, List.zip_cons_cons, List.forall_mem_cons, hh,
      ih hck.2 hcl.2 hc.2]

/-- Equal keys of unsigned integers and plain strings are the same. -/
lemma keys_eq {k l : List Scalar} (h : EqualKeys stale parts k l)
    (hpl : ∀ p ∈ parts, p.coll = none ∧ (p.type = .unsigned ∨ p.type = .string)) : k = l := by
  induction h with
  | nil => rfl
  | cons hva hwb h _ ih =>
    rw [List.forall_mem_cons] at hpl
    rw [ih hpl.2]
    congr 1
    obtain ⟨hco, ht⟩ := hpl.1
    rcases equal_cases hva hwb h with he | ⟨n, m, rfl, rfl⟩ | ⟨s, t, c, rfl, rfl, hc, -⟩
    · exact he
    · -- numbers of such a part are unsigned
      rcases ht with ht | ht
      · rw [ht] at hva hwb
        rcases n with (x | _) | _ | _ | _ <;> try cases hva
        rcases m with (y | _) | _ | _ | _ <;> try cases hwb
        have hcm : compareResult x.toNat y.toNat = 0 := by
          simpa [compareRow, compareValues, itemValue, item, ht, tupleCompareField] using h
        rw [UInt64.toNat_inj.1 (compareResult_eq_zero.1 hcm)]
      · rw [ht] at hva
        rcases n with (_ | _) | _ | _ | _ <;> cases hva
    · rw [hco] at hc
      cases hc

lemma types_of_hashArr : ∀ types ∈ hashArr, ∀ type ∈ types, type = .unsigned ∨ type = .string := by
  decide

lemma plain_of_precompiledHash (h : keyDef.precompiledHash) : keyDef.isNullable = false ∧
      ∀ p ∈ keyDef.parts, p.coll = none ∧ (p.type = .unsigned ∨ p.type = .string) := by
  simp only [KeyDef.precompiledHash, Bool.and_eq_true, decide_eq_true_eq, Bool.not_eq_true'] at h
  refine ⟨h.1.1.1.1, fun p hp => ⟨?_, types_of_hashArr _ h.2 p.type (List.mem_map_of_mem hp)⟩⟩
  have := List.any_eq_false.1 h.1.2 p hp
  simpa using this

/-- Equal keys hash alike, under every hash function, exactly when the numbers in their
corresponding parts have one form. -/
theorem key_hash_eq_iff {k l : List Scalar} (hk : FullKey keyDef k) (hl : FullKey keyDef l)
    (hcoll : ∀ part ∈ keyDef.parts, ∀ c, part.coll = some c → c.HashConsistent)
    {kHint lHint : Nat}
    (h : keyCompare stale keyDef kHint lHint (k.map item) (l.map item) = some 0) :
    (∀ H, keyHash H keyDef (k.map item) = keyHash H keyDef (l.map item)) ↔
      ∀ p ∈ k.zip l, SameForm p.1 p.2 := by
  have hr : ∀ row ∈ rows keyDef.parts (k.map item) (l.map item), compareRow stale row = 0 := by
    apply lexicographic_eq_zero.1
    unfold keyCompare hinted at h
    split at h
    next hn => exact absurd (some.inj h) hn
    · rw [List.take_of_length_le (by simp [hk.length_eq, hl.length_eq])] at h
      have he := @keyCompareParts_eq stale keyDef.parts keyDef.isNullable _ _ [] [] hk.fits
        hl.fits (by simp [hk.length_eq]) (by simp [hl.length_eq]) fun p hp => isNullable_of_part hp
      rw [List.append_nil, List.append_nil, h] at he
      exact (some.inj he).symm
  have he := equalKeys_of_rows hk.fits hl.fits hk.length_eq hl.length_eq hr
  by_cases hpr : keyDef.precompiledHash
  · obtain rfl := keys_eq he (plain_of_precompiledHash hpr).2
    refine iff_of_true (fun _ => rfl) fun p hp => ?_
    obtain ⟨v, -, rfl⟩ : ∃ v ∈ k, p = (v, v) := by
      rw [List.zip_eq_zipWith, List.zipWith_self] at hp
      obtain ⟨v, hv, rfl⟩ := List.mem_map.1 hp
      exact ⟨v, hv, rfl⟩
    cases v <;> simp [SameForm]
  · rw [← keyChunks_eq_iff he hk.canonical hl.canonical hcoll]
    simp only [keyHash, hpr, Bool.false_eq_true, if_false, keyHashSlowpath_eq hk.length_eq,
      keyHashSlowpath_eq hl.length_eq]
    rw [← some.injEq, ← hash_eq_iff]
    rfl

end Keys

def oneNumber : KeyDef where
  parts := [⟨0, .number, none, false, []⟩]
  uniquePartCount := 1
  minFieldCount := 1
  unique_pos := by decide
  unique_le := by decide
  extended_not_null := by simp

/-- The integer 1 and the decimal 1 are equal keys with different hashes. -/
theorem key_hash_of_equal_decimal :
    let one : List Scalar := [.number (.integer (.uint 1))]
    let decimalOne : List Scalar := [.number (.decimal (decimalFromInt 1 (by decide)))]
    (∀ stale, keyCompare stale oneNumber hintNone hintNone (one.map item)
      (decimalOne.map item) = some 0) ∧
    keyHash pMurHash oneNumber (one.map item) ≠
      keyHash pMurHash oneNumber (decimalOne.map item) := by
  refine ⟨fun stale => ?_, by decide +kernel⟩
  have he : mpCompareNumber stale (.integer (.uint 1))
      (.decimal (decimalFromInt 1 (by decide))) = 0 := by
    simp only [mpCompareNumber, mpCompareDecimalAnyNumber]
    decide +kernel
  simpa [keyCompare, hinted, keyCompareParts, oneNumber, scalarAt, item, comparePart,
    tupleCompareField, KeyDef.isNullable, mpNext, skipItems, Kind.nested] using he

/-- The integer 1 and the double 1.0 are equal keys that hash alike. -/
theorem key_hash_of_equal_double :
    let one : List Scalar := [.number (.integer (.uint 1))]
    let doubleOne : List Scalar := [.number (.double 0x3ff0000000000000#64)]
    ∀ H, keyHash H oneNumber (one.map item) = keyHash H oneNumber (doubleOne.map item) := by
  intro one doubleOne
  have hco : keyCompare (fun _ _ _ => 0) oneNumber hintNone hintNone (one.map item)
      (doubleOne.map item) = some 0 := by
    decide +kernel
  have ho : FullKey oneNumber one := by
    refine ⟨rfl, ⟨⟨_, rfl, rfl⟩, trivial⟩, fun value h => ?_⟩
    obtain rfl := List.mem_singleton.1 h
    trivial
  have hd : FullKey oneNumber doubleOne := by
    refine ⟨rfl, ⟨⟨_, rfl, rfl⟩, trivial⟩, fun value h => ?_⟩
    obtain rfl := List.mem_singleton.1 h
    trivial
  refine (key_hash_eq_iff ho hd ?_ hco).2 ?_
  · rintro part (⟨⟩ | ⟨_, ⟨⟩⟩) c hc
    cases hc
  · rintro p (⟨⟩ | ⟨_, ⟨⟩⟩)
    change Number.hashForm _ = Number.hashForm _
    decide +kernel

end TarantoolStorage.Index
