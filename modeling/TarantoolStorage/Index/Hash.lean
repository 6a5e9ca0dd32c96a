import TarantoolStorage.Index.Tuple

/-! Hashes of keys and tuples (box/tuple_hash.cc, third_party/PMurHash.c). -/
namespace TarantoolStorage.Index

open Compare MsgPack List

/-- A hash function that is fed byte strings one after another. -/
structure Hasher where
  State : Type
  seed : State
  process : State → Bytes → State
  result : State → Nat → UInt32

/-- The hash of the byte strings fed to it, of their total size. -/
def Hasher.hash (H : Hasher) (chunks : List Bytes) : UInt32 :=
  H.result (chunks.foldl H.process H.seed) ((chunks.map List.length).sum % 2 ^ 32)

namespace PMurHash

def rotl32 (x : UInt32) (r : UInt32) : UInt32 := x <<< r ||| x >>> (32 - r)

def doBlock (h1 k1 : UInt32) : UInt32 :=
  rotl32 (h1 ^^^ rotl32 (k1 * 0xcc9e2d51) 15 * 0x1b873593) 13 * 5 + 0xe6546b64

/-- One byte appended to the carry: the running hash, the carry and the bytes in it. -/
def doByte (s : UInt32 × UInt32 × Nat) (b : UInt8) : UInt32 × UInt32 × Nat :=
  let c := s.2.1 >>> 8 ||| b.toUInt32 <<< 24
  if s.2.2 + 1 = 4 then (doBlock s.1 c, c, 0) else (s.1, c, s.2.2 + 1)

/-- `PMurHash32_Process`. Whole words are taken byte by byte here. -/
def process (s : UInt32 × UInt32) (bytes : Bytes) : UInt32 × UInt32 :=
  let (h1, c, n) := bytes.foldl doByte (s.1, s.2, (s.2 &&& 3).toNat)
  (h1, c &&& 0xffffff00 ||| UInt32.ofNat n)

def result (s : UInt32 × UInt32) (totalLength : Nat) : UInt32 :=
  let n := s.2 &&& 3
  let h := if n ≠ 0 then s.1 ^^^ rotl32 (s.2 >>> ((4 - n) * 8) * 0xcc9e2d51) 15 * 0x1b873593
    else s.1
  let h := h ^^^ UInt32.ofNat totalLength
  let h := (h ^^^ h >>> 16) * 0x85ebca6b
  let h := (h ^^^ h >>> 13) * 0xc2b2ae35
  h ^^^ h >>> 16

end PMurHash

def pMurHash : Hasher :=
  ⟨UInt32 × UInt32, (13, 0), PMurHash.process, PMurHash.result⟩

def Double.asInteger (x : Double) : Option Int :=
  match x.exact with
  | some q => if q.den = 1 ∧ -2 ^ 63 ≤ q.num ∧ q.num < 2 ^ 64 then some q.num else none
  | none => none

/-- The bytes a scalar is hashed by, and those of the item where it is not normalised. -/
def itemChunk (coll : Option Coll) (raw : Bytes) : Scalar → Bytes
  | .str s =>
    match coll with
    | some coll => coll.hash s
    | none => s
  | .number n =>
    match n.floating.bind Double.asInteger with
    | some z => encodeInteger z
    | none => raw
  | _ => raw

/-- `tuple_hash_field`: the bytes hashed and the position after the field. -/
def tupleHashField (coll : Option Coll) : Position → Option (Bytes × Position)
  | [] => none
  | item :: rest =>
    match item.kind with
    | .scalar value => some (itemChunk coll item.raw value, rest)
    | _ => (mpNext (item :: rest)).map fun next => (valueBytes 1 (item :: rest), next)

def tupleHashNull : Bytes := [0xc0]

section SlowPath

variable (keyDef : KeyDef) (t : Tuple)

/-- One part of the slow path, at the position taken for it. -/
def hashPart (part : KeyPart) (atEnd : Bool) (field : Option Position) :
    Option (Bytes × Option Position) :=
  if keyDef.hasOptionalParts ∧ (field = none ∨ atEnd ∧ field = some []) then
    some (tupleHashNull, field)
  else
    field.bind fun pos => (tupleHashField part.coll pos).map fun (chunk, next) => (chunk, some next)

/-- The loop over the parts after the first: a part of the next field is taken to stand where the
previous one ended. -/
def tupleHashLoop (prevFieldno : Nat) (field : Option Position) : List KeyPart → Option (List Bytes)
  | [] => some []
  | part :: parts =>
    let field := if prevFieldno + 1 ≠ part.fieldno then lookup keyDef t part else field
    (hashPart keyDef part true field).bind fun (chunk, field) =>
      (tupleHashLoop part.fieldno field parts).map (chunk :: ·)

def tupleHashSlowpath : Option (List Bytes) :=
  match keyDef.parts with
  | [] => none
  | part :: parts =>
    (hashPart keyDef part false (lookup keyDef t part)).bind fun (chunk, field) =>
      (tupleHashLoop keyDef t part.fieldno field parts).map (chunk :: ·)

end SlowPath

def keyHashSlowpath : List KeyPart → Position → Option (List Bytes)
  | [], _ => some []
  | part :: parts, key =>
    (tupleHashField part.coll key).bind fun (chunk, key) =>
      (keyHashSlowpath parts key).map (chunk :: ·)

/-- `field_hash`: strings without their header, other values with it. -/
def fieldHash (type : FieldType) : Position → Option (Bytes × Position)
  | [] => none
  | item :: rest =>
    match type, item.kind with
    | .string, .scalar (.str s) => some (s, rest)
    | .string, _ => none
    | _, _ => (mpNext (item :: rest)).map fun next => (valueBytes 1 (item :: rest), next)

def fieldsHash : List FieldType → Position → Option (List Bytes)
  | [], _ => some []
  | type :: types, pos =>
    (fieldHash type pos).bind fun (chunk, pos) => (fieldsHash types pos).map (chunk :: ·)

def hashUnsigned : Position → Option UInt32
  | ⟨_, .scalar (.number (.integer (.uint val)))⟩ :: _ =>
    some (if val.toNat ≤ 0xffffffff then val.toUInt32
      else (val >>> 33 ^^^ val ^^^ val <<< 11).toUInt32)
  | _ => none

def hashArr : List (List FieldType) :=
  [[.unsigned], [.string], [.unsigned, .unsigned], [.string, .unsigned], [.unsigned, .string],
    [.string, .string],
    [.unsigned, .unsigned, .unsigned],
    [.string, .unsigned, .unsigned],
    [.unsigned, .string, .unsigned],
    [.string, .string, .unsigned],
    [.unsigned, .unsigned, .string],
    [.string, .unsigned, .string],
    [.unsigned, .string, .string],
    [.string, .string, .string]]

/-- `key_def_set_hash_func` finds a precompiled pair of functions. -/
def KeyDef.precompiledHash (keyDef : KeyDef) : Bool :=
  !keyDef.isNullable && !keyDef.hasJsonPaths && consecutive (keyDef.parts.map (·.fieldno)) &&
    !keyDef.hasCollation && keyDef.parts.map (·.type) ∈ hashArr

def tupleHash (H : Hasher) (keyDef : KeyDef) (t : Tuple) : Option UInt32 :=
  if keyDef.precompiledHash then
    (keyDef.parts.head?.bind t.fieldByPart).bind fun pos =>
      if keyDef.parts.map (·.type) = [.unsigned] then hashUnsigned pos
      else (fieldsHash (keyDef.parts.map (·.type)) pos).map H.hash
  else (tupleHashSlowpath keyDef t).map H.hash

def keyHash (H : Hasher) (keyDef : KeyDef) (key : Position) : Option UInt32 :=
  if keyDef.precompiledHash then
    if keyDef.parts.map (·.type) = [.unsigned] then hashUnsigned key
    else (fieldsHash (keyDef.parts.map (·.type)) key).map H.hash
  else (keyHashSlowpath keyDef.parts key).map H.hash

def partChunk (t : Tuple) (part : KeyPart) : Bytes :=
  match (partItem t part).kind with
  | .scalar value => itemChunk part.coll (partItem t part).raw value
  | _ => (partItem t part).raw

section Valid

variable {keyDef : KeyDef} {t : Tuple} {part : KeyPart} {parts : List KeyPart}

lemma part_cases (ht : t.ValidFor keyDef) (hp : part ∈ keyDef.parts) :
    (t.fieldByPart part = none ∧ partChunk t part = tupleHashNull) ∨
      ∃ item value rest, t.fieldByPart part = some (item :: rest) ∧ item.kind = .scalar value ∧
        partItem t part = item ∧ partChunk t part = itemChunk part.coll item.raw value := by
  rcases ht.part_cases hp with ⟨hn, hi, -⟩ | ⟨item, value, rest, hs, hk, hi, -⟩
  · exact .inl ⟨hn, by simp [partChunk, hi, nilItem, itemChunk, tupleHashNull]⟩
  · exact .inr ⟨item, value, rest, hs, hk, hi, by simp [partChunk, hi, hk]⟩

lemma tupleHashField_scalar {coll : Option Coll} {item : Item Scalar} {value : Scalar}
    {rest : Position} (h : item.kind = .scalar value) :
    tupleHashField coll (item :: rest) = some (itemChunk coll item.raw value, rest) := by
  simp [tupleHashField, h]

/-- The key of a valid tuple is hashed by the bytes of its parts. -/
lemma keyHashSlowpath_extract (ht : t.ValidFor keyDef) (hpa : ∀ part ∈ parts, part ∈ keyDef.parts) :
    keyHashSlowpath parts (parts.map (partItem t)) = some (parts.map (partChunk t)) := by
  induction parts with
  | nil => rfl
  | cons part parts ih =>
    have hr := ih fun p hp => hpa p (mem_cons_of_mem _ hp)
    have hf : tupleHashField part.coll ((part :: parts).map (partItem t)) =
        some (partChunk t part, parts.map (partItem t)) := by
      rcases part_cases ht (hpa part mem_cons_self) with
        ⟨hn, hc⟩ | ⟨item, value, rest, -, hk, hi, hc⟩
      · rw [hc]
        simp [partItem, hn, nilItem, tupleHashField, itemChunk, tupleHashNull]
      · rw [hc, map_cons, hi]
        exact tupleHashField_scalar hk
    rw [keyHashSlowpath, hf]
    simp [hr]

end Valid

section Found

variable (keyDef : KeyDef) (t : Tuple)

def afterPart (part : KeyPart) (atEnd : Bool) (field : Option Position) : Option Position :=
  (hashPart keyDef part atEnd field).bind Prod.snd

/-- The parts of the loop with the positions taken for them. -/
def foundFrom (prevFieldno : Nat) (field : Option Position) :
    List KeyPart → List (KeyPart × Option Position)
  | [] => []
  | part :: parts =>
    let field := if prevFieldno + 1 ≠ part.fieldno then lookup keyDef t part else field
    (part, field) :: foundFrom part.fieldno (afterPart keyDef part true field) parts

/-- The parts with the positions the slow path takes for them. -/
def found : List (KeyPart × Option Position) :=
  match keyDef.parts with
  | [] => []
  | part :: parts =>
    (part, lookup keyDef t part) ::
      foundFrom keyDef t part.fieldno (afterPart keyDef part false (lookup keyDef t part)) parts

/-- What stands at the position taken for a part hashes as the part does. -/
def Aligned : Prop :=
  ∀ p ∈ found keyDef t, ∃ next, hashPart keyDef p.1 true p.2 = some (partChunk t p.1, next)

end Found

/-- Parts of neighbouring fields that follow one another have no paths. -/
def NoPathBetweenNeighbours (keyDef : KeyDef) : Prop :=
  keyDef.parts.IsChain fun p q => p.fieldno + 1 = q.fieldno → p.path = [] ∧ q.path = []

section Loop

variable {keyDef : KeyDef} {t : Tuple} {part : KeyPart} {parts : List KeyPart}
  {field : Option Position}

lemma tupleHashLoop_eq_iff {prevFieldno : Nat} :
    tupleHashLoop keyDef t prevFieldno field parts = some (parts.map (partChunk t)) ↔
      ∀ p ∈ foundFrom keyDef t prevFieldno field parts,
        ∃ next, hashPart keyDef p.1 true p.2 = some (partChunk t p.1, next) := by
  induction parts generalizing prevFieldno field with
  | nil => simp [tupleHashLoop, foundFrom]
  | cons part parts ih =>
    simp only [tupleHashLoop, foundFrom, forall_mem_cons, ← ih, afterPart]
    generalize (if prevFieldno + 1 ≠ part.fieldno then lookup keyDef t part else field) = pos
    cases hp : hashPart keyDef part true pos with
    | none => simp
    | some r =>
      obtain ⟨chunk, next⟩ := r
      simp only [Option.bind_some, Option.map_eq_some_iff, map_cons, List.cons.injEq,
        Option.some.injEq, Prod.mk.injEq]
      constructor
      · rintro ⟨chunks, hl, rfl, rfl⟩
        exact ⟨⟨next, rfl, rfl⟩, hl⟩
      · rintro ⟨⟨_, rfl, _⟩, hl⟩
        exact ⟨_, hl, rfl, rfl⟩

section

variable (ht : t.ValidFor keyDef)
include ht

/-- At its position a part is hashed as it should be, and the position after it is known. -/
lemma hashPart_of_stands (hp : part ∈ keyDef.parts)
    (h : Stands t part field) :
    ∃ next, hashPart keyDef part true field = some (partChunk t part, next) ∧
      (∀ item rest, t.fieldByPart part = some (item :: rest) → next = some rest) ∧
      (t.fieldByPart part = none → next = none ∨ next = some []) := by
  rcases part_cases ht hp with ⟨hn, hc⟩ | ⟨item, value, rest, hs, hk, -, hc⟩
  · have ho := hasOptionalParts_of_absent ht hp hn
    have he : field = none ∨ field = some [] := by
      rcases h with h | h
      · exact .inl (h.trans hn)
      · exact .inr h.2
    refine ⟨field, ?_, fun item rest hs => ?_, fun _ => he⟩
    · rw [hashPart, if_pos ⟨ho, he.imp_right fun h => ⟨rfl, h⟩⟩, hc]
    · rw [hn] at hs
      cases hs
  · obtain rfl : field = some (item :: rest) := by
      rcases h with h | h
      · exact h.trans hs
      · rw [hs] at h
        cases h.1
    refine ⟨some rest, ?_, fun item' rest' h => ?_, fun hn => ?_⟩
    · rw [hashPart, if_neg (by simp), hc]
      simp [tupleHashField_scalar hk]
    · rw [hs] at h
      cases h
      rfl
    · rw [hs] at hn
      cases hn

lemma foundFrom_stands (hpr : part ∈ keyDef.parts)
    (hpa : ∀ p ∈ parts, p ∈ keyDef.parts)
    (hc : (part :: parts).IsChain fun p q => p.fieldno + 1 = q.fieldno → p.path = [] ∧ q.path = [])
    {next : Option Position}
    (hso : ∀ item rest, t.fieldByPart part = some (item :: rest) → next = some rest)
    (hn : t.fieldByPart part = none → next = none ∨ next = some []) :
    ∀ p ∈ foundFrom keyDef t part.fieldno next parts, p.1 ∈ keyDef.parts ∧ Stands t p.1 p.2 := by
  induction parts generalizing part next with
  | nil => simp [foundFrom]
  | cons q parts ih =>
    rw [isChain_cons_cons] at hc
    have hq : q ∈ keyDef.parts := hpa q mem_cons_self
    have hs : Stands t q (if part.fieldno + 1 ≠ q.fieldno then lookup keyDef t q else next) := by
      split
      · exact .inl (lookup_eq hq)
      next h =>
        obtain ⟨hpt, hqa⟩ := hc.1 (not_not.1 h)
        exact stands_next ht hpr hpt hqa (not_not.1 h) hso hn
    obtain ⟨next', hh, hso', hn'⟩ := hashPart_of_stands ht hq hs
    simp only [foundFrom, forall_mem_cons]
    refine ⟨⟨hq, hs⟩, ?_⟩
    have ha : afterPart keyDef q true
        (if part.fieldno + 1 ≠ q.fieldno then lookup keyDef t q else next) = next' := by
      rw [afterPart, hh]
      rfl
    rw [ha]
    exact ih hq (fun p hp => hpa p (mem_cons_of_mem _ hp)) hc.2 hso' hn'

lemma hashPart_first (hp : part ∈ keyDef.parts) :
    hashPart keyDef part false (lookup keyDef t part) =
      hashPart keyDef part true (lookup keyDef t part) := by
  rw [lookup_eq hp]
  rcases part_cases ht hp with ⟨hn, -⟩ | ⟨item, value, rest, hs, -⟩
  · simp [hashPart, hn]
  · simp [hashPart, hs]

lemma aligned_of_noPath (h : NoPathBetweenNeighbours keyDef) :
    Aligned keyDef t := by
  intro p hp
  have hs : p.1 ∈ keyDef.parts ∧ Stands t p.1 p.2 := by
    unfold found at hp
    unfold NoPathBetweenNeighbours at h
    split at hp
    · cases hp
    next part parts he =>
      have hpa : part ∈ keyDef.parts := by simp [he]
      have hf : Stands t part (lookup keyDef t part) := .inl (lookup_eq hpa)
      obtain ⟨next, hh, hso, hn⟩ := hashPart_of_stands ht hpa hf
      rcases mem_cons.1 hp with rfl | hp
      · exact ⟨hpa, hf⟩
      · rw [afterPart, hashPart_first ht hpa, hh] at hp
        refine foundFrom_stands ht hpa (fun q hq => by simp [he, hq]) ?_ hso hn p hp
        rwa [he] at h
  obtain ⟨next, hh, -⟩ := hashPart_of_stands ht hs.1 hs.2
  exact ⟨next, hh⟩

/-- The slow path reads the bytes of the parts exactly when they are aligned. -/
lemma tupleHashSlowpath_eq_iff :
    tupleHashSlowpath keyDef t = some (keyDef.parts.map (partChunk t)) ↔ Aligned keyDef t := by
  cases hp : keyDef.parts with
  | nil => exact absurd hp keyDef.parts_ne_nil
  | cons part parts =>
    have hpa : part ∈ keyDef.parts := by simp [hp]
    have hf : Stands t part (lookup keyDef t part) := .inl (lookup_eq hpa)
    obtain ⟨next, hh, -⟩ := hashPart_of_stands ht hpa hf
    simp only [Aligned, found, tupleHashSlowpath, hp, forall_mem_cons, afterPart,
      hashPart_first ht hpa, hh, Option.bind_some, map_cons, Option.map_eq_some_iff,
      List.cons.injEq, true_and, exists_eq_right, Option.some.injEq, Prod.mk.injEq,
      exists_eq', ← tupleHashLoop_eq_iff]

end

lemma hashUnsigned_cons (item : Item Scalar) (rest : Position) :
    hashUnsigned (item :: rest) = hashUnsigned [item] := by
  obtain ⟨raw, kind⟩ := item
  rcases kind with value | n | n
  · rcases value with _ | b | number | s | s | u <;> try rfl
    rcases number with z | f | d | d <;> try rfl
    cases z <;> rfl
  · rfl
  · rfl

lemma fieldsHash_append {types : List FieldType} {xs : Position} (rest : Position)
    (hl : xs.length = types.length) (hs : ∀ item ∈ xs, ∃ value, item.kind = .scalar value) :
    fieldsHash types (xs ++ rest) = fieldsHash types xs := by
  induction types generalizing xs with
  | nil =>
    cases xs with
    | nil => rfl
    | cons item xs => cases hl
  | cons type types ih =>
    cases xs with
    | nil => cases hl
    | cons item xs =>
      obtain ⟨value, hv⟩ := hs item mem_cons_self
      have hr := ih (Nat.succ.inj hl) fun i hi => hs i (mem_cons_of_mem _ hi)
      have ho (tail : Position) : mpNext (item :: tail) = some tail ∧
          valueBytes 1 (item :: tail) = item.raw := by
        simp [mpNext, skipItems, valueBytes, hv, Kind.nested]
      simp only [fieldsHash, fieldHash, cons_append, hv, ho]
      cases type <;> cases value <;> simp [hr]

end Loop

section Precompiled

variable {keyDef : KeyDef} {t : Tuple}

/-- The precompiled functions read the same bytes of the tuple and of its key. -/
lemma tupleHash_precompiled (H : Hasher) (ht : t.ValidFor keyDef) (h : keyDef.precompiledHash) :
    tupleHash H keyDef t = keyHash H keyDef (extractKey keyDef t) := by
  cases hpa : keyDef.parts with
  | nil => exact absurd hpa keyDef.parts_ne_nil
  | cons part parts =>
    have hm : ∀ p ∈ part :: parts, p ∈ keyDef.parts := by simp [hpa]
    simp only [KeyDef.precompiledHash, Bool.and_eq_true, Bool.not_eq_true', KeyDef.isNullable,
      KeyDef.hasJsonPaths, any_eq_false] at h
    obtain ⟨⟨⟨⟨hnu, hj⟩, hcons⟩, -⟩, -⟩ := id h
    have hpt : ∀ p ∈ part :: parts, p.path = [] ∧ t.fieldByPart p ≠ none := by
      intro p hp
      refine ⟨by simpa using hj p (hm p hp), fun hn => ?_⟩
      rcases ht.part_cases (hm p hp) with ⟨-, -, h⟩ | ⟨item, value, tail, hs, -⟩
      · exact hnu p (hm p hp) h
      · rw [hn] at hs
        cases hs
    rw [hpa] at hcons
    obtain ⟨rest, hpo⟩ := position_eq ht hm hpt hcons
    have hpr : keyDef.precompiledHash = true := by
      simpa [KeyDef.precompiledHash, KeyDef.isNullable, KeyDef.hasJsonPaths] using h
    have hsc : ∀ item ∈ (part :: parts).map (partItem t), ∃ value, item.kind = .scalar value := by
      intro item hit
      obtain ⟨p, hp, rfl⟩ := mem_map.1 hit
      rcases part_cases ht (hm p hp) with ⟨hn, -⟩ | ⟨i, value, r, -, hk, hi, -⟩
      · exact ⟨.nil, by simp [partItem, hn, nilItem]⟩
      · exact ⟨value, by rw [hi, hk]⟩
    simp only [tupleHash, keyHash, hpr, if_true, extractKey, hpa, head?_cons, Option.bind_some, hpo]
    split
    · rw [map_cons, cons_append, hashUnsigned_cons, hashUnsigned_cons _ (parts.map _)]
    · rw [fieldsHash_append rest (by simp) hsc]

end Precompiled

/-- A hash that tells a given list of byte strings from every other. -/
def Hasher.recognise (chunks : List Bytes) : Hasher :=
  ⟨List Bytes, [], fun s b => s ++ [b], fun s _ => if s = chunks then 1 else 0⟩

lemma Hasher.recognise_hash (chunks other : List Bytes) :
    (Hasher.recognise chunks).hash other = if other = chunks then 1 else 0 := by
  have hf (s : List Bytes) : other.foldl (fun s b => s ++ [b]) s = s ++ other := by
    induction other generalizing s with
    | nil => simp
    | cons b other ih => simp [ih]
  simp [Hasher.recognise, Hasher.hash, hf]

/-- Byte strings hash alike under every hash function exactly when they are the same. -/
lemma hash_eq_iff {chunks : Option (List Bytes)} {ref : List Bytes} :
    (∀ H : Hasher, chunks.map H.hash = some (H.hash ref)) ↔ chunks = some ref := by
  constructor
  · intro h
    have hr := h (.recognise ref)
    cases chunks with
    | none => cases hr
    | some chunks =>
      rw [Option.map_some, Hasher.recognise_hash, Hasher.recognise_hash, if_pos rfl] at hr
      by_contra hne
      rw [if_neg fun he => hne (congrArg some he)] at hr
      cases hr
  · rintro rfl H
    rfl

lemma noPath_of_not_json {keyDef : KeyDef} (h : keyDef.hasJsonPaths = false) :
    NoPathBetweenNeighbours keyDef := by
  have hpa : ∀ p ∈ keyDef.parts, p.path = [] := by
    intro p hp
    by_contra hne
    have := any_eq_false.1 h p hp
    simp [hne] at this
  exact (pairwise_of_forall_mem_list fun p hp q hq _ => ⟨hpa p hp, hpa q hq⟩).isChain

lemma tupleHash_eq_iff {keyDef : KeyDef} {t : Tuple} (ht : t.ValidFor keyDef) :
    (∀ H, tupleHash H keyDef t = keyHash H keyDef (extractKey keyDef t)) ↔ Aligned keyDef t := by
  by_cases hp : keyDef.precompiledHash
  · refine iff_of_true (fun H => tupleHash_precompiled H ht hp)
      (aligned_of_noPath ht (noPath_of_not_json ?_))
    simp only [KeyDef.precompiledHash, Bool.and_eq_true, Bool.not_eq_true'] at hp
    exact hp.1.1.1.2
  · simp only [tupleHash, keyHash, hp, if_false, extractKey,
      keyHashSlowpath_extract ht fun _ h => h, Option.map_some, Bool.false_eq_true]
    rw [hash_eq_iff, tupleHashSlowpath_eq_iff ht]

/-- A tuple hashes as its key, under every hash function, exactly when the slow path finds every
part where it takes it to be: so if neighbouring parts have no paths. -/
theorem tuple_hash_eq_iff {keyDef : KeyDef} {t : Tuple} (ht : t.ValidFor keyDef) :
    (NoPathBetweenNeighbours keyDef → Aligned keyDef t) ∧
      ((∀ H, tupleHash H keyDef t = keyHash H keyDef (extractKey keyDef t)) ↔ Aligned keyDef t) :=
  ⟨aligned_of_noPath ht, tupleHash_eq_iff ht⟩

/-- A part by a path into the first field and the second field. -/
def pathAndNext : KeyDef where
  parts := [⟨0, .unsigned, none, false, [.str [97]]⟩, ⟨1, .unsigned, none, false, []⟩]
  uniquePartCount := 2
  minFieldCount := 2
  unique_pos := by decide
  unique_le := by decide
  extended_not_null := by simp

/-- The tuple `[{a: 1, b: 2}, 3]`: after the first part stands the key `b`, not the second field. -/
theorem tuple_hash_after_path :
    let t : Tuple := ⟨[0x92], 2, [⟨[0x82], .map 2⟩, Scalar.item (.str [97]), uintItem 1,
      Scalar.item (.str [98]), uintItem 2, uintItem 3], by decide⟩
    tupleHash pMurHash pathAndNext t = some 3866176666 ∧
      keyHash pMurHash pathAndNext (extractKey pathAndNext t) = some 4157528692 := by
  decide

/-- The tuple `[{a: 1}, 3]` hashes as its key. -/
theorem tuple_hash_of_lone_pair :
    let t : Tuple := ⟨[0x92], 2, [⟨[0x81], .map 1⟩, Scalar.item (.str [97]), uintItem 1,
      uintItem 3], by decide⟩
    ∀ H, tupleHash H pathAndNext t = keyHash H pathAndNext (extractKey pathAndNext t) := by
  intro t
  have ht : t.ValidFor pathAndNext := by
    refine ⟨by decide, by decide, ?_⟩
    rintro part (⟨⟩ | ⟨_, ⟨⟩ | ⟨_, ⟨⟩⟩⟩)
    · exact ⟨uintItem 1, _, _, rfl, rfl, rfl⟩
    · exact ⟨uintItem 3, _, _, rfl, rfl, rfl⟩
  refine (tuple_hash_eq_iff ht).2.2 ?_
  rintro p (⟨⟩ | ⟨_, ⟨⟩ | ⟨_, ⟨⟩⟩⟩)
  · exact ⟨_, rfl⟩
  · exact ⟨_, rfl⟩

end TarantoolStorage.Index
