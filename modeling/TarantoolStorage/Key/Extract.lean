import TarantoolStorage.Update.Execute

/-!
Extraction of a key from a tuple (box/tuple_extract_key.cc). `none` is undefined behaviour or a
failed assertion.
-/
namespace TarantoolStorage.Key

open MsgPack TarantoolStorage.Update

structure Part where
  fieldno : Nat
  /-- Empty for a part without a path. -/
  path : List Token
  isNullable : Bool
  deriving DecidableEq

/-- The parts of an index, and of the primary key after them. A field can be in two parts. -/
structure KeyDef where
  parts : List Part
  /-- The least number of fields that a tuple of the space has. -/
  minFieldCount : Nat
  parts_ne : parts ≠ []
  /-- Twice `BOX_INDEX_PART_MAX`. -/
  count_le : parts.length ≤ 510
  /-- Paths were validated when the definition was decoded. -/
  lexed : ∀ part ∈ parts, ∀ position, .bad position ∉ part.path

def Token.isAny : Token → Bool
  | .any _ => true
  | _ => false

namespace KeyDef

def hasJsonPaths (keyDef : KeyDef) : Bool :=
  keyDef.parts.any (·.path ≠ [])

def isMultikey (keyDef : KeyDef) : Bool :=
  keyDef.parts.any (·.path.any Token.isAny)

/-- `key_def_update_optionality`. -/
def hasOptionalParts (keyDef : KeyDef) : Bool :=
  keyDef.parts.any fun part =>
    (keyDef.minFieldCount < part.fieldno + 1 || part.path ≠ []) && part.isNullable

/-- `key_def_is_sequential`. -/
def isSequential (keyDef : KeyDef) : Bool :=
  !keyDef.hasJsonPaths && keyDef.parts.map Part.fieldno = List.range keyDef.parts.length

end KeyDef

/-- `key_def_parts_are_sequential` of neighbouring parts. -/
def sequential (hasJsonPaths : Bool) (p q : Part) : Bool :=
  p.fieldno + 1 = q.fieldno && (!hasJsonPaths || (p.path = [] && q.path = []))

/-- `key_def_contains_sequential_parts`. -/
def containsSequentialParts : List Part → Bool
  | p :: q :: parts => sequential true p q || containsSequentialParts (q :: parts)
  | _ => false

/-- The token that is searched for; `[*]` is the element of the multikey index. -/
def resolve (multikeyIdx : Option Nat) : Token → Option Token
  | .any _ => multikeyIdx.map .num
  | .bad _ => none
  | token => some token

inductive Found where
  | invalid
  | missing
  | at (pos : Bytes)

def tupleGoToPath (multikeyIdx : Option Nat) : List Token → Bytes → Option Found
  | [], pos => some (.at pos)
  | token :: path, pos =>
    match resolve multikeyIdx token with
    | none => some .invalid
    | some token =>
      (goTo pos token).bind fun next =>
        match next with
        | none => some .missing
        | some pos => tupleGoToPath multikeyIdx path pos

/-- `tuple_field_raw`. The offsets of the field map lead to the same place. -/
def tupleFieldRaw (data : Bytes) (fieldno : Nat) : Option (Option Bytes) :=
  (mpDecodeArray data).bind fun (fieldCount, pos) =>
    if fieldCount ≤ fieldno then some none else (mpNextTimes fieldno pos).map some

def tupleFieldRawByPart (data : Bytes) (part : Part) (multikeyIdx : Option Nat) :
    Option (Option Bytes) :=
  (tupleFieldRaw data part.fieldno).bind fun field =>
    match field with
    | none => some none
    | some pos =>
      (tupleGoToPath multikeyIdx part.path pos).map fun found =>
        match found with
        | .at pos => some pos
        | .missing | .invalid => none

def mpNil : UInt8 := 0xc0

/-- What was written, and the size of the memory allocated for it. -/
abbrev Written := Nat × Bytes

/-- `tuple_extract_key_sequential_raw`. -/
def sequentialRaw (keyDef : KeyDef) (data : Bytes) : Option Written :=
  let partCount := keyDef.parts.length
  (mpDecodeArray data).bind fun (fieldCount, fieldStart) =>
    if !keyDef.hasOptionalParts || partCount < fieldCount then do
      let fieldEnd ← mpNextTimes partCount fieldStart
      let fields ← between fieldStart fieldEnd
      return (uint32 (mpSizeofArray partCount + fields.length), mpEncodeArray partCount ++ fields)
    else
      let nullCount := partCount - fieldCount
      some (uint32 (mpSizeofArray partCount + nullCount + fieldStart.length),
        mpEncodeArray partCount ++ fieldStart ++ List.replicate nullCount mpNil)

section Slowpath

variable (keyDef : KeyDef) (data : Bytes) (multikeyIdx : Option Nat)

def lookup (part : Part) : Option (Option Bytes) :=
  if !keyDef.hasJsonPaths then tupleFieldRaw data part.fieldno
  else if !keyDef.isMultikey then tupleFieldRawByPart data part none
  else tupleFieldRawByPart data part multikeyIdx

/-- The position after one more part, or one more nil at the end of the tuple. -/
def next (pos : Bytes) (nullCount : Nat) : Option (Bytes × Nat) :=
  if !keyDef.hasOptionalParts || pos ≠ [] then (mpNext pos).map (·, nullCount)
  else some (pos, nullCount + 1)

/-- The loop over the parts that follow one another. Returns the parts after them. -/
def skipSequential : Part → List Part → Bytes → Nat → Option (Bytes × Nat × List Part)
  | _, [], pos, nullCount => (next keyDef pos nullCount).map fun (pos, n) => (pos, n, [])
  | p, q :: parts, pos, nullCount =>
    (next keyDef pos nullCount).bind fun (pos, n) =>
      if containsSequentialParts keyDef.parts && sequential keyDef.hasJsonPaths p q then
        skipSequential q parts pos n
      else some (pos, n, q :: parts)

/-- What the loop over all parts copies, with the number of nils after each copy. -/
def spans : Nat → List Part → Option (List (Bytes × Nat))
  | _, [] => some []
  | 0, _ :: _ => none
  | fuel + 1, part :: parts =>
    (lookup keyDef data multikeyIdx part).bind fun field =>
      match field with
      | none =>
        if keyDef.hasOptionalParts then (spans fuel parts).map (([], 1) :: ·) else none
      | some field =>
        (skipSequential keyDef part parts field 0).bind fun (fieldEnd, nullCount, parts) =>
          (between field fieldEnd).bind fun span => (spans fuel parts).map ((span, nullCount) :: ·)

/-- `tuple_extract_key_slowpath`: one loop computes the size of the key and one writes it. -/
def slowpath : Option Written :=
  (spans keyDef data multikeyIdx keyDef.parts.length keyDef.parts).map fun spans =>
    (uint32 (mpSizeofArray keyDef.parts.length + (spans.map fun s => s.1.length + s.2).sum : Nat),
      mpEncodeArray keyDef.parts.length ++ spans.flatMap fun s => s.1 ++ List.replicate s.2 mpNil)

end Slowpath

structure Run where
  first : Part
  more : List Part

def Run.parts (run : Run) : List Part := run.first :: run.more

def Run.last (run : Run) : Part := run.more.getLastD run.first

/-- The longest sequences of parts that the inner loop goes over. -/
def runs (hasJsonPaths : Bool) : List Part → List Run
  | [] => []
  | p :: parts =>
    match runs hasJsonPaths parts with
    | [] => [⟨p, []⟩]
    | run :: later =>
      if sequential hasJsonPaths p run.first then ⟨p, run.parts⟩ :: later
      else ⟨p, []⟩ :: run :: later

/-- `field`, `field_end` and `current_fieldno`. -/
structure Cursor where
  field : Bytes
  fieldEnd : Bytes
  current : Nat

def Cursor.forward : Nat → Cursor → Option Cursor
  | 0, cursor => some cursor
  | n + 1, cursor =>
    (mpNext cursor.fieldEnd).bind fun fieldEnd =>
      forward n ⟨cursor.fieldEnd, fieldEnd, cursor.current + 1⟩

section SlowpathRaw

variable (keyDef : KeyDef) (multikeyIdx : Option Nat) (fieldCount : Nat) (start : Cursor)

/-- The end of a run of parts that has begun, and the number of nils after it. -/
def finishRun (last : Part) (cursor : Cursor) : Option (Cursor × Nat) :=
  if keyDef.hasOptionalParts && fieldCount ≤ last.fieldno then
    some ({ cursor with fieldEnd := [] }, last.fieldno - fieldCount + 1)
  else
    (mpNextTimes (last.fieldno - cursor.current) cursor.fieldEnd).map fun fieldEnd =>
      ({ cursor with
        fieldEnd := fieldEnd
        current := cursor.current + (last.fieldno - cursor.current) }, 0)

def copyRun (last : Part) (cursor : Cursor) (nullCount : Nat) : Option Bytes :=
  if keyDef.hasJsonPaths && last.path ≠ [] then
    (tupleGoToPath multikeyIdx last.path cursor.field).bind fun found =>
      match found with
      | .invalid => none
      | .missing =>
        if keyDef.hasOptionalParts then some (List.replicate (nullCount + 1) mpNil) else none
      | .at src => do
        let srcEnd ← mpNext src
        let value ← between src srcEnd
        return value ++ List.replicate nullCount mpNil
  else
    (between cursor.field cursor.fieldEnd).map (· ++ List.replicate nullCount mpNil)

def extractRun (run : Run) (cursor : Cursor) : Option (Cursor × Bytes) :=
  let cursor := if run.first.fieldno < cursor.current then start else cursor
  if keyDef.hasOptionalParts && fieldCount ≤ run.first.fieldno then
    let nullCount := uint32 (run.first.fieldno - run.last.fieldno + 1)
    some (cursor, List.replicate nullCount mpNil)
  else do
    let cursor ← cursor.forward (run.first.fieldno - cursor.current)
    let (cursor, nullCount) ← finishRun keyDef fieldCount run.last cursor
    let bytes ← copyRun keyDef multikeyIdx run.last cursor nullCount
    return (cursor, bytes)

def extractRuns : List Run → Cursor → Option Bytes
  | [], _ => some []
  | run :: later, cursor => do
    let (cursor, bytes) ← extractRun keyDef multikeyIdx fieldCount start run cursor
    let rest ← extractRuns later cursor
    return bytes ++ rest

end SlowpathRaw

/-- `tuple_extract_key_slowpath_raw`. -/
def slowpathRaw (keyDef : KeyDef) (data : Bytes) (multikeyIdx : Option Nat) : Option Written := do
  let (fieldCount, field0) ← mpDecodeArray data
  let field0End ← mpNext field0
  let start : Cursor := ⟨field0, field0End, 0⟩
  let bytes ← extractRuns keyDef multikeyIdx fieldCount start
    (runs keyDef.hasJsonPaths keyDef.parts) start
  return (data.length, mpEncodeArray keyDef.parts.length ++ bytes)

/-- The `tuple_extract_key` that `key_def_set_extract_func` chooses. -/
def tupleExtractKey (keyDef : KeyDef) (data : Bytes) (multikeyIdx : Option Nat) : Option Written :=
  if keyDef.isSequential then sequentialRaw keyDef data else slowpath keyDef data multikeyIdx

/-- The `tuple_extract_key_raw` that `key_def_set_extract_func` chooses. -/
def tupleExtractKeyRaw (keyDef : KeyDef) (data : Bytes) (multikeyIdx : Option Nat) :
    Option Written :=
  if keyDef.isSequential then sequentialRaw keyDef data else slowpathRaw keyDef data multikeyIdx

def pathValue (multikeyIdx : Option Nat) : List Token → Node → Option Node
  | [], node => some node
  | token :: path, node => do
    let token ← resolve multikeyIdx token
    let i ← nodeShape.index token node
    let child ← node.children[i]?
    pathValue multikeyIdx path child

def partValue (tuple : Tuple) (multikeyIdx : Option Nat) (part : Part) : Option Node :=
  tuple.node.children[part.fieldno]?.bind (pathValue multikeyIdx part.path)

def nilNode : Node := .mk [mpNil] (.other [mpNil]) []

def keyElement (tuple : Tuple) (multikeyIdx : Option Nat) (part : Part) : Node :=
  (partValue tuple multikeyIdx part).getD nilNode

def referenceKey (keyDef : KeyDef) (tuple : Tuple) (multikeyIdx : Option Nat) : Node :=
  .mk (mpEncodeArray keyDef.parts.length) (.array keyDef.parts.length)
    (keyDef.parts.map (keyElement tuple multikeyIdx))

/-- The key is one well-formed array, written within the memory allocated for it. -/
def Extracts (key : Option Written) (reference : Node) : Prop :=
  reference.WF ∧ ∃ size, key = some (size, reference.bytes) ∧ reference.bytes.length ≤ size

/-- A tuple of the space with an element of its multikey index; empty tuples do not exist. -/
structure ValidFor (tuple : Tuple) (keyDef : KeyDef) (multikeyIdx : Option Nat) : Prop where
  count_pos : 0 < tuple.node.children.length
  count_ge : keyDef.minFieldCount ≤ tuple.node.children.length
  multikey : keyDef.isMultikey → multikeyIdx.isSome
  part : ∀ part ∈ keyDef.parts, part.isNullable = false → (partValue tuple multikeyIdx part).isSome

end TarantoolStorage.Key
