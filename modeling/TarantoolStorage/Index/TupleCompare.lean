import TarantoolStorage.Index.Tuple

/-! Comparison of keys and tuples (box/tuple_compare.cc). -/
namespace TarantoolStorage.Index

open Compare MsgPack

def scalarAt : Position → Option Scalar
  | ⟨_, .scalar value⟩ :: _ => some value
  | _ => none

/-- The value of a field that may be missing if the definition has optional parts. -/
def fieldValue (hasOptionalParts : Bool) : Option Position → Option Scalar
  | none => if hasOptionalParts then some .nil else none
  | some pos => scalarAt pos

def hinted (aHint bHint : Nat) (rest : Option Int) : Option Int :=
  if hintCmp aHint bHint ≠ 0 then some (hintCmp aHint bHint) else rest

section Comparators

variable (stale : Decimal → Double → Int → Int)

/-- It differs from `tuple_compare_field` in the comparison of decimals. -/
def tupleCompareFieldWithType (type : FieldType) (coll : Option Coll) (a b : Scalar) : Int :=
  match type, a, b with
  | .decimal, .number a, .number b => mpCompareNumber stale a b
  | type, a, b => tupleCompareField stale type coll a b

def comparePart (isNullable : Bool) (part : KeyPart) (a b : Scalar) : Int :=
  if isNullable then
    if a = .nil then (if b = .nil then 0 else -1)
    else if b = .nil then 1
    else tupleCompareFieldWithType stale part.type part.coll a b
  else tupleCompareField stale part.type part.coll a b

/-- `key_compare_parts`. Its branch for a single part is the first round of the loop. -/
def keyCompareParts (isNullable : Bool) : List KeyPart → Position → Position → Option Int
  | [], _, _ => some 0
  | part :: parts, a, b => do
    let rc := comparePart stale isNullable part (← scalarAt a) (← scalarAt b)
    if rc ≠ 0 then some rc
    else keyCompareParts isNullable parts (← mpNext a) (← mpNext b)

/-- `key_compare`. Keys are arrays of scalars. -/
def keyCompare (keyDef : KeyDef) (aHint bHint : Nat) (a b : Position) : Option Int :=
  hinted aHint bHint <|
    keyCompareParts stale keyDef.isNullable (keyDef.parts.take (min a.length b.length)) a b

section SlowPath

variable (keyDef : KeyDef)

/-- A loop over parts: the first difference and whether a nil was met. -/
def slowpathLoop (isNullable hasOptionalParts : Bool) (a b : Tuple) :
    List KeyPart → Bool → Option (Int × Bool)
  | [], wasNullMet => some (0, wasNullMet)
  | part :: parts, wasNullMet => do
    let x ← fieldValue hasOptionalParts (lookup keyDef a part)
    let y ← fieldValue hasOptionalParts (lookup keyDef b part)
    let rc := comparePart stale isNullable part x y
    if rc ≠ 0 then some (rc, wasNullMet)
    else
      slowpathLoop isNullable hasOptionalParts a b parts
        (wasNullMet || isNullable && decide (x = .nil))

def tupleCompareSlowpath (aHint bHint : Nat) (a b : Tuple) : Option Int :=
  hinted aHint bHint <|
    if keyDef.parts.length = 1 ∧ ∀ part ∈ keyDef.parts, part.fieldno = 0 ∧ part.path = [] then do
      let part ← keyDef.parts.head?
      some (comparePart stale keyDef.isNullable part (← scalarAt a.items) (← scalarAt b.items))
    else do
      let first := if keyDef.isNullable then keyDef.parts.take keyDef.uniquePartCount
        else keyDef.parts
      let (rc, wasNullMet) ←
        slowpathLoop stale keyDef keyDef.isNullable keyDef.hasOptionalParts a b first false
      if rc ≠ 0 ∨ ¬(keyDef.isNullable ∧ wasNullMet) then some rc
      else (slowpathLoop stale keyDef false false a b
        (keyDef.parts.drop keyDef.uniquePartCount) false).map Prod.fst

def withKeyLoop (t : Tuple) : List KeyPart → Position → Option Int
  | [], _ => some 0
  | part :: parts, key => do
    let x ← fieldValue keyDef.hasOptionalParts (lookup keyDef t part)
    let rc := comparePart stale keyDef.isNullable part x (← scalarAt key)
    if rc ≠ 0 then some rc else withKeyLoop t parts (← mpNext key)

def tupleCompareWithKeySlowpath (tHint keyHint : Nat) (t : Tuple) (key : Position) : Option Int :=
  hinted tHint keyHint <| withKeyLoop stale keyDef t (keyDef.parts.take key.length) key

end SlowPath

section Sequential

variable (keyDef : KeyDef)

/-- The parts of a key that a tuple does not have are checked to be nil. -/
def absentAreNil : Nat → Bytes → Option Int
  | 0, _ => some 0
  | n + 1, key => do
    if (← headType key) ≠ .nil then some (-1) else absentAreNil n (← MsgPack.mpNext key)

def tupleCompareWithKeySequential (tHint keyHint : Nat) (t : Tuple) (key : Position) : Option Int :=
  hinted tHint keyHint <| do
    let partCount := key.length
    let cmpPartCount :=
      if keyDef.hasOptionalParts ∧ t.count < partCount then t.count else partCount
    let rc ← keyCompareParts stale keyDef.isNullable (keyDef.parts.take cmpPartCount) t.items key
    if ¬keyDef.hasOptionalParts ∨ rc ≠ 0 then some rc
    else if t.count < partCount then
      -- the equal parts of the key are taken to have the size of the fields of the tuple
      absentAreNil (partCount - t.count)
        ((key.flatMap (·.raw)).drop (t.bsize - (mpEncodeArray t.count).length))
    else some 0

/-- The value of field `i` of a tuple with `fc` fields, at its position. -/
def sequentialValue (fc i : Nat) (pos : Position) : Option Scalar :=
  if keyDef.hasOptionalParts ∧ fc ≤ i then some .nil else scalarAt pos

def sequentialNext (fc i : Nat) (pos : Position) : Option Position :=
  if ¬keyDef.hasOptionalParts ∨ i < fc then mpNext pos else some pos

/-- The loop over the unique parts, at the positions of the tuples from field `i` on. -/
def sequentialLoop (fcA fcB : Nat) :
    List KeyPart → Nat → Position → Position → Bool → Option (Int × Bool × Position × Position)
  | [], _, a, b, wasNullMet => some (0, wasNullMet, a, b)
  | part :: parts, i, a, b, wasNullMet => do
    let x ← sequentialValue keyDef fcA i a
    let y ← sequentialValue keyDef fcB i b
    let rc := comparePart stale true part x y
    if rc ≠ 0 then some (rc, wasNullMet, a, b)
    else
      sequentialLoop fcA fcB parts (i + 1) (← sequentialNext keyDef fcA i a)
        (← sequentialNext keyDef fcB i b) (wasNullMet || decide (x = .nil))

def tupleCompareSequential (aHint bHint : Nat) (a b : Tuple) : Option Int :=
  hinted aHint bHint <| if ¬keyDef.hasOptionalParts ∧ ¬keyDef.isNullable then
      keyCompareParts stale false keyDef.parts a.items b.items
    else do
      let (rc, wasNullMet, posA, posB) ← sequentialLoop stale keyDef a.count b.count
        (keyDef.parts.take keyDef.uniquePartCount) 0 a.items b.items false
      if rc ≠ 0 ∨ ¬wasNullMet then some rc
      else keyCompareParts stale false (keyDef.parts.drop keyDef.uniquePartCount) posA posB

end Sequential

/-- The field numbers and types that a precompiled comparator is made for. -/
abbrev Signature := List (Nat × FieldType)

def KeyDef.signature (keyDef : KeyDef) : Signature :=
  keyDef.parts.map fun part => (part.fieldno, part.type)

section Precompiled

/-- The comparison of a precompiled field, unsigned or a string. -/
def fieldCompare (type : FieldType) (a b : Position) : Option Int := do
  some (tupleCompareField stale type none (← scalarAt a) (← scalarAt b))

/-- `FieldCompare`. -/
def fieldsCompare (a b : Tuple) : Signature → Position → Position → Option Int
  | (idx, type) :: (idx2, type2) :: more, posA, posB => do
    let rc ← fieldCompare stale type posA posB
    if rc ≠ 0 then some rc
    else if idx + 1 = idx2 then
      fieldsCompare a b ((idx2, type2) :: more) (← mpNext posA) (← mpNext posB)
    else fieldsCompare a b ((idx2, type2) :: more) (← a.fieldRaw idx2) (← b.fieldRaw idx2)
  | [(_, type)], posA, posB => fieldCompare stale type posA posB
  | [], _, _ => none

def firstField (t : Tuple) (idx : Nat) : Option Position :=
  if idx = 0 then some t.items else t.fieldRaw idx

/-- `TupleCompare`. -/
def tupleComparePrecompiled (signature : Signature) (aHint bHint : Nat) (a b : Tuple) :
    Option Int :=
  hinted aHint bHint <| do
    let (idx, _) ← signature.head?
    fieldsCompare stale a b signature (← firstField a idx) (← firstField b idx)

/-- `FieldCompareWithKey`, at the part `fldId` of the key. -/
def fieldsCompareWithKey (t : Tuple) (partCount : Nat) :
    Nat → Signature → Position → Position → Option Int
  | fldId, (idx, type) :: (idx2, type2) :: more, key, field => do
    let rc ← fieldCompare stale type field key
    if rc ≠ 0 ∨ partCount = fldId + 1 then some rc
    else if idx + 1 = idx2 then
      fieldsCompareWithKey t partCount (fldId + 1) ((idx2, type2) :: more) (← mpNext key)
        (← mpNext field)
    else
      fieldsCompareWithKey t partCount (fldId + 1) ((idx2, type2) :: more) (← mpNext key)
        (← t.fieldRaw idx2)
  | _, [(_, type)], key, field => fieldCompare stale type field key
  | _, [], _, _ => none

/-- `TupleCompareWithKey`. -/
def tupleCompareWithKeyPrecompiled (signature : Signature) (tHint keyHint : Nat) (t : Tuple)
    (key : Position) : Option Int :=
  if key.length = 0 then some 0
  else hinted tHint keyHint <| do
    let (idx, _) ← signature.head?
    fieldsCompareWithKey stale t key.length 0 signature key (← firstField t idx)

end Precompiled

def cmpArr : List Signature :=
  [[(0, .unsigned)], [(0, .string)], [(0, .unsigned), (1, .unsigned)],
    [(0, .string), (1, .unsigned)],
    [(0, .unsigned), (1, .string)],
    [(0, .string), (1, .string)],
    [(0, .unsigned), (1, .unsigned), (2, .unsigned)],
    [(0, .string), (1, .unsigned), (2, .unsigned)],
    [(0, .unsigned), (1, .string), (2, .unsigned)],
    [(0, .string), (1, .string), (2, .unsigned)],
    [(0, .unsigned), (1, .unsigned), (2, .string)],
    [(0, .string), (1, .unsigned), (2, .string)],
    [(0, .unsigned), (1, .string), (2, .string)],
    [(0, .string), (1, .string), (2, .string)]]

def cmpWkArr : List Signature :=
  [[(0, .unsigned), (1, .unsigned), (2, .unsigned)], [(0, .string), (1, .unsigned), (2, .unsigned)],
    [(0, .unsigned), (1, .string), (2, .unsigned)],
    [(0, .string), (1, .string), (2, .unsigned)],
    [(0, .unsigned), (1, .unsigned), (2, .string)],
    [(0, .string), (1, .unsigned), (2, .string)],
    [(0, .unsigned), (1, .string), (2, .string)],
    [(0, .string), (1, .string), (2, .string)],
    [(1, .unsigned), (2, .unsigned)],
    [(1, .string), (2, .unsigned)],
    [(1, .unsigned), (2, .string)],
    [(1, .string), (2, .string)]]

section Chosen

variable (keyDef : KeyDef)

/-- `key_def_set_compare_func` looks for precompiled comparators. -/
def KeyDef.isFast (keyDef : KeyDef) : Bool :=
  !keyDef.hasCollation && !keyDef.isNullable && !keyDef.hasJsonPaths

/-- The comparator of tuples that `key_def_set_compare_func` chooses. -/
def tupleCompare (aHint bHint : Nat) (a b : Tuple) : Option Int :=
  if keyDef.isFast ∧ keyDef.signature ∈ cmpArr then
    tupleComparePrecompiled stale keyDef.signature aHint bHint a b
  else if keyDef.isSequential then tupleCompareSequential stale keyDef aHint bHint a b
  else tupleCompareSlowpath stale keyDef aHint bHint a b

/-- The precompiled comparator with keys, made for the parts of the definition and maybe more. -/
def KeyDef.signatureWithKey (keyDef : KeyDef) : Option Signature :=
  if keyDef.isFast then
    cmpWkArr.find? fun signature => signature.take keyDef.parts.length = keyDef.signature
  else none

/-- The comparator of a tuple with a key that `key_def_set_compare_func` chooses. -/
def tupleCompareWithKey (tHint keyHint : Nat) (t : Tuple) (key : Position) : Option Int :=
  match keyDef.signatureWithKey with
  | some signature => tupleCompareWithKeyPrecompiled stale signature tHint keyHint t key
  | none =>
    if keyDef.isSequential then tupleCompareWithKeySequential stale keyDef tHint keyHint t key
    else tupleCompareWithKeySlowpath stale keyDef tHint keyHint t key

end Chosen

end Comparators

end TarantoolStorage.Index
