import TarantoolStorage.Index.Number

/-! Index fields: the values a field type admits and their comparison (box/field_def.c,
box/tuple_compare.cc). -/
namespace TarantoolStorage.Index

open Compare MsgPack

inductive FieldType where
  | unsigned | string | number | double | integer | boolean | varbinary | scalar | decimal | uuid
  deriving DecidableEq

/-- A collation. Its functions belong to the ICU library and are parameters here. -/
structure Coll where
  cmp : Bytes → Bytes → Int
  /-- the first bytes of the sort key, at most as many as asked for -/
  hint : Bytes → Nat → Bytes
  /-- the sort key, the bytes that are hashed -/
  hash : Bytes → Bytes

/-- The tables `field_mp_type` and `field_ext_type`; a UUID is stored in sixteen bytes. -/
def fieldMpTypeIsCompatible (type : FieldType) (value : Scalar) (isNullable : Bool) : Bool :=
  match type, value with
  | _, .nil => isNullable
  | .unsigned, .number (.integer (.uint _)) => true
  | .integer, .number (.integer _) => true
  | .number, .number _ => true
  | .double, .number (.double _) => true
  | .decimal, .number (.decimal _) => true
  | .boolean, .bool _ => true
  | .string, .str _ => true
  | .varbinary, .bin _ => true
  | .scalar, .uuid _ => false
  | .scalar, _ => true
  | .uuid, .uuid u => u.length = 16
  | _, _ => false

lemma uuid_length {type isNullable} {u : Bytes}
    (h : fieldMpTypeIsCompatible type (.uuid u) isNullable) : u.length = 16 := by
  cases type <;> simp_all [fieldMpTypeIsCompatible]

/-- `mp_compare_uint`, on encodings: where the first bytes differ, they decide. -/
def mpCompareUint : Bytes → Bytes → Option Int
  | ca :: a, cb :: b =>
    if ca ≠ cb then some ((ca.toNat : Int) - cb.toNat)
    else if ca.toNat ≤ 0x7f then some 0
    else do
      -- the low bits of the first byte stand for 1, 2, 4 or 8 bytes
      let (m, _) ← loadBe 0 (2 ^ (ca.toNat % 4)) a
      let (n, _) ← loadBe 0 (2 ^ (ca.toNat % 4)) b
      some (compareResult m n)
  | _, _ => none

def mpCompareUuid (a b : Bytes) : Int := memcmp 16 a b

def mpCompareDouble (a b : BitVec 64) : Int :=
  if (Double.ofBits a).isNan || (Double.ofBits b).isNan then 0
  else compareResult (Double.ofBits a).value (Double.ofBits b).value

section Comparators

variable (stale : Decimal → Double → Int → Int)

def mpCompareScalarColl (coll : Coll) (a b : Scalar) : Int :=
  match a, b with
  | .str a, .str b => coll.cmp a b
  | a, b => mpCompareScalar stale a b

/-- The comparison of two values of a field by its type. The code compares the bytes of unsigned
integers and, from the third on, of UUIDs; in their shortest encodings this is the comparison of the
values. -/
def tupleCompareField (type : FieldType) (coll : Option Coll) (a b : Scalar) : Int :=
  match type, a, b with
  | .unsigned, .number (.integer (.uint a)), .number (.integer (.uint b)) =>
    compareResult a.toNat b.toNat
  | .string, .str a, .str b =>
    match coll with
    | some coll => coll.cmp a b
    | none => mpCompareStr a b
  | .integer, .number (.integer a), .number (.integer b) => mpCompareIntegerWithType a b
  | .number, .number a, .number b => mpCompareNumber stale a b
  | .double, .number (.double a), .number (.double b) => mpCompareDouble a b
  | .boolean, .bool a, .bool b => mpCompareBool a b
  | .varbinary, .bin a, .bin b => mpCompareBin a b
  | .scalar, a, b =>
    match coll with
    | some coll => mpCompareScalarColl stale coll a b
    | none => mpCompareScalar stale a b
  | .decimal, .number (.decimal a), .number (.decimal b) =>
    decimalCompare (.ofRat a.value) (.ofRat b.value)
  | .uuid, .uuid a, .uuid b => mpCompareUuid a b
  | _, _, _ => 0 -- not reached: the values are of the type of the field

/-- The comparison of two values of a part that may be nil: nil is the least. -/
def compareValues (type : FieldType) (isNullable : Bool) (coll : Option Coll) (a b : Scalar) :
    Int :=
  if isNullable then
    if a = .nil then (if b = .nil then 0 else -1)
    else if b = .nil then 1
    else tupleCompareField stale type coll a b
  else tupleCompareField stale type coll a b

end Comparators

lemma memcmp_cons (n : Nat) (a b : UInt8) (s t : Bytes) : memcmp (n + 1) (a :: s) (b :: t) =
      if a = b then memcmp n s t else compareResult a.toNat b.toNat := rfl

lemma mpCompareStr_cons (a b : UInt8) (s t : Bytes) : mpCompareStr (a :: s) (b :: t) =
      if a = b then mpCompareStr s t else compareResult a.toNat b.toNat := by
  have hm : min (s.length + 1) (t.length + 1) = min s.length t.length + 1 := by omega
  simp only [mpCompareStr, List.length_cons, hm, memcmp_cons]
  split
  · have hl : compareResult (s.length + 1) (t.length + 1) = compareResult s.length t.length :=
      compareResult_map (fun x y => by omega) s.length t.length
    rw [hl]
  next hn =>
    rw [if_pos]
    rw [Ne, compareResult_eq_zero]
    exact fun h => hn (UInt8.toNat_inj.1 h)

@[simp] lemma mpCompareStr_nil_cons (b : UInt8) (t : Bytes) : mpCompareStr [] (b :: t) = -1 := by
  simp [mpCompareStr, memcmp, compareResult]

@[simp] lemma mpCompareStr_cons_nil (a : UInt8) (s : Bytes) : mpCompareStr (a :: s) [] = 1 := by
  simp [mpCompareStr, memcmp, compareResult]

end TarantoolStorage.Index
