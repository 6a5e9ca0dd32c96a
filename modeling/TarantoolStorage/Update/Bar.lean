import TarantoolStorage.Lib.Document
import TarantoolStorage.Vinyl.Update

/-!
A nested operation '=', '!' or '#' on a tuple (`xrow_update_bar.c`). A position is the list of the
tuple's bytes from there on.
-/
namespace TarantoolStorage.Update

open MsgPack TarantoolStorage.Vinyl

/-- A token of a JSON path as the lexer gives it; the end of the path is the end of the list. -/
inductive Token where
  | num (index : Nat)
  | str (key : Bytes)
  /-- `[*]`, and the position it is reported at. -/
  | any (position : Nat)
  /-- The lexer fails at this position. -/
  | bad (position : Nat)
  deriving DecidableEq

/-- The client errors of an operation: no such field, or ER_UPDATE_FIELD with its reason. -/
inductive Error where
  | noSuchField
  | field (reason : String)
  deriving DecidableEq

def errBadJson (position : Nat) : Error :=
  .field s!"invalid JSON in position {position}"

def errDelete1 : Error := .field "can delete only 1 field from a map in a row"

def errDuplicate : Error := .field "the key exists already"

/-- The result of an operation. Memory outside the tuple is not defined. -/
inductive Outcome (α : Type) where
  | undefined
  | error (e : Error)
  | ok (value : α)
  deriving DecidableEq

namespace Outcome

variable {α β : Type}

def bind : Outcome α → (α → Outcome β) → Outcome β
  | .undefined, _ => .undefined
  | .error e, _ => .error e
  | .ok value, f => f value

instance : Monad Outcome where
  pure := .ok
  bind := bind

def ofOption : Option α → Outcome α
  | none => .undefined
  | some value => .ok value

@[simp] lemma bind_eq (x : Outcome α) (f : α → Outcome β) : x >>= f = x.bind f := rfl

@[simp] lemma pure_eq (value : α) : (pure value : Outcome α) = .ok value := rfl

@[simp] lemma ok_bind (value : α) (f : α → Outcome β) : (ok value).bind f = f value := rfl

@[simp] lemma error_bind (e : Error) (f : α → Outcome β) : (error e).bind f = .error e := rfl

@[simp] lemma ofOption_some (value : α) : ofOption (some value) = .ok value := rfl

end Outcome

/-- Arithmetic of `uint32_t`. -/
def uint32 (z : Int) : Nat := (z % 2 ^ 32).toNat

def mpSizeofArray (size : Nat) : Nat :=
  if size ≤ 15 then 1 else if size ≤ 0xffff then 3 else 5

def mpSizeofMap (size : Nat) : Nat :=
  if size ≤ 15 then 1 else if size ≤ 0xffff then 3 else 5

def mpSizeofStr (len : Nat) : Nat :=
  (if len ≤ 31 then 1 else if len ≤ 0xff then 2 else if len ≤ 0xffff then 3 else 5) + len

def mpEncodeStr (s : Bytes) : Bytes := mpEncodeStrl s.length ++ s

/-- `mp_next`, so many times. -/
def mpNextTimes : Nat → Bytes → Option Bytes
  | 0, pos => some pos
  | n + 1, pos => (mpNext pos).bind (mpNextTimes n)

/-- The bytes from one position to another. A negative difference is a huge unsigned size. -/
def between (start finish : Bytes) : Option Bytes :=
  if finish.length ≤ start.length then some (start.take (start.length - finish.length)) else none

/-! `tuple_field_go_to_index`, `tuple_field_go_to_key`: the inner `none` is `-1`. -/

/-- The loop over the pairs of a map; a key that was read says whether it is the one. -/
def goToPair (readKey : Bytes → Option (Bool × Bytes)) : Nat → Bytes → Option (Option Bytes)
  | 0, _ => some none
  | count + 1, pos =>
    (readKey pos).bind fun (found, pos) =>
      if found then some (some pos) else (mpNext pos).bind (goToPair readKey count)

def readIndexKey (index : Nat) (pos : Bytes) : Option (Bool × Bytes) :=
  match headType pos with
  | none => none
  | some .uint => (mpDecodeUint pos).map fun (value, pos) => (decide (value = index), pos)
  | some .int =>
    (mpDecodeInt pos).map fun (value, pos) => (decide (0 ≤ value ∧ value.toNat = index), pos)
  | some _ => (mpNext pos).map fun pos => (false, pos)

def readStrKey (key pos : Bytes) : Option (Bool × Bytes) :=
  match headType pos with
  | none => none
  | some .str => (mpDecodeStr pos).map fun (value, pos) => (decide (value = key), pos)
  | some _ => (mpNext pos).map fun pos => (false, pos)

def tupleFieldGoToIndex (pos : Bytes) (index : Nat) : Option (Option Bytes) :=
  match headType pos with
  | none => none
  | some .array =>
    (mpDecodeArray pos).bind fun (count, pos) =>
      if count ≤ index then some none else (mpNextTimes index pos).map some
  | some .map =>
    -- TUPLE_INDEX_BASE
    (mpDecodeMap pos).bind fun (count, pos) => goToPair (readIndexKey (index + 1)) count pos
  | some _ => some none

def tupleFieldGoToKey (pos key : Bytes) : Option (Option Bytes) :=
  match headType pos with
  | none => none
  | some .map => (mpDecodeMap pos).bind fun (count, pos) => goToPair (readStrKey key) count pos
  | some _ => some none

def goTo (pos : Bytes) : Token → Option (Option Bytes)
  | .num index => tupleFieldGoToIndex pos index
  | .str key => tupleFieldGoToKey pos key
  | .any _ | .bad _ => some none

def Token.keyLenOrIndex : Token → Nat
  | .num index => index
  | .str key => key.length
  | .any _ | .bad _ => 0

/-- `field->data` and `field->size` of a field that is not updated yet. -/
structure Field where
  data : Bytes
  size : Nat

def Field.finish (field : Field) : Bytes := field.data.drop field.size

/-- Where the change is: `field->bar` after its search. -/
structure Place where
  parent : Bytes
  point : Bytes
  pointSize : Nat
  keyLenOrIndex : Nat
  newKey : Bytes := []

def placeAt (pos parent : Bytes) (keyLenOrIndex : Nat) : Outcome Place := do
  let finish ← .ofOption (mpNext pos)
  return { parent, point := pos, pointSize := pos.length - finish.length, keyLenOrIndex }

/-- `xrow_update_bar_locate`. -/
def barLocate (pos parent : Bytes) (keyLenOrIndex : Nat) : List Token → Outcome Place
  | [] => placeAt pos parent keyLenOrIndex
  | .any position :: _ | .bad position :: _ => .error (errBadJson position)
  | token :: path =>
    (Outcome.ofOption (goTo pos token)).bind fun
      | none => .error .noSuchField
      | some next => barLocate next pos token.keyLenOrIndex path

/-- Where the elements of an array end: nothing is decoded if it is the field itself. -/
def parentEnd (field : Field) (parent : Bytes) : Option Bytes :=
  if parent.length = field.data.length then some field.finish else mpNext parent

/-- A last token that leads nowhere: where a new value goes. -/
def placeNew (field : Field) (parent : Bytes) : Token → Outcome Place
  | .num index =>
    if headType parent ≠ some .array then
      .error (.field "can not access by index a non-array field")
    else do
      let (size, _) ← .ofOption (mpDecodeArray parent)
      if size < index then .error .noSuchField
      else do
        let point ← .ofOption (parentEnd field parent)
        return { parent, point, pointSize := 0, keyLenOrIndex := index }
  | .str key =>
    if headType parent ≠ some .map then
      .error (.field "can not access by key a non-map field")
    else
      -- the point is not set and not used
      return { parent, point := parent, pointSize := 0, keyLenOrIndex := key.length, newKey := key }
  | .any position | .bad position => .error (errBadJson position)

/-- `xrow_update_bar_locate_opt`, and whether the point was found. -/
def barLocateOpt (field : Field) (pos parent : Bytes) (keyLenOrIndex : Nat) :
    List Token → Outcome (Place × Bool)
  | [] => (placeAt pos parent keyLenOrIndex).bind fun place => .ok (place, true)
  | .any position :: _ | .bad position :: _ => .error (errBadJson position)
  | token :: path =>
    (Outcome.ofOption (goTo pos token)).bind fun
      | some next => barLocateOpt field next pos token.keyLenOrIndex path
      | none =>
        match path with
        | .bad position :: _ => .error (errBadJson position)
        | _ :: _ => .error .noSuchField
        | [] => (placeNew field pos token).bind fun place => .ok (place, false)

/-- The operations and their arguments: a new value, or a count as it is in the request. -/
inductive Action (τ : Type) where
  | set (value : τ)
  | insert (value : τ)
  | delete (count : Nat)

/-- `field->bar` with what the operation became. -/
inductive Bar where
  /-- '=': the value instead of the point. -/
  | set (place : Place) (value : Bytes) (newFieldLen : Nat)
  /-- '!' -/
  | insert (place : Place) (value : Bytes) (newFieldLen : Nat)
  /-- '#', with the count that is left of it. -/
  | delete (place : Place) (count : Nat)

/-- `xrow_update_op_do_nop_insert`. -/
def doNopInsert (field : Field) (path : List Token) (value : Bytes) : Outcome Bar := do
  let (place, isFound) ← barLocateOpt field field.data field.data 0 path
  if headType place.parent = some .map then
    if isFound then .error errDuplicate
    else
      return .insert place value (uint32 (value.length + mpSizeofStr place.keyLenOrIndex))
  else return .insert place value (uint32 value.length)

/-- `xrow_update_op_do_nop_set`. -/
def doNopSet (field : Field) (path : List Token) (value : Bytes) : Outcome Bar := do
  let (place, isFound) ← barLocateOpt field field.data field.data 0 path
  if isFound then return .set place value (uint32 value.length)
  else if headType place.parent = some .map then
    return .insert place value (uint32 (value.length + mpSizeofStr place.keyLenOrIndex))
  else return .insert place value (uint32 value.length)

/-- `xrow_update_op_do_nop_delete`; the start of the tuple bounds how far a point moves back. -/
def doNopDelete (tuple : Bytes) (field : Field) (path : List Token) (count : Nat) :
    Outcome Bar := do
  let place ← barLocate field.data field.data 0 path
  if headType place.parent = some .array then
    let (size, _) ← .ofOption (mpDecodeArray place.parent)
    let count :=
      if size < uint32 (place.keyLenOrIndex + count) then uint32 (size - place.keyLenOrIndex)
      else count
    let finish ← .ofOption (mpNextTimes (count - 1) (place.point.drop place.pointSize))
    return .delete { place with pointSize := place.point.length - finish.length } count
  else if count ≠ 1 then .error errDelete1
  else
    let keyLen := mpSizeofStr place.keyLenOrIndex
    if tuple.length < place.point.length + keyLen then .undefined
    else
      return .delete { place with
          point := tuple.drop (tuple.length - (place.point.length + keyLen))
          pointSize := place.pointSize + keyLen } 1

/-- `op->meta->read_arg`, where `xrow_update_read_arg_delete` takes a count to 32 bits. -/
def readArg : Action Bytes → Outcome (Action Bytes)
  | .delete count =>
    if count % 2 ^ 32 = 0 then .error (.field "cannot delete 0 fields")
    else .ok (.delete (count % 2 ^ 32))
  | action => .ok action

/-- `op->meta->do_op` on a field that is not updated yet. -/
def doNop (tuple : Bytes) (field : Field) (path : List Token) : Action Bytes → Outcome Bar
  | .set value => doNopSet field path value
  | .insert value => doNopInsert field path value
  | .delete count => doNopDelete tuple field path count

/-- `xrow_update_bar_sizeof`. -/
def barSizeof (field : Field) : Bar → Option Nat
  | .insert place _ newFieldLen =>
    if headType place.parent = some .array then
      (mpDecodeArray place.parent).map fun (size, _) =>
        uint32 (field.size + newFieldLen + mpSizeofArray (size + 1) - mpSizeofArray size)
    else
      (mpDecodeMap place.parent).map fun (size, _) =>
        uint32 (field.size + newFieldLen + mpSizeofMap (size + 1) - mpSizeofMap size)
  | .delete place count =>
    if headType place.parent = some .array then
      (mpDecodeArray place.parent).map fun (size, _) =>
        uint32 (field.size - place.pointSize - mpSizeofArray size +
          mpSizeofArray (uint32 (size - count)))
    else
      (mpDecodeMap place.parent).map fun (size, _) =>
        uint32 (field.size - place.pointSize - mpSizeofMap size + mpSizeofMap (uint32 (size - 1)))
  | .set place _ newFieldLen => some (uint32 (field.size - place.pointSize + newFieldLen))

/-- `xrow_update_bar_store`. -/
def barStore (field : Field) : Bar → Option Bytes
  | .insert place value _ => do
    let beforeParent ← between field.data place.parent
    if headType place.parent = some .array then
      let (size, pos) ← mpDecodeArray place.parent
      let beforePoint ← between pos place.point
      let afterPoint ← between place.point field.finish
      return beforeParent ++ mpEncodeArray (size + 1) ++ beforePoint ++ value ++ afterPoint
    else
      let (size, pos) ← mpDecodeMap place.parent
      let afterPoint ← between pos field.finish
      return beforeParent ++ mpEncodeMap (size + 1) ++ mpEncodeStr place.newKey ++ value ++
        afterPoint
  | .delete place count => do
    let beforeParent ← between field.data place.parent
    let (header, pos) ←
      if headType place.parent = some .array then
        (mpDecodeArray place.parent).map fun (size, pos) =>
          (mpEncodeArray (uint32 (size - count)), pos)
      else
        (mpDecodeMap place.parent).map fun (size, pos) => (mpEncodeMap (uint32 (size - 1)), pos)
    let beforePoint ← between pos place.point
    let afterPoint ← between (place.point.drop place.pointSize) field.finish
    return beforeParent ++ header ++ beforePoint ++ afterPoint
  | .set place value _ => do
    let beforePoint ← between field.data place.point
    let afterPoint ← between (place.point.drop place.pointSize) field.finish
    return beforePoint ++ value ++ afterPoint

/-- `xrow_update_execute` with one nested operation: the size that `xrow_update_array_sizeof`
computes and the bytes that are stored. -/
def xrowUpdateExecute (tuple : Bytes) (fieldNo : Int) (path : List Token)
    (action : Action Bytes) : Outcome (Nat × Bytes) := do
  let (count, fields) ← .ofOption (mpDecodeArray tuple)
  let action ← readArg action
  match adjustFieldNo fieldNo count with
  | none => .error .noSuchField
  | some i =>
    let data ← .ofOption (mpNextTimes i fields)
    let finish ← .ofOption (mpNext data)
    let field : Field := { data, size := data.length - finish.length }
    let bar ← doNop tuple field path action
    let size ← .ofOption (barSizeof field bar)
    let stored ← .ofOption (barStore field bar)
    let before ← .ofOption (between fields data)
    return (uint32 (mpSizeofArray count + before.length + size + finish.length),
      mpEncodeArray count ++ before ++ stored ++ finish)

end TarantoolStorage.Update
