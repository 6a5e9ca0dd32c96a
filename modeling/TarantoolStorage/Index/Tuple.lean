import TarantoolStorage.Index.Encoding

/-! Key definitions, tuples and the fields that key parts refer to (box/key_def.h, box/tuple.h,
box/tuple.c). -/
namespace TarantoolStorage.Index

open MsgPack List

/-- A step of a JSON path inside a field; indexes count from zero. -/
inductive PathToken where
  | num (index : Nat)
  | str (key : Bytes)
  deriving DecidableEq

structure KeyPart where
  fieldno : Nat
  type : FieldType
  coll : Option Coll
  isNullable : Bool
  /-- empty for a top-level field -/
  path : List PathToken

/-- A key definition of an index that is neither multikey nor functional. -/
structure KeyDef where
  parts : List KeyPart
  uniquePartCount : Nat
  /-- the least number of fields a tuple of the space has -/
  minFieldCount : Nat
  unique_pos : 0 < uniquePartCount
  unique_le : uniquePartCount ≤ parts.length
  /-- the parts beyond the unique ones are those of the primary key -/
  extended_not_null : ∀ part ∈ parts.drop uniquePartCount, part.isNullable = false

namespace KeyDef

lemma parts_ne_nil (keyDef : KeyDef) : keyDef.parts ≠ [] := by
  intro h
  have hp := keyDef.unique_pos
  have hl := keyDef.unique_le
  rw [h, length_nil] at hl
  omega

def isNullable (keyDef : KeyDef) : Bool := keyDef.parts.any (·.isNullable)

def hasJsonPaths (keyDef : KeyDef) : Bool := keyDef.parts.any (·.path ≠ [])

/-- `key_def_update_optionality`. -/
def hasOptionalParts (keyDef : KeyDef) : Bool :=
  keyDef.parts.any fun part =>
    (keyDef.minFieldCount < part.fieldno + 1 || part.path ≠ []) && part.isNullable

def hasCollation (keyDef : KeyDef) : Bool := keyDef.parts.any (·.coll.isSome)

def isSequential (keyDef : KeyDef) : Bool :=
  !keyDef.hasJsonPaths && keyDef.parts.map (·.fieldno) = List.range keyDef.parts.length

end KeyDef

abbrev Position := List (Item Scalar)

def Scalar.item (value : Scalar) : Item Scalar := ⟨value.encode, .scalar value⟩

def uintItem (n : UInt64) : Item Scalar := Scalar.item (.number (.integer (.uint n)))

/-- The data of a tuple: an array header and so many complete values. -/
structure Tuple where
  header : Bytes
  count : Nat
  items : Position
  complete : skipItems count items = some []

def mpNext (pos : Position) : Option Position := skipItems 1 pos

/-- The search for an integer key among so many pairs of a map. -/
def findIndex (index : Nat) : Nat → Position → Option Position
  | count + 1, item :: pos =>
    match item.kind with
    | .scalar (.number (.integer (.uint value))) =>
      if value.toNat = index then some pos else (mpNext pos).bind (findIndex index count)
    | .scalar (.number (.integer (.int value))) =>
      if value.toInt = index then some pos else (mpNext pos).bind (findIndex index count)
    | _ => (mpNext (item :: pos)).bind fun pos => (mpNext pos).bind (findIndex index count)
  | _, _ => none

def tupleFieldGoToIndex (index : Nat) : Position → Option Position
  | item :: pos =>
    match item.kind with
    | .array count => if count ≤ index then none else skipItems index pos
    | .map count => findIndex (index + 1) count pos
    | .scalar _ => none
  | [] => none

/-- The search for a string key among so many pairs of a map. -/
def findKey (key : Bytes) : Nat → Position → Option Position
  | count + 1, item :: pos =>
    match item.kind with
    | .scalar (.str value) =>
      if value = key then some pos else (mpNext pos).bind (findKey key count)
    | _ => (mpNext (item :: pos)).bind fun pos => (mpNext pos).bind (findKey key count)
  | _, _ => none

def tupleFieldGoToKey (key : Bytes) : Position → Option Position
  | item :: pos =>
    match item.kind with
    | .map count => findKey key count pos
    | _ => none
  | [] => none

def tupleGoToPath : List PathToken → Position → Option Position
  | [], pos => some pos
  | .num index :: path, pos => (tupleFieldGoToIndex index pos).bind (tupleGoToPath path)
  | .str key :: path, pos => (tupleFieldGoToKey key pos).bind (tupleGoToPath path)

namespace Tuple

/-- `tuple_field_raw`. The offsets of the field map lead to the same place. -/
def fieldRaw (t : Tuple) (fieldno : Nat) : Option Position :=
  if t.count ≤ fieldno then none else skipItems fieldno t.items

/-- `tuple_field_raw_by_part`. -/
def fieldByPart (t : Tuple) (part : KeyPart) : Option Position :=
  (t.fieldRaw part.fieldno).bind (tupleGoToPath part.path)

def bsize (t : Tuple) : Nat := t.header.length + (t.items.map (·.raw.length)).sum

end Tuple

def lookup (keyDef : KeyDef) (t : Tuple) (part : KeyPart) : Option Position :=
  if keyDef.hasJsonPaths then t.fieldByPart part else t.fieldRaw part.fieldno

def nilItem : Item Scalar := ⟨[0xc0], .scalar .nil⟩

/-- Field numbers that follow one another. -/
def consecutive : List Nat → Bool
  | f :: g :: fs => f + 1 = g && consecutive (g :: fs)
  | _ => true

/-- The item of a part in a tuple; nil stands for an absent one. -/
def partItem (t : Tuple) (part : KeyPart) : Item Scalar :=
  match t.fieldByPart part with
  | some (item :: _) => item
  | _ => nilItem

def extractKey (keyDef : KeyDef) (t : Tuple) : Position := keyDef.parts.map (partItem t)

/-- A part of a tuple is a scalar of its type, or absent or nil if it may be. -/
def KeyPart.Admits (part : KeyPart) : Option Position → Prop
  | none => part.isNullable
  | some pos => ∃ item value rest, pos = item :: rest ∧ item.kind = .scalar value ∧
    fieldMpTypeIsCompatible part.type value part.isNullable

/-- A tuple of a space with the index; empty tuples do not exist. -/
structure Tuple.ValidFor (t : Tuple) (keyDef : KeyDef) : Prop where
  count_pos : 0 < t.count
  count_ge : keyDef.minFieldCount ≤ t.count
  part : ∀ part ∈ keyDef.parts, part.Admits (t.fieldByPart part)

section Valid

variable {keyDef : KeyDef} {t : Tuple} {part : KeyPart} {parts : List KeyPart}

lemma Tuple.skip_lt {n : Nat} (h : n ≤ t.count) : ∃ pos, skipItems n t.items = some pos ∧
    skipItems (t.count - n) pos = some [] := by
  have ha := skipItems_add n (t.count - n) t.items
  rw [Nat.add_sub_cancel' h, t.complete] at ha
  obtain ⟨pos, hp, hr⟩ := Option.bind_eq_some_iff.1 ha.symm
  exact ⟨pos, hp, hr⟩

lemma lookup_eq (hp : part ∈ keyDef.parts) : lookup keyDef t part = t.fieldByPart part := by
  unfold lookup
  split
  · rfl
  next h =>
    have hpa : part.path = [] := by
      by_contra hn
      exact h (any_eq_true.2 ⟨part, hp, by simpa using hn⟩)
    simp [Tuple.fieldByPart, hpa, tupleGoToPath]

/-- An absent part is one of a definition with optional parts. -/
lemma hasOptionalParts_of_absent (ht : t.ValidFor keyDef) (hp : part ∈ keyDef.parts)
    (h : t.fieldByPart part = none) : keyDef.hasOptionalParts := by
  have ha := ht.part part hp
  rw [h] at ha
  refine any_eq_true.2 ⟨part, hp, ?_⟩
  rw [Bool.and_eq_true, Bool.or_eq_true]
  refine ⟨?_, ha⟩
  by_cases hpa : part.path = []
  · left
    rw [Tuple.fieldByPart, hpa, Tuple.fieldRaw] at h
    have hg := ht.count_ge
    split at h
    · exact decide_eq_true (by omega)
    next hl =>
      obtain ⟨pos, hpo, -⟩ := t.skip_lt (n := part.fieldno) (by omega)
      simp [hpo, tupleGoToPath] at h
  · right
    exact decide_eq_true hpa

lemma Tuple.ValidFor.part_cases (ht : t.ValidFor keyDef) (hp : part ∈ keyDef.parts) :
    (t.fieldByPart part = none ∧ partItem t part = nilItem ∧ part.isNullable) ∨
      ∃ item value rest, t.fieldByPart part = some (item :: rest) ∧ item.kind = .scalar value ∧
        partItem t part = item ∧ fieldMpTypeIsCompatible part.type value part.isNullable := by
  have ha := ht.part part hp
  cases hf : t.fieldByPart part with
  | none =>
    rw [hf] at ha
    exact .inl ⟨rfl, by simp [partItem, hf], ha⟩
  | some pos =>
    rw [hf] at ha
    obtain ⟨item, value, rest, rfl, hk, hc⟩ := ha
    exact .inr ⟨item, value, rest, rfl, hk, by simp [partItem, hf], hc⟩

/-- A position is that of a part, or one past the end of a tuple without the part. -/
def Stands (t : Tuple) (part : KeyPart) (field : Option Position) : Prop :=
  field = t.fieldByPart part ∨ t.fieldByPart part = none ∧ field = some []

lemma stands_next (ht : t.ValidFor keyDef) {p q : KeyPart} (hp : p ∈ keyDef.parts)
    (hpa : p.path = []) (hqa : q.path = []) (hne : p.fieldno + 1 = q.fieldno)
    {next : Option Position}
    (hso : ∀ item rest, t.fieldByPart p = some (item :: rest) → next = some rest)
    (hno : t.fieldByPart p = none → next = none ∨ next = some []) : Stands t q next := by
  have hq : t.fieldByPart q = t.fieldRaw q.fieldno := by
    simp [Tuple.fieldByPart, hqa, tupleGoToPath]
  have hra : t.fieldByPart p = t.fieldRaw p.fieldno := by
    simp [Tuple.fieldByPart, hpa, tupleGoToPath]
  by_cases hc : t.count ≤ p.fieldno
  · have hpn : t.fieldByPart p = none := by simp [hra, Tuple.fieldRaw, hc]
    have hqn : t.fieldByPart q = none := by
      rw [hq, Tuple.fieldRaw, if_pos (by omega)]
    rcases hno hpn with h | h
    · exact .inl (h.trans hqn.symm)
    · exact .inr ⟨hqn, h⟩
  · obtain ⟨pos, hpo, hr⟩ := t.skip_lt (n := p.fieldno) (by omega)
    have hpf : t.fieldByPart p = some pos := by
      rw [hra, Tuple.fieldRaw, if_neg hc, hpo]
    rcases ht.part_cases hp with ⟨hn, -⟩ | ⟨item, value, rest, hs, hk, -⟩
    · rw [hpf] at hn
      cases hn
    obtain rfl : pos = item :: rest := Option.some.inj (hpf.symm.trans hs)
    have hsk : skipItems 1 (item :: rest) = some rest := by
      simp [skipItems, hk, Kind.nested]
    rw [hso item rest hs]
    by_cases hl : t.count ≤ q.fieldno
    · -- the part was the last field of the tuple
      right
      rw [show t.count - p.fieldno = 1 by omega, hsk] at hr
      exact ⟨by rw [hq, Tuple.fieldRaw, if_pos hl], hr⟩
    · left
      rw [hq, Tuple.fieldRaw, if_neg hl, ← hne, skipItems_add, hpo]
      exact hsk.symm

/-- The fields of a tuple from a part on, when the parts are consecutive top-level fields that
it has. -/
lemma position_eq (ht : t.ValidFor keyDef) (hpa : ∀ p ∈ part :: parts, p ∈ keyDef.parts)
    (hpt : ∀ p ∈ part :: parts, p.path = [] ∧ t.fieldByPart p ≠ none)
    (hcons : consecutive ((part :: parts).map (·.fieldno))) :
    ∃ rest, t.fieldByPart part = some ((part :: parts).map (partItem t) ++ rest) := by
  obtain ⟨hpp, hpr⟩ := hpt part mem_cons_self
  have hpar := hpa part mem_cons_self
  rcases ht.part_cases hpar with ⟨hn, -⟩ | ⟨item, value, tail, hs, -, hi, -⟩
  · exact absurd hn hpr
  induction parts generalizing part item value tail with
  | nil => exact ⟨tail, by simp [hs, hi]⟩
  | cons q parts ih =>
    simp only [map_cons, consecutive, Bool.and_eq_true, decide_eq_true_eq] at hcons
    have hq := hpa q (mem_cons_of_mem _ mem_cons_self)
    obtain ⟨hqp, hqr⟩ := hpt q (mem_cons_of_mem _ mem_cons_self)
    have hst : Stands t q (some tail) := by
      refine stands_next ht hpar hpp hqp hcons.1 (fun i r h => ?_) fun h => ?_
      · rw [hs] at h
        cases h
        rfl
      · rw [hs] at h
        cases h
    rcases hst with h | h
    · rcases ht.part_cases hq with ⟨hn, -⟩ | ⟨item', value', tail', hs', -, hi', -⟩
      · exact absurd hn hqr
      obtain ⟨rest, hr⟩ := ih (fun p hp => hpa p (mem_cons_of_mem _ hp))
        (fun p hp => hpt p (mem_cons_of_mem _ hp)) hcons.2 hqp hqr hq item' value'
        tail' hs' hi'
      refine ⟨rest, ?_⟩
      rw [hr] at h
      rw [hs, map_cons, hi, Option.some.inj h]
      rfl
    · exact absurd h.1 hqr

end Valid

end TarantoolStorage.Index
