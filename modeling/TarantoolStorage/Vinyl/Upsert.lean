import TarantoolStorage.Vinyl.Update

/-!
UPSERTs, applied and squashed (`vy_upsert.c`). Whether a group leaves the primary key alone is
checked against the statement that the whole UPSERT is applied to.
-/
namespace TarantoolStorage.Vinyl

open List

/-- A tuple format with its primary key. Validation goes field by field, and the comparison of keys
reads the fields of the parts: `keyOf` stands for the class of keys that `vy_stmt_compare` finds
equal. -/
structure Schema (V F K : Type*) extends FieldTree V F where
  countOk : Nat → Bool
  fieldOk : Nat → V → Bool
  parts : List Nat
  keyOf : List (Option V) → K
  /-- key parts of a primary key are never missing -/
  parts_lt : ∀ n, countOk n = true → ∀ p ∈ parts, p < n
  /-- `BOX_INDEX_PART_MAX` -/
  parts_le : parts.length ≤ 255
  /-- all parts of the key are there -/
  hasKey : List (Option V) → Bool
  /-- `vy_stmt_alloc`: a statement of these fields is not larger than `max_tuple_size` -/
  fits : List V → Bool

variable {V F K : Type*}

namespace Schema

variable (S : Schema V F K)

def tupleValidateRaw (data : List V) : Bool :=
  S.countOk data.length && data.zipIdx.all fun field => S.fieldOk field.2 field.1

def key (data : List V) : K :=
  S.keyOf (S.parts.map fun p => data[p]?)

/-- `vy_stmt_new_replace` makes a statement of the data, and it can be compared by the key. -/
def comparable (data : List V) : Bool :=
  S.fits data && S.hasKey (S.parts.map fun p => data[p]?)

/-- `key_def->column_mask`. -/
def columnMask : BitVec 64 :=
  S.parts.foldl columnMaskSetFieldno 0#64

/-- A tuple, and whether the code got to it: it is not intact once NULL was dereferenced or a tuple
on the way was too large. -/
structure Tuple where
  data : List V
  valid : S.tupleValidateRaw data = true
  intact : Bool

/-- An UPSERT: the tuple to insert and one group of operations for every UPSERT that
was squashed into it, oldest first. -/
structure Upsert where
  lsn : Nat
  tuple : S.Tuple
  group : List (Op V F)
  groups : List (List (Op V F))

inductive Terminal
  | insert (lsn : Nat) (tuple : S.Tuple)
  | replace (lsn : Nat) (deferredDelete update : Bool) (tuple : S.Tuple)
  | delete (lsn : Nat) (deferredDelete : Bool)

/-- A statement of an LSM tree (`struct tuple` with the header of `vy_stmt.h`). -/
inductive Stmt
  | terminal (stmt : S.Terminal)
  | upsert (stmt : S.Upsert)

end Schema

open Schema

variable {S : Schema V F K}

def Schema.Terminal.tuple? : S.Terminal → Option S.Tuple
  | .insert _ tuple => some tuple
  | .replace _ _ _ tuple => some tuple
  | .delete _ _ => none

section Apply

variable [DecidableEq K]

/-- `vy_apply_result_does_cross_pk`. -/
def Schema.applyResultDoesCrossPk (S : Schema V F K) (old result : List V)
    (colMask : BitVec 64) : Bool :=
  if keyUpdateCanBeSkipped S.columnMask colMask then false
  else decide (S.key old ≠ S.key result)

/-- One turn of the loop of `vy_apply_upsert_on_terminal_stmt`; `stmt` is what the key
is compared with. -/
def applyGroup (stmt result : S.Tuple) (group : List (Op V F)) : S.Tuple :=
  match upsertExecute S.toFieldTree result.data group with
  | none => result
  | some (data, columnMask) =>
    -- the comparison dereferences NULL for want of a statement or of a part of the key
    if (!keyUpdateCanBeSkipped S.columnMask columnMask && !S.comparable data) = true then
      { result with intact := false }
    else if S.applyResultDoesCrossPk stmt.data data columnMask then result
    else if h : S.tupleValidateRaw data = true then ⟨data, h, result.intact && S.fits data⟩
    else result

def applyGroups (stmt result : S.Tuple) (groups : List (List (Op V F))) : S.Tuple :=
  groups.foldl (applyGroup stmt) result

/-- The tuple made by `vy_apply_upsert_on_terminal_stmt`. On a void statement the operations that
came with the tuple of the UPSERT are skipped. -/
def appliedTuple (upsert : S.Upsert) : Option S.Tuple → S.Tuple
  | none => applyGroups upsert.tuple upsert.tuple upsert.groups
  | some tuple => applyGroups tuple tuple (upsert.group :: upsert.groups)

/-- `vy_apply_upsert_on_terminal_stmt`. -/
def applyUpsertOnTerminalStmt (upsert : S.Upsert) (stmt : Option S.Terminal) : S.Terminal :=
  .replace upsert.lsn false false (appliedTuple upsert (stmt.bind Terminal.tuple?))

/-- UPSERT + UPSERT of `vy_apply_upsert`. -/
def Schema.Upsert.squash (newer older : S.Upsert) : S.Upsert where
  lsn := newer.lsn
  tuple := older.tuple
  group := older.group
  groups := older.groups ++ newer.group :: newer.groups

/-- `vy_apply_upsert`. -/
def applyUpsert (newer : S.Upsert) (older : Option S.Stmt) : S.Stmt :=
  match older with
  | none => .terminal (applyUpsertOnTerminalStmt newer none)
  | some (.terminal stmt) => .terminal (applyUpsertOnTerminalStmt newer (some stmt))
  | some (.upsert older) => .upsert (newer.squash older)

end Apply

lemma Schema.Tuple.countOk (tuple : S.Tuple) : S.countOk tuple.data.length = true :=
  (Bool.and_eq_true_iff.mp tuple.valid).1

lemma Schema.Tuple.fieldOk (tuple : S.Tuple) {i : Nat} {v : V} (h : tuple.data[i]? = some v) :
    S.fieldOk i v = true := by
  have ha := all_eq_true.mp (Bool.and_eq_true_iff.mp tuple.valid).2
  exact ha (v, i) (mk_mem_zipIdx_iff_getElem?.mpr h)

lemma Schema.tupleValidateRaw_of_fields {data : List V} (hc : S.countOk data.length = true)
    (hf : ∀ i v, data[i]? = some v → S.fieldOk i v = true) :
    S.tupleValidateRaw data = true := by
  refine Bool.and_eq_true_iff.mpr ⟨hc, all_eq_true.mpr ?_⟩
  rintro ⟨v, i⟩ hm
  exact hf i v (mk_mem_zipIdx_iff_getElem?.mp hm)

lemma Schema.Tuple.part_lt (tuple : S.Tuple) {p : Nat} (hp : p ∈ S.parts) : p < tuple.data.length :=
  S.parts_lt _ tuple.countOk p hp

lemma Schema.key_congr {a b : List V} (h : ∀ p ∈ S.parts, a[p]? = b[p]?) : S.key a = S.key b := by
  unfold Schema.key
  rw [map_congr_left h]

lemma Schema.columnMask_part {p : Nat} (hp : p ∈ S.parts) :
    S.columnMask.getLsbD (maskBit p) = true := by
  have hf : ∀ (ps : List Nat) (mask : BitVec 64), p ∈ ps ∨ mask.getLsbD (maskBit p) = true →
        (ps.foldl columnMaskSetFieldno mask).getLsbD (maskBit p) = true := by
    intro ps
    induction ps with
    | nil =>
      intro mask h
      exact h.resolve_left (by simp)
    | cons q ps ih =>
      intro mask h
      refine ih _ ?_
      rw [getLsbD_setFieldno]
      rcases h with hm | hs
      · rcases mem_cons.mp hm with rfl | hm
        · simp
        · exact .inl hm
      · simp [hs]
  exact hf _ _ (.inl hp)

lemma Schema.clear_of_skipped {mask : BitVec 64}
    (h : keyUpdateCanBeSkipped S.columnMask mask = true) {p : Nat} (hp : p ∈ S.parts) :
    mask.getLsbD (maskBit p) = false := by
  have ha : (S.columnMask &&& mask).getLsbD (maskBit p) = false := by
    rw [beq_iff_eq.mp h]
    simp
  rwa [BitVec.getLsbD_and, columnMask_part hp, Bool.true_and] at ha

section Law

variable [DecidableEq K]

/-- The comparison reads only the key of the statement an UPSERT is applied to. -/
lemma applyGroups_congr {a b : S.Tuple} (h : S.key a.data = S.key b.data) (result : S.Tuple)
    (groups : List (List (Op V F))) :
    applyGroups a result groups = applyGroups b result groups := by
  have hc : S.applyResultDoesCrossPk a.data = S.applyResultDoesCrossPk b.data := by
    funext data mask
    unfold applyResultDoesCrossPk
    rw [h]
  have hg : applyGroup a = applyGroup b := by
    funext result group
    unfold applyGroup
    rw [hc]
  unfold applyGroups
  rw [hg]

/-- What the key is compared with when an UPSERT is applied. -/
def reference (upsert : S.Upsert) (base : Option S.Tuple) : S.Tuple :=
  base.getD upsert.tuple

/-- Applying the UPSERT does not fail, and leaves the primary key as it is. -/
def KeepsKey (upsert : S.Upsert) (base : Option S.Tuple) : Prop :=
  S.key (appliedTuple upsert base).data = S.key (reference upsert base).data ∧
    (appliedTuple upsert base).intact = true

instance (upsert : S.Upsert) (base : Option S.Tuple) : Decidable (KeepsKey upsert base) :=
  inferInstanceAs (Decidable (_ ∧ _))

lemma appliedTuple_squash (newer older : S.Upsert) (base : Option S.Tuple) :
    appliedTuple (newer.squash older) base =
      applyGroups (reference older base) (appliedTuple older base)
        (newer.group :: newer.groups) := by
  cases base with
  | none => simp [appliedTuple, reference, applyGroups, Upsert.squash]
  | some tuple => simp [appliedTuple, reference, applyGroups, Upsert.squash]

/-- Two neighbours: the squashed UPSERT does what they do one after another. -/
lemma appliedTuple_squash_of_keepsKey {older : S.Upsert} {base : Option S.Tuple}
    (h : KeepsKey older base) (newer : S.Upsert) :
    appliedTuple (newer.squash older) base =
      appliedTuple newer (some (appliedTuple older base)) := by
  rw [appliedTuple_squash]
  exact applyGroups_congr h.1.symm _ _

end Law

end TarantoolStorage.Vinyl
