import Mathlib

/-!
Update operations on the root array of a tuple (`xrow_update.c`, `xrow_update_array.c`) and their
column mask. A field under update is a tree `F` over values `V`.
-/
namespace TarantoolStorage.Vinyl

open List

/-- The fields of the root array while operations run (`struct xrow_update_field`): untouched, the
result of '=', and the value stored in the end, which may depend on the place in the format. -/
structure FieldTree (V F : Type*) where
  nil : V
  nop : V → F
  set : V → F → F
  store : Nat → F → V
  store_nop : ∀ i v, store i (nop v) = v
  store_set : ∀ i v f, store i (set v f) = v

/-- The operations by what they do to the root array: '=', '!' and '#' with one token, and all
others, which change one field, also when they fail half way. -/
inductive Action (V F : Type*)
  | set (value : V)
  | insert (value : V)
  | delete (count : Nat)
  | inside (change : F → F)

/-- `struct xrow_update_op`; field numbers are 0-based, negative ones count from the end. -/
structure Op (V F : Type*) where
  fieldNo : Int
  action : Action V F

section Execution

variable {V F : Type*} (tree : FieldTree V F)

/-- `xrow_update_op_adjust_field_no`. -/
def adjustFieldNo (fieldNo : Int) (fieldCount : Nat) : Option Nat :=
  if 0 ≤ fieldNo then
    if fieldNo < fieldCount then some fieldNo.toNat else none
  else if 0 ≤ fieldNo + fieldCount then some (fieldNo + fieldCount).toNat
  else none

/-- `xrow_update_op_do_array_insert`: a number behind the end is reached by nils. -/
def doArrayInsert (fields : List F) (fieldNo : Int) (value : V) : List F :=
  -- xrow_update_array_append_nils
  let filled := fields ++ List.replicate (fieldNo.toNat - fields.length) (tree.nop tree.nil)
  match adjustFieldNo fieldNo (filled.length + 1) with
  | some i => filled.insertIdx i (tree.nop value)
  | none => filled

/-- `xrow_update_op_do_array_set`. -/
def doArraySet (fields : List F) (fieldNo : Int) (value : V) : List F :=
  -- '=' for field n + 1 is an insert
  if (fields.length : Int) ≤ fieldNo then doArrayInsert tree fields fieldNo value
  else match adjustFieldNo fieldNo fields.length with
    | some i => fields.modify i (tree.set value)
    | none => fields

/-- `xrow_update_op_do_array_delete`: behind the end there is nothing to delete. -/
def doArrayDelete (fields : List F) (fieldNo : Int) (count : Nat) : List F :=
  match adjustFieldNo fieldNo fields.length with
  | some i => fields.take i ++ fields.drop (i + count)
  | none => fields

/-- The generic body of the other operations of the root array. -/
def doArrayInside (fields : List F) (fieldNo : Int) (change : F → F) : List F :=
  match adjustFieldNo fieldNo fields.length with
  | some i => fields.modify i change
  | none => fields

/-- `op->meta->do_op` at the root; an operation that fails is passed over by
`xrow_upsert_do_ops`. -/
def doOp (fields : List F) (op : Op V F) : List F :=
  match op.action with
  | .set value => doArraySet tree fields op.fieldNo value
  | .insert value => doArrayInsert tree fields op.fieldNo value
  | .delete count => doArrayDelete fields op.fieldNo count
  | .inside change => doArrayInside fields op.fieldNo change

/-- `xrow_upsert_do_ops` after `xrow_update_array_create`. -/
def upsertDoOps (data : List V) (ops : List (Op V F)) : List F :=
  ops.foldl (doOp tree) (data.map tree.nop)

/-- `xrow_update_array_store`. -/
def arrayStore (fields : List F) : List V :=
  fields.mapIdx tree.store

end Execution

section ColumnMask

/-- `COLUMN_MASK_FULL`. -/
def columnMaskFull : BitVec 64 := BitVec.allOnes 64

def columnMaskSetFieldno (mask : BitVec 64) (fieldno : Nat) : BitVec 64 :=
  if 63 ≤ fieldno then mask ||| 1#64 <<< 63 else mask ||| 1#64 <<< fieldno

def columnMaskSetRange (mask : BitVec 64) (first : Nat) : BitVec 64 :=
  if first < 63 then mask ||| columnMaskFull <<< first else mask ||| 1#64 <<< 63

def keyUpdateCanBeSkipped (keyMask updateMask : BitVec 64) : Bool :=
  keyMask &&& updateMask == 0#64

variable {V F : Type*}

/-- The field number of an operation as the mask sees it: negative numbers are
resolved with `field_count_hint`. -/
def Op.resolved (op : Op V F) (hint : Int) : Int :=
  if 0 ≤ op.fieldNo then op.fieldNo
  else match op.action with
    | .insert _ => hint + op.fieldNo + 1
    | _ => hint + op.fieldNo

/-- One turn of the loop of `xrow_update_read_ops`, on the mask and the hint. -/
def readOp (state : BitVec 64 × Int) (op : Op V F) : BitVec 64 × Int :=
  if state.1 = columnMaskFull then state
  else
    let fieldNo := op.resolved state.2
    if fieldNo < 0 then (columnMaskSetRange state.1 0, state.2)
    else match op.action with
      | .insert _ => (columnMaskSetRange state.1 fieldNo.toNat, state.2 + 1)
      | .delete count =>
        -- the count is 32 bits unsigned and is cast to a signed number
        (columnMaskSetRange state.1 fieldNo.toNat, state.2 - Int.bmod count (2 ^ 32))
      | _ => (columnMaskSetFieldno state.1 fieldNo.toNat, state.2)

/-- `xrow_update_read_ops` for operations that have been decoded. -/
def readOps (ops : List (Op V F)) (fieldCount : Nat) : BitVec 64 :=
  (ops.foldl readOp (0#64, (fieldCount : Int))).1

/-- `BOX_UPDATE_OP_CNT_MAX`. -/
def updateOpCountMax : Nat := 4000

/-- `xrow_upsert_execute`: the new data and the column mask. -/
def upsertExecute (tree : FieldTree V F) (data : List V) (ops : List (Op V F)) :
    Option (List V × BitVec 64) :=
  if updateOpCountMax < ops.length then none
  else some (arrayStore tree (upsertDoOps tree data ops), readOps ops data.length)

end ColumnMask

def maskBit (fieldno : Nat) : Nat := min fieldno 63

lemma maskBit_lt (fieldno : Nat) : maskBit fieldno < 64 := by
  unfold maskBit
  omega

lemma getLsbD_setFieldno (mask : BitVec 64) (fieldno i : Nat) :
    (columnMaskSetFieldno mask fieldno).getLsbD (maskBit i) =
      (mask.getLsbD (maskBit i) || decide (maskBit i = maskBit fieldno)) := by
  have ho : ∀ n < 64, (1#64 <<< n).getLsbD (maskBit i) = decide (maskBit i = n) := by
    intro n hn
    have hi := maskBit_lt i
    simp only [BitVec.getLsbD_shiftLeft, BitVec.getLsbD_one]
    by_cases h : maskBit i = n
    · simp [h, hn]
    · rcases Nat.lt_or_gt_of_ne h with hl | hg
      · simp [hl, h]
      · have : ¬ maskBit i - n = 0 := by omega
        simp [this, h]
  unfold columnMaskSetFieldno
  split
  · rw [BitVec.getLsbD_or, ho 63 (by omega)]
    simp [maskBit, *]
  · rw [BitVec.getLsbD_or, ho fieldno (by omega)]
    have : maskBit fieldno = fieldno := by unfold maskBit; omega
    rw [this]

lemma getLsbD_setRange_of_ge (mask : BitVec 64) {first i : Nat} (h : first ≤ i) :
    (columnMaskSetRange mask first).getLsbD (maskBit i) = true := by
  have hi := maskBit_lt i
  unfold columnMaskSetRange
  split
  · have hl : first ≤ maskBit i := by unfold maskBit; omega
    simp only [BitVec.getLsbD_or, BitVec.getLsbD_shiftLeft, columnMaskFull, BitVec.getLsbD_allOnes]
    have : maskBit i - first < 64 := by omega
    simp [hi, this, Nat.not_lt.mpr hl]
  · have : maskBit i = 63 := by unfold maskBit; omega
    rw [this, BitVec.getLsbD_or]
    simp

lemma getLsbD_setRange_of_set {mask : BitVec 64} {i : Nat} (first : Nat)
    (h : mask.getLsbD (maskBit i) = true) :
    (columnMaskSetRange mask first).getLsbD (maskBit i) = true := by
  unfold columnMaskSetRange
  split <;> simp [h]

section Soundness

variable {V F : Type*} {tree : FieldTree V F} {fields : List F} {i : Nat} {f : F} {op : Op V F}
  {state : BitVec 64 × Int} {ops : List (Op V F)}

/-- An operation with the resolved number `n` leaves field `i` where and as it is. -/
def Action.Spares : Action V F → Int → Nat → Prop
  | .insert _, n, i | .delete _, n, i => n < 0 ∨ (i : Int) < n
  | _, n, i => n ≠ i

lemma adjustFieldNo_eq {fieldNo : Int} {count j : Nat} (h : adjustFieldNo fieldNo count = some j) :
    (j : Int) = if 0 ≤ fieldNo then fieldNo else count + fieldNo := by
  grind [adjustFieldNo]

lemma getElem?_doArrayInsert {n : Int} {value : V} (hi : fields[i]? = some f)
    (hs : ∀ j : Nat, (j : Int) = (if 0 ≤ n then n else fields.length + n + 1) → i < j) :
    (doArrayInsert tree fields n value)[i]? = some f := by
  have hl : i < fields.length := (List.getElem?_eq_some_iff.mp hi).1
  have hf (more : List F) : (fields ++ more)[i]? = some f := by
    rw [getElem?_append_left hl, hi]
  unfold doArrayInsert
  dsimp only
  split
  · rename_i j hj
    have hj' := adjustFieldNo_eq hj
    have hij : i < j := by
      by_cases hn : 0 ≤ n
      · exact hs j (by simpa [hn] using hj')
      · refine hs j ?_
        have : n.toNat = 0 := by omega
        simp only [hn, if_false, this, Nat.zero_sub, replicate_zero, append_nil] at hj' ⊢
        push_cast at hj'
        omega
    rw [getElem?_insertIdx_of_lt hij]
    exact hf _
  · exact hf _

lemma getElem?_modify_of_adjust {n : Int} {change : F → F} (hi : fields[i]? = some f)
    (hs : (if 0 ≤ n then n else fields.length + n) ≠ i) :
    (doArrayInside fields n change)[i]? = some f := by
  unfold doArrayInside
  split
  · rename_i j hj
    have hij : j ≠ i := by
      intro h
      exact hs (by rw [← adjustFieldNo_eq hj, h])
    rw [getElem?_modify, hi]
    simp [hij]
  · exact hi

/-- The field that an operation spares is found after it. -/
lemma getElem?_doOp (hi : fields[i]? = some f)
    (hs : op.action.Spares (op.resolved fields.length) i) :
    (doOp tree fields op)[i]? = some f := by
  have hl : i < fields.length := (List.getElem?_eq_some_iff.mp hi).1
  obtain ⟨n, action⟩ := op
  cases action with
  | set value =>
    have hn : (if 0 ≤ n then n else fields.length + n) ≠ i := by
      simpa [Action.Spares, Op.resolved] using hs
    simp only [doOp, doArraySet]
    split
    · refine getElem?_doArrayInsert hi fun j hj => ?_
      have : 0 ≤ n := by omega
      simp only [this, if_true] at hj
      omega
    · exact getElem?_modify_of_adjust hi hn
  | insert value =>
    refine getElem?_doArrayInsert hi fun j hj => ?_
    simp only [Action.Spares, Op.resolved, ← hj] at hs
    omega
  | delete count =>
    simp only [Action.Spares, Op.resolved] at hs
    simp only [doOp, doArrayDelete]
    split
    · rename_i j hj
      have hj' := adjustFieldNo_eq hj
      have hij : i < j := by omega
      rw [getElem?_append_left (by rw [length_take]; omega), getElem?_take_of_lt hij, hi]
    · exact hi
  | inside change =>
    refine getElem?_modify_of_adjust hi ?_
    simpa [Action.Spares, Op.resolved] using hs

/-- A bit that is not set after an operation: it was not set before, and the operation spares the
field, as far as the hint tells. -/
lemma spares_of_readOp (h : (readOp state op).1.getLsbD (maskBit i) = false) :
    state.1.getLsbD (maskBit i) = false ∧ op.action.Spares (op.resolved state.2) i := by
  unfold readOp at h
  split at h
  · rename_i hf
    rw [hf, columnMaskFull, BitVec.getLsbD_allOnes] at h
    simp [maskBit_lt] at h
  · dsimp only at h
    -- a range from n on, set by '!' and '#'
    have hr : ∀ n : Nat, (columnMaskSetRange state.1 n).getLsbD (maskBit i) = false →
        state.1.getLsbD (maskBit i) = false ∧ i < n := by
      intro n hn
      constructor
      · by_contra hs
        rw [getLsbD_setRange_of_set n (by simpa using hs)] at hn
        cases hn
      · by_contra hl
        rw [getLsbD_setRange_of_ge _ (Nat.not_lt.mp hl)] at hn
        cases hn
    have hb : ∀ n : Nat, (columnMaskSetFieldno state.1 n).getLsbD (maskBit i) = false →
        state.1.getLsbD (maskBit i) = false ∧ n ≠ i := by
      intro n hn
      rw [getLsbD_setFieldno, Bool.or_eq_false_iff, decide_eq_false_iff_not] at hn
      exact ⟨hn.1, fun he => hn.2 (by rw [he])⟩
    split at h
    · have := (hr 0 h).2
      omega
    · rename_i hn
      split at h
      · rename_i ha
        obtain ⟨hs, hlt⟩ := hr _ h
        simp only [ha, Action.Spares]
        exact ⟨hs, by omega⟩
      · rename_i ha
        obtain ⟨hs, hlt⟩ := hr _ h
        simp only [ha, Action.Spares]
        exact ⟨hs, by omega⟩
      · rename_i hi hd
        obtain ⟨hs, hne⟩ := hb _ h
        refine ⟨hs, ?_⟩
        cases ha : op.action with
        | insert value => exact absurd ha (hi value)
        | delete count => exact absurd ha (hd count)
        | set value => simp only [Action.Spares]; omega
        | inside change => simp only [Action.Spares]; omega

/-- The hint can be relied on for this operation: it is the field count, or the
operation does not use it. -/
def Op.Tracked (op : Op V F) (fields : List F) (hint : Int) : Prop :=
  0 ≤ op.fieldNo ∨ hint = fields.length

/-- Every operation of a group is tracked when it is executed. -/
def Tracks (tree : FieldTree V F) : List (Op V F) → List F → BitVec 64 × Int → Prop
  | [], _, _ => True
  | op :: ops, fields, state =>
    op.Tracked fields state.2 ∧ Tracks tree ops (doOp tree fields op) (readOp state op)

section

variable (h : (ops.foldl readOp state).1.getLsbD (maskBit i) = false)
include h

lemma bit_clear_of_foldl_readOp :
    state.1.getLsbD (maskBit i) = false := by
  induction ops generalizing state with
  | nil => exact h
  | cons op ops ih => exact (spares_of_readOp (ih h)).1

lemma spares_of_foldl_readOp
    (ho : op ∈ ops) : ∃ hint, op.action.Spares (op.resolved hint) i := by
  induction ops generalizing state with
  | nil => cases ho
  | cons o ops ih =>
    rcases mem_cons.mp ho with rfl | ho
    · exact ⟨_, (spares_of_readOp (bit_clear_of_foldl_readOp h)).2⟩
    · exact ih h ho

end

lemma getElem?_arrayStore (fields : List F) (i : Nat) :
    (arrayStore tree fields)[i]? = fields[i]?.map (tree.store i) := by
  simp [arrayStore]

lemma doOp_set {p : Nat} (hp : p < fields.length) (v : V) :
    doOp tree fields ⟨p, .set v⟩ = fields.modify p (tree.set v) := by
  have ha : adjustFieldNo p fields.length = some p := by
    simp [adjustFieldNo, hp]
  simp [doOp, doArraySet, ha, Nat.not_le.mpr hp]

lemma getElem?_arrayStore_set {p : Nat} (hp : p < fields.length) (v : V) (i : Nat) :
    (arrayStore tree (doOp tree fields ⟨p, .set v⟩))[i]? =
      if i = p then some v else (arrayStore tree fields)[i]? := by
  rw [doOp_set hp, getElem?_arrayStore, getElem?_arrayStore, getElem?_modify]
  by_cases hi : i = p
  · subst hi
    simp [getElem?_eq_getElem hp, tree.store_set]
  · simp [hi, Ne.symm hi]

end Soundness

end TarantoolStorage.Vinyl
