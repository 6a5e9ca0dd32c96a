import TarantoolStorage.Vinyl.Update

/-!
The column mask of an UPDATE, which stops at the first operation that fails, against the fields it
changes.
-/
namespace TarantoolStorage.Vinyl

open List Option

section Execution

variable {V F : Type*} (tree : FieldTree V F)
  -- whether an operation inside a field succeeds on it
  (succeeds : Op V F → F → Bool)

/-- `op->meta->do_op` at the root; `none` is an error. -/
def tryOp (fields : List F) (op : Op V F) : Option (List F) :=
  match op.action with
  | .set value =>
    if (fields.length : Int) ≤ op.fieldNo then some (doArrayInsert tree fields op.fieldNo value)
    else (adjustFieldNo op.fieldNo fields.length).map fun i => fields.modify i (tree.set value)
  | .insert value =>
    let size := max fields.length op.fieldNo.toNat
    (adjustFieldNo op.fieldNo (size + 1)).map fun _ => doArrayInsert tree fields op.fieldNo value
  | .delete count =>
    match adjustFieldNo op.fieldNo fields.length with
    | some i => some (fields.take i ++ fields.drop (i + count))
    | none => if (fields.length : Int) ≤ op.fieldNo then some fields else none
  | .inside change =>
    (adjustFieldNo op.fieldNo fields.length).bind fun i =>
      fields[i]?.bind fun f => if succeeds op f then some (fields.modify i change) else none

/-- `xrow_update_do_ops`. -/
def updateDoOps (data : List V) (ops : List (Op V F)) : Option (List F) :=
  ops.foldlM (tryOp tree succeeds) (data.map tree.nop)

/-- `xrow_update_execute`: the new data and the column mask. -/
def updateExecute (data : List V) (ops : List (Op V F)) : Option (List V × BitVec 64) :=
  if updateOpCountMax < ops.length then none
  else (updateDoOps tree succeeds data ops).map fun fields =>
    (arrayStore tree fields, readOps ops data.length)

end Execution

section Soundness

variable {V F : Type*} {tree : FieldTree V F} {succeeds : Op V F → F → Bool} {fields : List F}
  {ops : List (Op V F)} {i : Nat} {mask : BitVec 64}

/-- An operation that succeeds does what it does in an UPSERT. -/
lemma tryOp_eq {op : Op V F} {fields' : List F} (h : tryOp tree succeeds fields op = some fields') :
    fields' = doOp tree fields op := by
  unfold tryOp at h
  unfold doOp
  cases ha : op.action with
  | set value =>
    simp only [ha, doArraySet] at h ⊢
    split at h
    next hl => rw [if_pos hl, ← some.inj h]
    next hlt =>
      obtain ⟨i, hi, rfl⟩ := map_eq_some_iff.1 h
      rw [if_neg hlt, hi]
  | insert value =>
    simp only [ha] at h ⊢
    obtain ⟨_, -, rfl⟩ := map_eq_some_iff.1 h
    rfl
  | delete count =>
    simp only [ha, doArrayDelete] at h ⊢
    split at h <;> simp_all
  | inside change =>
    simp only [ha, doArrayInside] at h ⊢
    obtain ⟨i, hi, h⟩ := bind_eq_some_iff.1 h
    obtain ⟨f, -, h⟩ := bind_eq_some_iff.1 h
    rw [hi]
    split at h
    · exact (some.inj h).symm
    · cases h

lemma updateDoOps_eq {data : List V} {result : List F}
    (h : updateDoOps tree succeeds data ops = some result) :
    result = ops.foldl (doOp tree) (data.map tree.nop) := by
  unfold updateDoOps at h
  generalize data.map tree.nop = fields at h
  induction ops generalizing fields with
  | nil => exact (some.inj h).symm
  | cons op ops ih =>
    rw [foldlM_cons, bind_eq_bind] at h
    obtain ⟨fields', ho, h⟩ := bind_eq_some_iff.1 h
    rw [foldl_cons, ← tryOp_eq ho]
    exact ih fields' h

/-- Every operation of a list acts, when it is executed, only on fields that a mask has. -/
def Covered (tree : FieldTree V F) (mask : BitVec 64) : List (Op V F) → List F → Prop
  | [], _ => True
  | op :: ops, fields =>
    (∀ i, op.action.Spares (op.resolved fields.length) i ∨ mask.getLsbD (maskBit i) = true) ∧
      Covered tree mask ops (doOp tree fields op)

/-- Field numbers from the start, and those from the end while the hint is the field count, are
in the mask. -/
lemma covered_of_tracks {state : BitVec 64 × Int} (h : Tracks tree ops fields state) :
    Covered tree (ops.foldl readOp state).1 ops fields := by
  induction ops generalizing fields state with
  | nil => trivial
  | cons op ops ih =>
    obtain ⟨ht, hre⟩ := h
    refine ⟨fun i => ?_, ih hre⟩
    have hr : op.resolved state.2 = op.resolved fields.length := by
      rcases ht with hp | he
      · simp [Op.resolved, hp]
      · rw [he]
    cases hb : ((op :: ops).foldl readOp state).1.getLsbD (maskBit i) with
    | true => exact .inr rfl
    | false =>
      left
      rw [← hr]
      exact (spares_of_readOp (bit_clear_of_foldl_readOp hb)).2

/-- Nothing, or a nil that filled a gap. -/
def Vacant (tree : FieldTree V F) (fields : List F) (i : Nat) : Prop :=
  fields[i]? = none ∨ fields[i]? = some (tree.nop tree.nil)

lemma vacant_insert {n : Int} {value : V} (hi : Vacant tree fields i)
    (hs : ∀ j : Nat, (j : Int) = (if 0 ≤ n then n else fields.length + n + 1) → i < j ∨
      (fields.length ≤ j ∧ j ≠ i)) : Vacant tree (doArrayInsert tree fields n value) i := by
  have hf : Vacant tree (fields ++
      List.replicate (n.toNat - fields.length) (tree.nop tree.nil)) i := by
    by_cases hlt : i < fields.length
    · unfold Vacant
      rw [getElem?_append_left hlt]
      exact hi
    · unfold Vacant
      rw [getElem?_append_right (by omega), getElem?_replicate]
      split
      · exact .inr rfl
      · exact .inl rfl
  unfold doArrayInsert
  dsimp only
  split
  next j hj =>
    have hj' := adjustFieldNo_eq hj
    have hp : (j : Int) = if 0 ≤ n then n else fields.length + n + 1 := by
      by_cases hn : 0 ≤ n
      · simpa [hn] using hj'
      · have : n.toNat = 0 := by omega
        simp only [hn, if_false, this, Nat.zero_sub, replicate_zero, append_nil] at hj' ⊢
        push_cast at hj'
        omega
    rcases hs j hp with hij | ⟨hle, hne⟩
    · unfold Vacant
      rw [getElem?_insertIdx_of_lt hij]
      exact hf
    · by_cases hij : i < j
      · unfold Vacant
        rw [getElem?_insertIdx_of_lt hij]
        exact hf
      · -- behind the value that was put at the end
        left
        rw [getElem?_eq_none_iff]
        have hl : (fields ++ List.replicate (n.toNat - fields.length)
            (tree.nop tree.nil)).length ≤ j := by
          simp only [length_append, length_replicate]
          by_cases hn : 0 ≤ n
          · simp only [hn, if_true] at hp
            omega
          · have : n.toNat = 0 := by omega
            omega
        rw [length_insertIdx]
        split <;> omega
  · exact hf

lemma vacant_doOp {op : Op V F} (hi : Vacant tree fields i)
    (hs : op.action.Spares (op.resolved fields.length) i) :
    Vacant tree (doOp tree fields op) i := by
  obtain ⟨n, action⟩ := op
  have hm (change : F → F) {j : Nat} (hj : j ≠ i) : Vacant tree (fields.modify j change) i := by
    have he : (fields.modify j change)[i]? = fields[i]? := by simp [hj]
    unfold Vacant
    rw [he]
    exact hi
  cases action with
  | set value =>
    have hne : (if 0 ≤ n then n else fields.length + n) ≠ i := by
      simpa [Action.Spares, Op.resolved] using hs
    simp only [doOp, doArraySet]
    split
    next hl =>
      refine vacant_insert hi fun j hj => .inr ?_
      have hn : 0 ≤ n := by omega
      simp only [hn, if_true] at hj hne
      omega
    · split
      next j hj =>
        refine hm _ fun h => hne ?_
        rw [← adjustFieldNo_eq hj, h]
      · exact hi
  | insert value =>
    refine vacant_insert hi fun j hj => .inl ?_
    simp only [Action.Spares, Op.resolved, ← hj] at hs
    omega
  | delete count =>
    simp only [Action.Spares, Op.resolved] at hs
    simp only [doOp, doArrayDelete]
    split
    next j hj =>
      have hj' := adjustFieldNo_eq hj
      have hij : i < j := by omega
      unfold Vacant
      by_cases hlt : i < fields.length
      · rw [getElem?_append_left (by rw [length_take]; omega), getElem?_take_of_lt hij]
        exact hi
      · left
        rw [getElem?_eq_none_iff, length_append, length_take, length_drop]
        omega
    · exact hi
  | inside change =>
    simp only [doOp, doArrayInside]
    split
    next j hj =>
      refine hm _ fun h => ?_
      simp only [Action.Spares, Op.resolved] at hs
      exact hs (by rw [← adjustFieldNo_eq hj, h])
    · exact hi

/-- What operations keep that spare a field, they keep if a covering mask does not have it. -/
lemma kept_of_covered {P : List F → Prop} (h : Covered tree mask ops fields)
    (hc : mask.getLsbD (maskBit i) = false) (hi : P fields)
    (hstep : ∀ {fields op}, P fields → op.action.Spares (op.resolved fields.length) i →
      P (doOp tree fields op)) : P (ops.foldl (doOp tree) fields) := by
  induction ops generalizing fields with
  | nil => exact hi
  | cons op ops ih =>
    obtain ⟨ho, hr⟩ := h
    refine ih hr (hstep hi ?_)
    rcases ho i with hs | hse
    · exact hs
    · rw [hc] at hse
      cases hse

def fieldOr (nil : V) (data : List V) (i : Nat) : V := data[i]?.getD nil

lemma fieldOr_of_covered {data : List V} (h : Covered tree mask ops (data.map tree.nop))
    (hc : mask.getLsbD (maskBit i) = false) :
    fieldOr tree.nil (arrayStore tree (ops.foldl (doOp tree) (data.map tree.nop))) i =
      fieldOr tree.nil data i := by
  unfold fieldOr
  rw [getElem?_arrayStore]
  cases hi : data[i]? with
  | some v =>
    have hf := kept_of_covered (P := (·[i]? = some _)) h hc (by rw [getElem?_map, hi, map_some])
      getElem?_doOp
    simp [hf, tree.store_nop]
  | none =>
    have hv : Vacant tree (data.map tree.nop) i := .inl (by simp [hi])
    rcases kept_of_covered (P := (Vacant tree · i)) h hc hv vacant_doOp with hn | hni
    · simp [hn]
    · simp [hni, tree.store_nop]

/-- An UPDATE in which every negative field number is read while the hint is the field count that
the operation meets: a field that changes has its bit set, and a skipped index keeps its key. -/
theorem update_mask_covers {data new : List V} {mask : BitVec 64}
    (h : updateExecute tree succeeds data ops = some (new, mask))
    (ht : Tracks tree ops (data.map tree.nop) (0#64, (data.length : Int))) :
    (∀ i, fieldOr tree.nil new i ≠ fieldOr tree.nil data i → mask.getLsbD (maskBit i) = true) ∧
      ∀ keyMask, keyUpdateCanBeSkipped keyMask mask → ∀ i, keyMask.getLsbD (maskBit i) = true →
        fieldOr tree.nil new i = fieldOr tree.nil data i := by
  unfold updateExecute at h
  split at h
  · cases h
  obtain ⟨fields, ho, hr⟩ := map_eq_some_iff.1 h
  obtain ⟨rfl, rfl⟩ := Prod.mk.inj hr
  obtain rfl := updateDoOps_eq ho
  have hc : Covered tree (readOps ops data.length) ops (data.map tree.nop) := covered_of_tracks ht
  refine ⟨fun i hn => ?_, ?_⟩
  · by_contra hcl
    exact hn (fieldOr_of_covered hc (by simpa using hcl))
  · intro keyMask hs i hk
    refine fieldOr_of_covered hc ?_
    have ha : (keyMask &&& readOps ops data.length).getLsbD (maskBit i) = false := by
      rw [eq_of_beq hs, BitVec.getLsbD_zero]
    rw [BitVec.getLsbD_and, hk, Bool.true_and] at ha
    exact ha

end Soundness

def numberTree : FieldTree Nat Nat where
  nil := 0
  nop := id
  set v _ := v
  store _ f := f
  store_nop _ _ := rfl
  store_set _ _ _ := rfl

/-- A deletion behind the end does nothing but lowers the hint: the last field of three is changed
under the bit of the second one, and its index is skipped. -/
theorem mask_after_void_delete :
    updateExecute numberTree (fun _ _ => true) [1, 2, 3] [⟨10, .delete 1⟩, ⟨-1, .set 9⟩] =
        some ([1, 2, 9], columnMaskFull <<< 10 ||| 2#64) ∧
      (columnMaskFull <<< 10 ||| 2#64).getLsbD (maskBit 2) = false ∧
      keyUpdateCanBeSkipped (1#64 <<< 2) (columnMaskFull <<< 10 ||| 2#64) := by
  decide

/-- An insertion before a field number from the end. -/
theorem mask_after_insert :
    updateExecute numberTree (fun _ _ => true) [1, 2, 3] [⟨1, .insert 8⟩, ⟨-1, .set 9⟩] =
        some ([1, 8, 2, 9], columnMaskFull <<< 1) ∧
      ∀ i, fieldOr 0 [1, 8, 2, 9] i ≠ fieldOr 0 [1, 2, 3] i →
        (columnMaskFull <<< 1).getLsbD (maskBit i) = true := by
  have he : updateExecute numberTree (fun _ _ => true) [1, 2, 3]
      [⟨1, .insert 8⟩, ⟨-1, .set 9⟩] = some ([1, 8, 2, 9], columnMaskFull <<< 1) := by
    decide
  refine ⟨he, (update_mask_covers he ?_).1⟩
  exact ⟨.inl (by decide), .inr (by decide), trivial⟩

end TarantoolStorage.Vinyl
