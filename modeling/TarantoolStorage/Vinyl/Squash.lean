import TarantoolStorage.Vinyl.Upsert

/-!
Histories of a key (`vy_history.c`) and the squashing of UPSERTs, which agree if no UPSERT changes
the primary key.
-/
namespace TarantoolStorage.Vinyl

open Schema List Option Terminal

variable {V F K : Type*} {S : Schema V F K}

/-- `struct vy_history`: the statements of a key down to the first one that is not an
UPSERT, newest first. -/
structure History (S : Schema V F K) where
  upserts : List S.Upsert
  terminal : Option S.Terminal

/-- The history that a reader collects from statements in the order of decreasing LSN. -/
def History.collect : List S.Stmt → History S
  | [] => ⟨[], none⟩
  | .terminal stmt :: _ => ⟨[], some stmt⟩
  | .upsert stmt :: older =>
    let history := collect older
    { history with upserts := stmt :: history.upserts }

def Schema.Terminal.isDelete : S.Terminal → Bool
  | .delete _ _ => true
  | _ => false

section

variable [DecidableEq K]

def applyAll (upserts : List S.Upsert) (stmt : Option S.Terminal) : Option S.Terminal :=
  upserts.foldl (fun curr upsert => some (applyUpsertOnTerminalStmt upsert curr)) stmt

/-- `vy_history_apply`. -/
def historyApply (history : History S) (keepDelete : Bool) : Option S.Terminal :=
  -- a terminal DELETE is ignored unless the caller asked to keep it
  let curr := if keepDelete then history.terminal
    else history.terminal.filter fun stmt => !stmt.isDelete
  applyAll history.upserts.reverse curr

def applyTuples (upserts : List S.Upsert) (base : Option S.Tuple) : Option S.Tuple :=
  upserts.foldl (fun curr upsert => some (appliedTuple upsert curr)) base

/-- The primary key is kept by every UPSERT of the sequence when it is applied. -/
def KeepsKeys : List S.Upsert → Option S.Tuple → Prop
  | [], _ => True
  | upsert :: upserts, base =>
    KeepsKey upsert base ∧ KeepsKeys upserts (some (appliedTuple upsert base))

end

/-- A way of combining neighbouring UPSERTs with `vy_apply_upsert`. -/
inductive Squashing (S : Schema V F K)
  | one (upsert : S.Upsert)
  | pair (older newer : Squashing S)

namespace Squashing

def upserts : Squashing S → List S.Upsert
  | one upsert => [upsert]
  | pair older newer => older.upserts ++ newer.upserts

def result : Squashing S → S.Upsert
  | one upsert => upsert
  | pair older newer => newer.result.squash older.result

lemma upserts_ne_nil : (t : Squashing S) → t.upserts ≠ []
  | one _ => by simp [upserts]
  | pair older _ => by simp [upserts, upserts_ne_nil older]

end Squashing

section Law

variable [DecidableEq K] {xs : List S.Upsert} {base : Option S.Tuple} {stmt : Option S.Terminal}

lemma applyAll_append (xs ys : List S.Upsert) (stmt : Option S.Terminal) :
    applyAll (xs ++ ys) stmt = applyAll ys (applyAll xs stmt) :=
  foldl_append ..

lemma tuple?_applyAll (xs : List S.Upsert) (stmt : Option S.Terminal) :
    (applyAll xs stmt).bind tuple? = applyTuples xs (stmt.bind tuple?) := by
  induction xs generalizing stmt with
  | nil => rfl
  | cons x xs ih => exact ih _

lemma keepsKeys_append {ys : List S.Upsert} :
    KeepsKeys (xs ++ ys) base ↔ KeepsKeys xs base ∧ KeepsKeys ys (applyTuples xs base) := by
  induction xs generalizing base with
  | nil => simp [KeepsKeys, applyTuples]
  | cons x xs ih => simp [KeepsKeys, applyTuples, ih, and_assoc]

lemma KeepsKeys.dropLast (h : KeepsKeys xs base) : KeepsKeys xs.dropLast base := by
  rcases eq_nil_or_concat xs with rfl | ⟨ys, y, rfl⟩
  · exact h
  · rw [concat_eq_append] at h ⊢
    rw [dropLast_concat]
    exact (keepsKeys_append.mp h).1

omit [DecidableEq K] in
/-- A terminal DELETE may be ignored: no tuple is lost. -/
lemma tuple?_start (stmt : Option S.Terminal) (keepDelete : Bool) :
    (if keepDelete then stmt else stmt.filter fun stmt => !stmt.isDelete).bind
      tuple? = stmt.bind tuple? := by
  cases keepDelete with
  | true => rfl
  | false => rcases stmt with _ | (_ | _ | _) <;> rfl

lemma keepsKey_squash {newer older : S.Upsert} (ho : KeepsKey older base)
    (hn : KeepsKey newer (some (appliedTuple older base))) :
    KeepsKey (newer.squash older) base := by
  unfold KeepsKey
  rw [appliedTuple_squash_of_keepsKey ho]
  exact ⟨hn.1.trans ho.1, hn.2⟩

/-- One squashed UPSERT in the place of many. The older half of a pair has to keep the key, so both
facts go through the induction together. -/
lemma Squashing.sound (t : Squashing S) (base : Option S.Tuple) :
    (KeepsKeys t.upserts.dropLast base →
      some (appliedTuple t.result base) = applyTuples t.upserts base) ∧
    (KeepsKeys t.upserts base → KeepsKey t.result base) := by
  induction t generalizing base with
  | one upsert => exact ⟨fun _ => rfl, fun h => h.1⟩
  | pair older newer iholder ihnewer =>
    have ha (h : KeepsKeys older.upserts base) := (iholder base).1 h.dropLast
    constructor
    · intro h
      rw [upserts, dropLast_append_of_ne_nil newer.upserts_ne_nil, keepsKeys_append] at h
      obtain ⟨ho, hn⟩ := h
      calc some (appliedTuple (newer.result.squash older.result) base)
          = some (appliedTuple newer.result (some (appliedTuple older.result base))) := by
            rw [appliedTuple_squash_of_keepsKey ((iholder base).2 ho)]
        _ = some (appliedTuple newer.result (applyTuples older.upserts base)) := by
            rw [ha ho]
        _ = applyTuples newer.upserts (applyTuples older.upserts base) := (ihnewer _).1 hn
        _ = applyTuples (older.upserts ++ newer.upserts) base := (foldl_append ..).symm
    · intro h
      rw [upserts, keepsKeys_append] at h
      obtain ⟨ho, hn⟩ := h
      rw [← ha ho] at hn
      exact keepsKey_squash ((iholder base).2 ho) ((ihnewer _).2 hn)

omit [DecidableEq K] in
lemma Squashing.lsn_result (t : Squashing S) :
    t.upserts.getLast?.map Upsert.lsn = some t.result.lsn := by
  induction t with
  | one upsert => rfl
  | pair older newer _ ih =>
    rw [upserts, getLast?_append_of_ne_nil _ newer.upserts_ne_nil]
    exact ih

lemma applyAll_eq {n : Nat} (hl : xs.getLast?.map Upsert.lsn = some n) {tuple : S.Tuple}
    (ht : some tuple = applyTuples xs (stmt.bind tuple?)) :
    some (.replace n false false tuple) = applyAll xs stmt := by
  rcases eq_nil_or_concat xs with rfl | ⟨ys, y, rfl⟩
  · cases hl
  · rw [concat_eq_append] at hl ht ⊢
    rw [applyTuples, foldl_append] at ht
    rw [applyAll_append]
    simp only [getLast?_append, getLast?_singleton, some_or, map_some, some.injEq] at hl
    simp only [foldl_cons, foldl_nil, some.injEq] at ht
    simp only [applyAll, foldl_cons, foldl_nil, applyUpsertOnTerminalStmt,
      some.injEq, replace.injEq, true_and]
    exact ⟨hl.symm, ht.trans (congrArg (appliedTuple y) (tuple?_applyAll ys stmt).symm)⟩

lemma applyAll_result {ts : List (Squashing S)}
    (h : KeepsKeys (ts.flatMap Squashing.upserts).dropLast (stmt.bind tuple?)) :
    applyAll (ts.map Squashing.result) stmt = applyAll (ts.flatMap Squashing.upserts) stmt := by
  induction ts generalizing stmt with
  | nil => rfl
  | cons t ts ih =>
    have hs : KeepsKeys t.upserts.dropLast (stmt.bind tuple?) ∧
        KeepsKeys (ts.flatMap Squashing.upserts).dropLast
          ((applyAll t.upserts stmt).bind tuple?) := by
      rw [flatMap_cons] at h
      by_cases hn : ts.flatMap Squashing.upserts = []
      · rw [hn, append_nil] at h
        exact ⟨h, by simp [hn, KeepsKeys]⟩
      · rw [dropLast_append_of_ne_nil hn, keepsKeys_append] at h
        rw [tuple?_applyAll]
        exact ⟨h.1.dropLast, h.2⟩
    rw [flatMap_cons, applyAll_append, ← ih hs.2, ← applyAll_eq t.lsn_result ((t.sound _).1 hs.1)]
    rfl

end Law

section Restore

/-- The operation that sets one field to that of a given tuple. -/
def restoreOp (tuple : S.Tuple) (p : Nat) : Op V F where
  fieldNo := p
  action := .set ((tuple.data[p]?).getD S.nil)

/-- An UPSERT that sets the key fields to those of a given tuple. -/
def restoring (tuple : S.Tuple) : S.Upsert where
  lsn := 0
  tuple := tuple
  group := S.parts.map (restoreOp tuple)
  groups := []

lemma getElem?_restore (tuple : S.Tuple) {ps : List Nat} {fields : List F}
    (hps : ∀ p ∈ ps, p < fields.length ∧ p < tuple.data.length) (i : Nat) :
    (arrayStore S.toFieldTree ((ps.map (restoreOp tuple)).foldl (doOp S.toFieldTree) fields))[i]? =
      if i ∈ ps then tuple.data[i]? else (arrayStore S.toFieldTree fields)[i]? := by
  induction ps generalizing fields with
  | nil => simp
  | cons p ps ih =>
    obtain ⟨hp, hpt⟩ := hps p (by simp)
    have hr : ∀ q ∈ ps, q < (doOp S.toFieldTree fields (restoreOp tuple p)).length ∧
        q < tuple.data.length := by
      intro q hq
      rw [restoreOp, doOp_set hp, length_modify]
      exact hps q (by simp [hq])
    rw [map_cons, foldl_cons, ih hr, restoreOp, getElem?_arrayStore_set hp]
    by_cases hi : i ∈ ps
    · simp [hi]
    · by_cases hip : i = p
      · subst hip
        simp [hi, getElem?_eq_getElem hpt]
      · simp [hi, hip]

/-- The data after the key fields of a tuple have been set to those of another one. -/
def restored (tuple result : S.Tuple) : List V :=
  arrayStore S.toFieldTree (upsertDoOps S.toFieldTree result.data (S.parts.map (restoreOp tuple)))

section

variable (tuple result : S.Tuple)
include tuple result

lemma getElem?_restored (i : Nat) :
    (restored tuple result)[i]? = if i ∈ S.parts then tuple.data[i]? else result.data[i]? := by
  have hs : (arrayStore S.toFieldTree (result.data.map S.nop))[i]? = result.data[i]? := by
    rw [getElem?_arrayStore, getElem?_map, Option.map_map]
    have : (S.store i ∘ S.nop) = id := by
      funext v
      exact S.store_nop i v
    rw [this, Option.map_id, id]
  unfold restored upsertDoOps
  rw [getElem?_restore tuple (fun p hp => ⟨by simpa using result.part_lt hp, tuple.part_lt hp⟩), hs]

lemma length_restored :
    (restored tuple result).length = result.data.length := by
  have hif (i : Nat) : (restored tuple result).length ≤ i ↔ result.data.length ≤ i := by
    rw [← getElem?_eq_none_iff, ← getElem?_eq_none_iff, getElem?_restored]
    by_cases hi : i ∈ S.parts
    · simp [hi, tuple.part_lt hi, result.part_lt hi]
    · simp [hi]
  have hl := hif (restored tuple result).length
  have hg := hif result.data.length
  omega

lemma tupleValidateRaw_restored :
    S.tupleValidateRaw (restored tuple result) = true := by
  refine tupleValidateRaw_of_fields ?_ fun i v hv => ?_
  · rw [length_restored]
    exact result.countOk
  · rw [getElem?_restored] at hv
    split at hv
    · exact tuple.fieldOk hv
    · exact result.fieldOk hv

lemma key_restored : S.key (restored tuple result) = S.key tuple.data := by
  refine key_congr fun p hp => ?_
  rw [getElem?_restored, if_pos hp]

end

variable [DecidableEq K]

/-- The operations that set the key fields go through exactly where the old key is what
they are compared with. -/
lemma applyGroup_restoring {tuple result : S.Tuple} (stmt : S.Tuple)
    (hc : S.key tuple.data ≠ S.key result.data)
    (hco : S.comparable (restored tuple result) = true) :
    (applyGroup stmt result (S.parts.map (restoreOp tuple))).data =
      if S.key stmt.data = S.key tuple.data then restored tuple result else result.data := by
  have hpa : S.parts ≠ [] := by
    intro hn
    exact hc (key_congr (by simp [hn]))
  obtain ⟨p, hp⟩ := exists_mem_of_ne_nil _ hpa
  have hse : keyUpdateCanBeSkipped S.columnMask
      (readOps (S.parts.map (restoreOp tuple)) result.data.length) = false := by
    by_contra hsk
    have hcl := clear_of_skipped (Bool.not_eq_false _ ▸ hsk) hp
    obtain ⟨hint, hs⟩ := spares_of_foldl_readOp hcl (mem_map_of_mem hp)
    simp [restoreOp, Op.resolved, Action.Spares] at hs
  have hf : ¬ updateOpCountMax < (S.parts.map (restoreOp tuple)).length := by
    have := S.parts_le
    rw [length_map, updateOpCountMax]
    omega
  have he : upsertExecute S.toFieldTree result.data (S.parts.map (restoreOp tuple)) =
      some (restored tuple result, readOps (S.parts.map (restoreOp tuple)) result.data.length) := by
    rw [upsertExecute, if_neg hf]
    rfl
  unfold applyGroup
  rw [he]
  dsimp only
  unfold applyResultDoesCrossPk
  rw [hse, key_restored]
  by_cases hk : S.key stmt.data = S.key tuple.data
  · simp [hk, hco, tupleValidateRaw_restored]
  · simp [hk, hco]

/-- If an UPSERT changes the key unnoticed, one that sets the key back tells a squashed pair from
two UPSERTs. -/
lemma keepsKey_of_restoring {older : S.Upsert} {base : Option S.Tuple}
    (hi : (appliedTuple older base).intact = true)
    (hco : S.comparable (restored (reference older base) (appliedTuple older base)) = true)
    (h : appliedTuple ((restoring (reference older base)).squash older) base =
      appliedTuple (restoring (reference older base)) (some (appliedTuple older base))) :
    KeepsKey older base := by
  by_contra hchanged
  have hn : S.key (reference older base).data ≠ S.key (appliedTuple older base).data :=
    fun he => hchanged ⟨he.symm, hi⟩
  rw [appliedTuple_squash] at h
  have hd := congrArg (fun tuple : S.Tuple => S.key tuple.data) h
  have hs := applyGroup_restoring (reference older base) hn hco
  have ho := applyGroup_restoring (appliedTuple older base) hn hco
  rw [if_pos rfl] at hs
  rw [if_neg hn.symm] at ho
  have hl : S.key (applyGroup (reference older base) (appliedTuple older base)
      (S.parts.map (restoreOp (reference older base)))).1 = S.key (reference older base).data := by
    rw [hs, key_restored]
  have hr : S.key (applyGroup (appliedTuple older base) (appliedTuple older base)
      (S.parts.map (restoreOp (reference older base)))).1 =
        S.key (appliedTuple older base).data := by
    rw [ho]
  exact hn (hl.symm.trans (hd.trans hr))

end Restore

/-- Numbers for values, and a primary key on the second field. -/
def keyOnSecond : Schema Nat Nat (List (Option Nat)) where
  nil := 0
  nop := id
  set := fun v _ => v
  store := fun _ => id
  store_nop := fun _ _ => rfl
  store_set := fun _ _ _ => rfl
  countOk := fun n => decide (2 ≤ n)
  fieldOk := fun _ _ => true
  parts := [1]
  keyOf := id
  parts_lt := by
    intro n hn p hp
    simp only [mem_singleton, decide_eq_true_eq] at hp hn
    omega
  parts_le := by decide
  hasKey := fun key => key.all Option.isSome
  fits := fun data => decide (data.length ≤ 100)

/-- An UPSERT of the tuple [1, 2] with one group of operations. -/
def upsertOf (lsn : Nat) (group : List (Op Nat Nat)) : keyOnSecond.Upsert where
  lsn := lsn
  tuple := ⟨[1, 2], rfl, true⟩
  group := group
  groups := []

end TarantoolStorage.Vinyl
