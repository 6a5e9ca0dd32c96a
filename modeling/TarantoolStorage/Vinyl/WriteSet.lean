import Mathlib

/-! The write set of a vinyl transaction: `vy_tx_set_entry` and its undoing by
`vy_tx_rollback_statement`. -/
namespace TarantoolStorage.VyTx

open Function List

inductive StmtType where
  | upsert | insert | replace | delete
  deriving DecidableEq

/-- What the code asks of statements and of the LSM trees they go to. A key stands for a tree and
a key of it. -/
structure Env (κ S : Type) where
  type : S → StmtType
  tupleSize : S → Nat
  isDeferredDelete : S → Bool
  setDeferredDelete : S → S
  /-- `vy_entry_apply_upsert`, which may fail. The result is taken to have the key of the UPSERT;
  one with negative field numbers can change it unnoticed. -/
  applyUpsert : S → S → Option S
  isSecondary : κ → Bool
  isBeingConstructed : κ → Bool

/-- `struct txv`. The overwritten entry is given by its place in the log. -/
structure Txv (κ S : Type) where
  key : κ
  stmt : S
  isOverwritten : Bool
  isFirstInsert : Bool
  isNop : Bool
  overwritten : Option Nat

/-- The log and the write-set tree of `struct vy_tx`, as places in the log. -/
structure Tx (κ S : Type) where
  log : List (Txv κ S)
  writeSet : κ → Option Nat
  writeSize : BitVec 64

/-- `enum tx_state`. -/
inductive State where
  | ready | commit | abort
  deriving DecidableEq

variable {κ S : Type} {env : Env κ S} {tx next last : Tx κ S} {key : κ} {stmt : S}
  {v old : Txv κ S} {log : List (Txv κ S)} {i : Nat} {ops : List (κ × S)}

namespace Tx

def empty : Tx κ S := ⟨[], fun _ => none, 0⟩

/-- The bytes of the statements in the tree, which are those of the log not overwritten. -/
def bytes (env : Env κ S) (log : List (Txv κ S)) : Nat :=
  (log.map fun v => if v.isOverwritten then 0 else env.tupleSize v.stmt).sum

/-- The tree holds the entries of the log that are not overwritten, and `write_size` is their
size. -/
structure Inv (env : Env κ S) (tx : Tx κ S) : Prop where
  tree : ∀ key i, tx.writeSet key = some i ↔
    ∃ v, tx.log[i]? = some v ∧ v.key = key ∧ v.isOverwritten = false
  size : tx.writeSize = .ofNat 64 (bytes env tx.log)

lemma inv_empty : (empty : Tx κ S).Inv env := ⟨by simp [empty], rfl⟩

lemma bytes_set (h : log[i]? = some old) (ho : old.isOverwritten = false) :
    bytes env (log.set i { old with isOverwritten := true }) + env.tupleSize old.stmt =
      bytes env log := by
  induction log generalizing i with
  | nil => simp at h
  | cons v log ih =>
    obtain _ | i := i
    · cases h
      simp [bytes, ho]
      omega
    · have := ih (i := i) (by simpa using h)
      simp only [bytes, set_cons_succ, map_cons, sum_cons] at this ⊢
      omega

variable [DecidableEq κ]

/-- A new entry of the log, which is in the tree in the place of `freed` bytes. -/
def push (env : Env κ S) (tx : Tx κ S) (log : List (Txv κ S)) (freed : Nat) (v : Txv κ S) :
    Tx κ S :=
  { log := log ++ [v]
    writeSet := update tx.writeSet v.key (some log.length)
    writeSize := tx.writeSize - BitVec.ofNat 64 freed + BitVec.ofNat 64 (env.tupleSize v.stmt) }

/-- The entry for a statement of a key that the transaction has already written. -/
def replacing (env : Env κ S) (i : Nat) (old : Txv κ S) (key : κ) (stmt : S) : Txv κ S :=
  let stmt := if env.isDeferredDelete old.stmt then env.setDeferredDelete stmt else stmt
  { key, stmt
    isOverwritten := false
    isFirstInsert := old.isFirstInsert
    isNop := env.isSecondary key && !old.isNop && !env.isBeingConstructed key &&
      decide ((env.type stmt = .delete) ≠ (env.type old.stmt = .delete))
    overwritten := some i }

/-- `vy_tx_set_entry`. -/
def setEntry (env : Env κ S) (tx : Tx κ S) (key : κ) (stmt : S) : Option (Tx κ S) :=
  match (tx.writeSet key).bind fun i => (tx.log[i]?).map (i, ·) with
  | none => some (tx.push env tx.log 0
      ⟨key, stmt, false, decide (env.type stmt = .insert), false, none⟩)
  | some (i, old) =>
    match if env.type stmt = .upsert then env.applyUpsert stmt old.stmt else some stmt with
    | none => none
    | some stmt => some (tx.push env (tx.log.set i { old with isOverwritten := true })
        (env.tupleSize old.stmt) (replacing env i old key stmt))

/-- One turn of the loop of `vy_tx_rollback_statement`: the last entry goes, and the one it has
overwritten is back in the tree. -/
def undo (tx : Tx κ S) : Tx κ S :=
  match tx.log.getLast? with
  | none => tx
  | some v =>
    let log := tx.log.dropLast
    let tx := { tx with log, writeSet := update tx.writeSet v.key v.overwritten }
    match v.overwritten.bind fun i => (log[i]?).map (i, ·) with
    | none => tx
    | some (i, old) => { tx with log := log.set i { old with isOverwritten := false } }

/-- `vy_tx_rollback_statement` to a savepoint after `svp` entries of the log. -/
def rollbackStatement (tx : Tx κ S) (state : State) (svp : Nat) : Tx κ S :=
  if state = .abort ∨ state = .commit then tx else Nat.iterate undo (tx.log.length - svp) tx

/-- A sequence of calls of `vy_tx_set_entry`. -/
def run (env : Env κ S) (tx : Tx κ S) (ops : List (κ × S)) : Option (Tx κ S) :=
  ops.foldlM (fun tx op => tx.setEntry env op.1 op.2) tx

/-- What a call does: the key is new, or an entry of the log is overwritten. -/
lemma setEntry_cases (hi : tx.Inv env) (h : tx.setEntry env key stmt = some next) :
    (tx.writeSet key = none ∧ ∃ v : Txv κ S, v.key = key ∧ v.isOverwritten = false ∧
      v.overwritten = none ∧ next = tx.push env tx.log 0 v) ∨
    ∃ (i : Nat) (old v : Txv κ S), tx.writeSet key = some i ∧ tx.log[i]? = some old ∧
      old.key = key ∧ old.isOverwritten = false ∧ v.key = key ∧ v.isOverwritten = false ∧
      v.overwritten = some i ∧ next = tx.push env (tx.log.set i { old with isOverwritten := true })
        (env.tupleSize old.stmt) v := by
  rw [setEntry] at h
  cases hw : tx.writeSet key with
  | none =>
    rw [hw] at h
    cases h
    exact .inl ⟨rfl, _, rfl, rfl, rfl, rfl⟩
  | some i =>
    obtain ⟨old, ho, rfl, hf⟩ := (hi.tree key i).mp hw
    simp only [hw, ho, Option.bind_some, Option.map_some] at h
    split at h
    · cases h
    · cases h
      exact .inr ⟨i, old, replacing env i old old.key _, rfl, ho, rfl, hf, rfl, rfl, rfl, rfl⟩

lemma writeSize_push {freed : Nat} (hv : v.isOverwritten = false)
    (hs : tx.writeSize = .ofNat 64 (bytes env log + freed)) :
    (tx.push env log freed v).writeSize = .ofNat 64 (bytes env (log ++ [v])) := by
  have hb : bytes env (log ++ [v]) = bytes env log + env.tupleSize v.stmt := by simp [bytes, hv]
  rw [push, hs, hb, BitVec.ofNat_add, BitVec.ofNat_add, BitVec.add_sub_cancel]

lemma setEntry_inv (hi : tx.Inv env) (h : tx.setEntry env key stmt = some next) :
    next.Inv env ∧ next.log.length = tx.log.length + 1 := by
  have ht := hi.tree
  obtain ⟨hw, v, rfl, hv, -, rfl⟩ | ⟨i, old, v, hw, hlog, hk, ho, rfl, hv, -, rfl⟩ :=
    setEntry_cases hi h
  · refine ⟨⟨fun key j => ?_, writeSize_push hv hi.size⟩, by simp [push]⟩
    simp only [push]
    grind
  · refine ⟨⟨fun key j => ?_, writeSize_push hv ?_⟩, by simp [push]⟩
    · simp only [push]
      grind
    · rw [hi.size, bytes_set hlog ho]

lemma undo_setEntry (hi : tx.Inv env) (h : tx.setEntry env key stmt = some next) :
    next.undo = { tx with writeSize := next.writeSize } := by
  have hu := Function.update_eq_self key tx.writeSet
  obtain ⟨hw, v, rfl, hv, hov, rfl⟩ | ⟨i, old, v, hw, hl, hk, ho, rfl, hv, hov, rfl⟩ :=
    setEntry_cases hi h
  · rw [hw] at hu
    simp [undo, push, hov, hu]
  · rw [hw] at hu
    obtain ⟨hil, hg⟩ := List.getElem?_eq_some_iff.mp hl
    have hs : tx.log.set i { old with isOverwritten := false } = tx.log := by
      rw [← ho, ← hg, set_getElem_self]
    simp [undo, push, hov, hu, hil, hs]

lemma undo_withSize (w : BitVec 64) :
    undo { tx with writeSize := w } = { undo tx with writeSize := w } := by
  simp only [undo]
  split
  · rfl
  · split <;> rfl

/-- Undoing a sequence of calls leaves `write_size` as they have left it. -/
lemma iterate_undo_run (hi : tx.Inv env) (h : tx.run env ops = some last) :
    last.Inv env ∧ last.log.length = tx.log.length + ops.length ∧
      undo^[ops.length] last = { tx with writeSize := last.writeSize } := by
  induction ops generalizing tx with
  | nil => cases h; exact ⟨hi, rfl, rfl⟩
  | cons op ops ih =>
    obtain ⟨next, hn, hl⟩ := Option.bind_eq_some_iff.mp h
    obtain ⟨hin, hle⟩ := setEntry_inv hi hn
    obtain ⟨hil, hll, hu⟩ := ih hin hl
    refine ⟨hil, by simp; omega, ?_⟩
    rw [length_cons, iterate_succ_apply', hu, undo_withSize, undo_setEntry hi hn]

/-- Rolling back to the savepoint between the two sequences gives the transaction of the first. -/
def Restores (env : Env κ S) (state : State) (before after : List (κ × S)) : Prop :=
  ∀ tx last : Tx κ S, empty.run env before = some tx → tx.run env after = some last →
    last.rollbackStatement state tx.log.length = tx

/-- The transaction may be changed, and the statements in its tree take as many bytes as at the
savepoint. -/
def SizeKept (env : Env κ S) (state : State) (before after : List (κ × S)) : Prop :=
  ∀ tx last : Tx κ S, empty.run env before = some tx → tx.run env after = some last →
    (state = .ready ∨ after = []) ∧
      BitVec.ofNat 64 (bytes env last.log) = BitVec.ofNat 64 (bytes env tx.log)

theorem restores_iff_sizeKept (env : Env κ S) (state : State) (before after : List (κ × S)) :
    Restores env state before after ↔ SizeKept env state before after := by
  refine forall₄_congr fun tx last hb ha => ?_
  obtain ⟨hi, -, -⟩ := iterate_undo_run inv_empty hb
  obtain ⟨hl, hle, hu⟩ := iterate_undo_run hi ha
  rw [← hl.size, ← hi.size, rollbackStatement, hle, Nat.add_sub_cancel_left]
  obtain ⟨log, tree, size⟩ := tx
  split
  case isTrue hs =>
    have hr : state ≠ .ready := by rintro rfl; simp at hs
    simp only [hr, false_or]
    refine ⟨fun h => ?_, fun ⟨h, _⟩ => ?_⟩
    · subst h
      exact ⟨length_eq_zero_iff.mp (by omega), rfl⟩
    · subst h
      cases ha
      rfl
  case isFalse hs =>
    have hr : state = .ready := by cases state <;> simp_all
    rw [hu]
    simp [hr]

/-- A short statement over a long one of the same key: undone, it leaves the long one in the tree
and its own size in `write_size`, from which the next statement of the key subtracts the long
one. -/
theorem not_restores_of_shorter :
    let env : Env Unit Nat := ⟨fun _ => .replace, id, fun _ => false, id, fun _ _ => none,
      fun _ => false, fun _ => false⟩
    ¬ Restores env .ready [((), 100)] [((), 10)] ∧
    ((((empty.run env [((), 100), ((), 10)]).map (rollbackStatement · .ready 1)).bind
      (run env · [((), 20)])).map Tx.writeSize) = some (10 - 100 + 20) := by
  refine ⟨fun h => ?_, rfl⟩
  have hw := congrArg Tx.writeSize (h _ _ rfl rfl)
  exact absurd hw (by decide)

end Tx

end TarantoolStorage.VyTx
