import TarantoolStorage.Index.Field
import TarantoolStorage.Sql.Integer

/-!
Arithmetic on the cells of the SQL engine (sql/mem.c). The arithmetic of doubles is a parameter.
-/
namespace TarantoolStorage.Sql

open Index

inductive MemType where
  | null | uint | int | str | bin | array | map | bool | double | invalid | frame | ptr | agg
  deriving DecidableEq

/-- `Mem`: its type, the word of its union and its field type, `none` for `field_type_MAX`. -/
structure Mem where
  type : MemType
  u : Word
  fieldType : Option FieldType
  deriving DecidableEq

/-- The errors that are set, a type mismatch with the cell that is described in it. -/
inductive SqlError where
  | typeMismatch (mem : Mem) (expected : String)
  | execute (message : String)
  | assertion
  deriving DecidableEq

structure DoubleUnit where
  add : Word → Word → Word
  sub : Word → Word → Word
  mul : Word → Word → Word
  div : Word → Word → Word
  ofInt : Word → Word
  ofUint : Word → Word
  isZero : Word → Bool
  isNaN : Word → Bool

def Mem.isNum (mem : Mem) : Bool :=
  mem.type = .uint ∨ mem.type = .int ∨ mem.type = .double

def Mem.isInt (mem : Mem) : Bool :=
  mem.type = .uint ∨ mem.type = .int

def memIsAnyNull (mem1 mem2 : Mem) : Bool :=
  mem1.type = .null ∨ mem2.type = .null

/-- `mem_set_null` with the field type that its callers set. The word is not changed. -/
def memSetNull (word : Word) (fieldType : FieldType) : Mem :=
  ⟨.null, word, some fieldType⟩

def memSetInt (value : Word) (isNeg : Bool) : Mem :=
  ⟨if isNeg then .int else .uint, value, some .integer⟩

/-- `mem_set_double`: not a number is `NULL`. -/
def memSetDouble (unit : DoubleUnit) (word value : Word) : Mem :=
  if unit.isNaN value then ⟨.null, word, some .double⟩ else ⟨.double, value, some .double⟩

/-- `mem_get_double` of a number. -/
def memGetDouble (unit : DoubleUnit) (mem : Mem) : Word :=
  match mem.type with
  | .int => unit.ofInt mem.u
  | .uint => unit.ofUint mem.u
  | _ => mem.u

def overflowed : SqlError := .execute "integer is overflowed"

def divisionByZero : SqlError := .execute "division by zero"

/-- The end of the operations on integers: the error or the cell. -/
def finish : Result → Except SqlError Mem
  | .ok (value, isNeg) => .ok (memSetInt value isNeg)
  | .error .overflow => .error overflowed
  | .error .assertion => .error .assertion

/-- What `mem_add`, `mem_sub`, `mem_mul` and `mem_div` have in common. The last argument is the
word that the result cell has before. -/
def memNumeric (unit : DoubleUnit) (onDouble : Word → Word → Except SqlError Word)
    (onInt : Mem → Mem → Except SqlError Mem) (left right : Mem) (word : Word) :
    Except SqlError Mem :=
  if memIsAnyNull left right then .ok (memSetNull word .number)
  else if right.isNum = false then .error (.typeMismatch right "number")
  else if left.isNum = false then .error (.typeMismatch left "number")
  else if left.type = .double ∨ right.type = .double then
    (onDouble (memGetDouble unit left) (memGetDouble unit right)).map (memSetDouble unit word)
  else onInt left right

def memAdd (unit : DoubleUnit) : Mem → Mem → Word → Except SqlError Mem :=
  memNumeric unit (fun a b => .ok (unit.add a b)) fun left right =>
    finish (sqlAddInt left.u (left.type = .int) right.u (right.type = .int))

def memSub (unit : DoubleUnit) : Mem → Mem → Word → Except SqlError Mem :=
  memNumeric unit (fun a b => .ok (unit.sub a b)) fun left right =>
    finish (sqlSubInt left.u (left.type = .int) right.u (right.type = .int))

def memMul (unit : DoubleUnit) : Mem → Mem → Word → Except SqlError Mem :=
  memNumeric unit (fun a b => .ok (unit.mul a b)) fun left right =>
    finish (sqlMulInt left.u (left.type = .int) right.u (right.type = .int))

def memDiv (unit : DoubleUnit) : Mem → Mem → Word → Except SqlError Mem :=
  memNumeric unit (fun a b => if unit.isZero b then .error divisionByZero else .ok (unit.div a b))
    fun left right =>
      if right.u = 0 then .error divisionByZero
      else finish (sqlDivInt left.u (left.type = .int) right.u (right.type = .int))

def memRem (left right : Mem) (word : Word) : Except SqlError Mem :=
  if memIsAnyNull left right then .ok (memSetNull word .integer)
  else if right.isInt = false then .error (.typeMismatch right "integer")
  else if left.isInt = false then .error (.typeMismatch left "integer")
  else if right.u = 0 then .error divisionByZero
  else finish (sqlRemInt left.u (left.type = .int) right.u (right.type = .int))

inductive Operator where
  | add | sub | mul | div | rem
  deriving DecidableEq

def Operator.exec (op : Operator) (unit : DoubleUnit) : Mem → Mem → Word → Except SqlError Mem :=
  match op with
  | .add => memAdd unit
  | .sub => memSub unit
  | .mul => memMul unit
  | .div => memDiv unit
  | .rem => memRem

def ranged (value : Int) : Except SqlError Int :=
  if InRange value then .ok value else .error overflowed

def Operator.exact : Operator → Int → Int → Except SqlError Int
  | .add, a, b => ranged (a + b)
  | .sub, a, b => ranged (a - b)
  | .mul, a, b => ranged (a * b)
  | .div, a, b => if b = 0 then .error divisionByZero else ranged (a.tdiv b)
  | .rem, a, b => if b = 0 then .error divisionByZero else ranged (a.tmod b)

/-- A cell holds an integer: as `INT` if it is negative, as `UINT` if not. -/
def Mem.Holds (mem : Mem) (value : Int) : Prop :=
  mem.isInt = true ∧ Denotes mem.u (mem.type = .int) value

structure IntCell where
  mem : Mem
  value : Int
  holds : mem.Holds value

/-- A cell holds the mathematical result, or the error is the mathematical one. -/
def Agrees : Except SqlError Mem → Except SqlError Int → Prop
  | .ok mem, .ok value => mem.Holds value
  | .error e, .error e' => e = e'
  | _, _ => False

/-- The difference is not below -2⁶⁴, and no negative integer is divided without a remainder. -/
def Operator.Safe : Operator → Int → Int → Prop
  | .sub, a, b => b - a < 2 ^ 64
  | .rem, a, b => ¬ (b ≠ 0 ∧ a < 0 ∧ b ∣ a)
  | _, _, _ => True

variable {value : Int}

lemma inRange_of_denotes {word : Word} {isNeg : Bool} (h : Denotes word isNeg value) :
    InRange value := by
  have hl := word.isLt
  unfold InRange
  cases isNeg
  · rw [denotes_false] at h
    omega
  · rw [denotes_true] at h
    omega

lemma memSetInt_holds {word : Word} {isNeg : Bool} :
    (memSetInt word isNeg).Holds value ↔ Denotes word isNeg value := by
  cases isNeg <;> simp [Mem.Holds, memSetInt, Mem.isInt]

lemma finish_agrees {result : Result} :
    Agrees (finish result) (ranged value) ↔ Exact value result := by
  unfold ranged
  match result with
  | .ok (word, isNeg) =>
    by_cases hr : InRange value
    · rw [if_pos hr]
      exact memSetInt_holds
    · rw [if_neg hr]
      exact ⟨False.elim, fun h => hr (inRange_of_denotes h)⟩
  | .error .overflow =>
    by_cases hr : InRange value
    · rw [if_pos hr]
      exact ⟨False.elim, fun h => h hr⟩
    · rw [if_neg hr]
      exact ⟨fun _ => hr, fun _ => rfl⟩
  | .error .assertion =>
    refine ⟨fun h => ?_, False.elim⟩
    split_ifs at h
    · exact h
    · cases h

namespace IntCell

variable (left right : IntCell)

lemma type_eq : left.mem.type = .uint ∨ left.mem.type = .int := by
  simpa [Mem.isInt] using left.holds.1

lemma not_null : memIsAnyNull left.mem right.mem = false := by
  rcases left.type_eq with hl | hl <;> rcases right.type_eq with hr | hr <;>
    simp [memIsAnyNull, hl, hr]

lemma isNum : left.mem.isNum = true := by
  rcases left.type_eq with h | h <;> simp [Mem.isNum, h]

lemma not_double : left.mem.type ≠ .double := by
  rcases left.type_eq with h | h <;> simp [h]

lemma word_eq_zero : left.mem.u = 0 ↔ left.value = 0 := by
  have hh := left.holds.2
  constructor
  · intro h
    rw [h] at hh
    exact denotes_zero hh
  · intro h
    rw [h] at hh
    rcases left.type_eq with ht | ht <;> simp only [ht] at hh
    · exact BitVec.eq_of_toNat_eq (Int.ofNat.inj (denotes_false.mp hh))
    · exact absurd (denotes_true.mp hh).2.2 (by omega)

lemma memNumeric_eq (unit : DoubleUnit) (onDouble : Word → Word → Except SqlError Word)
    (onInt : Mem → Mem → Except SqlError Mem) (word : Word) :
    memNumeric unit onDouble onInt left.mem right.mem word = onInt left.mem right.mem := by
  rw [memNumeric, if_neg (by simp [not_null]), if_neg (by simp [isNum]), if_neg (by simp [isNum]),
    if_neg (by simp [not_double])]

end IntCell

open Operator

/-- The operators are exact but for two cases. -/
theorem arithmetic_exact_iff (unit : DoubleUnit) (op : Operator) (left right : IntCell)
    (word : Word) :
    Agrees (op.exec unit left.mem right.mem word) (op.exact left.value right.value) ↔
      op.Safe left.value right.value := by
  have hl := left.holds.2
  have hr := right.holds.2
  cases op with
  | add =>
    rw [exec, memAdd, IntCell.memNumeric_eq, exact, finish_agrees]
    exact ⟨fun _ => trivial, fun _ => sqlAddInt_exact hl hr⟩
  | sub =>
    rw [exec, memSub, IntCell.memNumeric_eq, exact, finish_agrees]
    exact sqlSubInt_exact_iff hl hr
  | mul =>
    rw [exec, memMul, IntCell.memNumeric_eq, exact, finish_agrees]
    exact ⟨fun _ => trivial, fun _ => sqlMulInt_exact hl hr⟩
  | div =>
    rw [exec, memDiv, IntCell.memNumeric_eq, exact]
    by_cases hz : right.value = 0
    · rw [if_pos hz, if_pos (right.word_eq_zero.mpr hz)]
      exact ⟨fun _ => trivial, fun _ => rfl⟩
    · rw [if_neg hz, if_neg fun h => hz (right.word_eq_zero.mp h), finish_agrees]
      exact ⟨fun _ => trivial, fun _ => sqlDivInt_exact hl hr⟩
  | rem =>
    rw [exec, memRem, if_neg (by simp [IntCell.not_null]), if_neg (by simp [right.holds.1]),
      if_neg (by simp [left.holds.1]), exact, Safe]
    by_cases hz : right.value = 0
    · rw [if_pos hz, if_pos (right.word_eq_zero.mpr hz)]
      exact ⟨fun _ h => h.1 hz, fun _ => rfl⟩
    · rw [if_neg hz, if_neg fun h => hz (right.word_eq_zero.mp h), finish_agrees,
        sqlRemInt_exact_iff hl hr]
      exact not_congr ⟨fun h => ⟨hz, h⟩, fun h => h.2⟩

/-- The check of `-1 - 18446744073709551615` wraps to zero, and so does the difference. A remainder
of zero is marked as negative, which then fails an assertion of a sum. -/
theorem negative_zero : (∀ unit, memSub unit ⟨.int, -1, none⟩ ⟨.uint, uint64Max, none⟩ 0 =
        .ok ⟨.int, 0, some .integer⟩) ∧
      memRem ⟨.int, -4, none⟩ ⟨.uint, 2, none⟩ 0 = .ok ⟨.int, 0, some .integer⟩ ∧
      sqlAddInt 0 true 0 true = .error .assertion :=
  ⟨fun _ => rfl, by decide, by decide⟩

end TarantoolStorage.Sql
