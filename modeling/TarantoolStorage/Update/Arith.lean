import TarantoolStorage.Index.Encoding
import TarantoolStorage.Lib.Document

/-! The operations `+` and `-` of UPDATE on integers, `xrow_update_op_do_arith`, over the 96-bit
integers of `int96.h`. -/
namespace TarantoolStorage.Update

open MsgPack Index BitVec List

/-- `struct int96_num`, with the upper half of `low32` empty, as the functions assert. -/
structure Int96 where
  high64 : BitVec 64
  low32 : BitVec 64
  low32_lt : low32.toNat < 2 ^ 32

namespace Int96

variable {num a b : Int96}

def mask : BitVec 64 := 0xFFFFFFFF#64

lemma toNat_and_mask (x : BitVec 64) : (x &&& mask).toNat = x.toNat % 2 ^ 32 := by
  rw [toNat_and]
  exact Nat.and_two_pow_sub_one_eq_mod x.toNat 32

lemma and_mask_lt (x : BitVec 64) : (x &&& mask).toNat < 2 ^ 32 := by
  rw [toNat_and_mask]
  omega

def setUnsigned (val : BitVec 64) : Int96 := ⟨val >>> 32, val &&& mask, and_mask_lt val⟩

def setSigned (val : BitVec 64) : Int96 := ⟨val.sshiftRight 32, val &&& mask, and_mask_lt val⟩

def invert (num : Int96) : Int96 :=
  let low := (~~~num.low32 &&& mask) + 1#64
  ⟨~~~num.high64 + low >>> 32, low &&& mask, and_mask_lt low⟩

def add (num what : Int96) : Int96 :=
  let low := num.low32 + what.low32
  ⟨num.high64 + low >>> 32 + what.high64, low &&& mask, and_mask_lt low⟩

def getLow64bit (num : Int96) : BitVec 64 := num.low32 ||| num.high64 <<< 32

def isUint64 (num : Int96) : Bool := num.high64 >>> 32 = 0#64

def isNegInt64 (num : Int96) : Bool := num.high64 >>> 31 = 0x1FFFFFFFF#64

/-- The number in two's complement. -/
def value (num : Int96) : Int := num.high64.toInt * 2 ^ 32 + num.low32.toNat

lemma value_setUnsigned (val : BitVec 64) : (setUnsigned val).value = val.toNat := by
  have h := val.isLt
  simp only [value, setUnsigned, toNat_and_mask, toInt_eq_toNat_cond,
    toNat_ushiftRight, Nat.shiftRight_eq_div_pow]
  omega

lemma value_setSigned (val : BitVec 64) : (setSigned val).value = val.toInt := by
  rw [value, setSigned, toNat_and_mask, toInt_sshiftRight, Int.shiftRight_eq_div_pow,
    toInt_eq_toNat_cond]
  omega

lemma value_add (h : -2 ^ 95 ≤ a.value + b.value) (h' : a.value + b.value < 2 ^ 95) :
    (a.add b).value = a.value + b.value := by
  have ha := a.low32_lt
  have hb := b.low32_lt
  simp only [value, add, toNat_and_mask, toInt_eq_toNat_cond, toNat_add,
    toNat_ushiftRight, Nat.shiftRight_eq_div_pow] at h h' ⊢
  omega

lemma value_invert (h : -2 ^ 95 < num.value) : num.invert.value = -num.value := by
  have hl := num.low32_lt
  have hh := num.high64.isLt
  simp only [value, invert, toNat_and_mask, toInt_eq_toNat_cond, toNat_add,
    toNat_not, toNat_ofNat, toNat_ushiftRight,
    Nat.shiftRight_eq_div_pow] at h ⊢
  omega

lemma isUint64_iff : num.isUint64 ↔ 0 ≤ num.value ∧ num.value < 2 ^ 64 := by
  have hl := num.low32_lt
  simp only [isUint64, decide_eq_true_eq, ← toNat_inj, value, toNat_ushiftRight,
    Nat.shiftRight_eq_div_pow, toInt_eq_toNat_cond, toNat_ofNat]
  omega

lemma isNegInt64_iff : num.isNegInt64 ↔ -2 ^ 63 ≤ num.value ∧ num.value < 0 := by
  have hl := num.low32_lt
  have hh := num.high64.isLt
  simp only [isNegInt64, decide_eq_true_eq, ← toNat_inj, value, toNat_ushiftRight,
    Nat.shiftRight_eq_div_pow, toInt_eq_toNat_cond, toNat_ofNat]
  omega

lemma toNat_getLow64bit : (num.getLow64bit.toNat : Int) = num.value % 2 ^ 64 := by
  have hl := num.low32_lt
  have ho : num.getLow64bit.toNat = 2 ^ 32 * (num.high64.toNat % 2 ^ 32) + num.low32.toNat := by
    rw [Nat.two_pow_add_eq_or_of_lt hl, Nat.or_comm, getLow64bit, toNat_or,
      toNat_shiftLeft, Nat.shiftLeft_eq]
    congr 1
    omega
  simp only [ho, value, toInt_eq_toNat_cond]
  omega

end Int96

inductive Opcode where
  | add | sub
  deriving DecidableEq

def Opcode.apply : Opcode → Int → Int → Int
  | .add, a, b => a + b
  | .sub, a, b => a - b

/-- The errors, with the operation and the field that `xrow_update_op_field_str` names. -/
inductive ArithError where
  | argType (opcode : Opcode) (field needed : String)
  | integerOverflow (opcode : Opcode) (field : String)
  | decimalOverflow (opcode : Opcode) (field : String)

/-- Floats, doubles and decimals: how they are read and stored, and the arithmetic when an
operand is one of them. -/
structure OtherNumbers where
  Number : Type
  read : Bytes → Option Number
  make : Opcode → String → Int96 ⊕ Number → Int96 ⊕ Number → Except ArithError Number
  store : Number → Bytes

variable (other : OtherNumbers)

/-- `struct xrow_update_op` of an arithmetic operation. -/
structure ArithOp where
  opcode : Opcode
  field : String
  arg : Int96 ⊕ other.Number
  newFieldLen : Nat

variable {other} in
/-- `xrow_mp_read_arg_arith`. -/
def readArgArith (opcode : Opcode) (field : String) (expr : Bytes) :
    Except ArithError (Int96 ⊕ other.Number) :=
  match decodeHead expr with
  | some (.uint n, _) => .ok (.inl (.setUnsigned (.ofNat 64 n)))
  | some (.int z, _) => .ok (.inl (.setSigned (.ofInt 64 z)))
  | _ =>
    match other.read expr with
    | some x => .ok (.inr x)
    | none => .error (.argType opcode field "a number")

namespace ArithOp

variable {other}

/-- `xrow_update_arith_make`. -/
def make (op : ArithOp other) (arg : Int96 ⊕ other.Number) :
    Except ArithError (Int96 ⊕ other.Number) :=
  match arg, op.arg with
  | .inl a, .inl b =>
    let sum := match op.opcode with
      | .add => a.add b
      | .sub => a.add b.invert
    if !sum.isUint64 && !sum.isNegInt64 then .error (.integerOverflow op.opcode op.field)
    else .ok (.inl sum)
  | a, b => (other.make op.opcode op.field a b).map .inr

/-- `xrow_update_op_store_arith`. -/
def store (op : ArithOp other) : Bytes :=
  match op.arg with
  | .inl num =>
    if num.isUint64 then mpEncodeUint num.getLow64bit.toNat
    else mpEncodeInt num.getLow64bit.toInt
  | .inr x => other.store x

/-- `xrow_update_op_do_arith`. The new length is that of what is to be stored. -/
def doArith (op : ArithOp other) (old : Bytes) : Except ArithError (ArithOp other) := do
  let left ← readArgArith op.opcode op.field old
  let op := { op with arg := ← op.make left }
  return { op with newFieldLen := op.store.length }

end ArithOp

/-- The stored field of an operation whose argument is read from `arg`. -/
def updateArith (opcode : Opcode) (field : String) (old arg : Bytes) : Except ArithError Bytes := do
  let op : ArithOp other := ⟨opcode, field, ← readArgArith opcode field arg, 0⟩
  return (← op.doArith old).store

def mpInteger (bs : Bytes) : Option Int :=
  match decodeHead bs with
  | some (.uint n, _) => some n
  | some (.int z, _) => some z
  | _ => none

open Int96

variable {other} {bs rest : Bytes} {n : Nat} {z : Int}

lemma mpDecodeUint_lt (h : mpDecodeUint bs = some (n, rest)) : n < 2 ^ 64 := by
  cases bs with
  | nil => cases h
  | cons c bs =>
    rw [mpDecodeUint] at h
    split_ifs at h
    iterate 4
      have := loadBe_lt h
      omega
    have := c.toNat_lt
    cases h
    omega

lemma loadSigned_bounds {k : Nat} (hk : k ≤ 8) (h : loadSigned k bs = some (z, rest)) :
    -2 ^ 63 ≤ z ∧ z < 2 ^ 63 := by
  obtain ⟨⟨n, bs'⟩, -, he⟩ := Option.map_eq_some_iff.1 h
  cases he
  have hp : 256 ^ k ≤ 256 ^ 8 := Nat.pow_le_pow_right (by omega) hk
  have hl := Int.le_bmod (x := n) (m := 256 ^ k) (by positivity)
  have hu := Int.bmod_lt (x := n) (m := 256 ^ k) (by positivity)
  omega

lemma mpDecodeInt_bounds (h : mpDecodeInt bs = some (z, rest)) : -2 ^ 63 ≤ z ∧ z < 2 ^ 63 := by
  cases bs with
  | nil => cases h
  | cons c bs =>
    rw [mpDecodeInt] at h
    split_ifs at h
    iterate 4 exact loadSigned_bounds (by omega) h
    obtain ⟨rfl, -⟩ := Prod.mk.inj (Option.some.inj h)
    have hl := Int.le_bmod (x := c.toNat) (m := 2 ^ 8) (by omega)
    have hu := Int.bmod_lt (x := c.toNat) (m := 2 ^ 8) (by omega)
    omega

lemma readArgArith_integer (other : OtherNumbers) (opcode : Opcode) (field : String)
    (h : mpInteger bs = some z) :
    (-2 ^ 63 ≤ z ∧ z < 2 ^ 64) ∧
      ∃ num : Int96, readArgArith opcode field bs = .ok (.inl num : Int96 ⊕ other.Number) ∧
        num.value = z := by
  rw [mpInteger] at h
  split at h
  case h_1 n rest he =>
    obtain ⟨-, hd⟩ := reads_of_decodeHead he
    have hn := mpDecodeUint_lt hd
    cases h
    refine ⟨by omega, .setUnsigned (.ofNat 64 n), by rw [readArgArith, he], ?_⟩
    rw [value_setUnsigned, toNat_ofNat, Nat.mod_eq_of_lt hn]
  case h_2 z rest he =>
    obtain ⟨-, hd⟩ := reads_of_decodeHead he
    have hz := mpDecodeInt_bounds hd
    cases h
    refine ⟨by omega, .setSigned (.ofInt 64 z), by rw [readArgArith, he], ?_⟩
    rw [value_setSigned, toInt_ofInt_eq_self (by omega) hz.1 hz.2]
  case h_3 => cases h

lemma loadSigned_storeBe {k : Nat} (hz : z < 0) (hk : -(256 ^ k / 2 : Nat) ≤ z) (rest : Bytes) :
    loadSigned k (storeBe k (256 ^ k + z).toNat ++ rest) = some (z, rest) := by
  have hp : 0 < 256 ^ k := by positivity
  have hc : (256 ^ k : Int) = (256 ^ k : Nat) := by push_cast; rfl
  have hb : Int.bmod (256 ^ k + z).toNat (256 ^ k) = z := by
    rw [Int.toNat_of_nonneg (by omega), hc, Int.add_comm, Int.add_bmod_right,
      Int.bmod_eq_of_le (by omega) (by omega)]
  rw [loadSigned, loadBe_storeBe_of_lt (by omega), Option.map_some]
  dsimp only
  rw [hb]

lemma mpDecodeInt_encode (hz : z < 0) (hl : -2 ^ 63 ≤ z) (rest : Bytes) :
    mpDecodeInt (mpEncodeInt z ++ rest) = some (z, rest) := by
  have hf : ∀ k < 32, ∀ c, c = UInt8.ofNat (224 + k) → c ≠ 0xd0 ∧ c ≠ 0xd1 ∧ c ≠ 0xd2 ∧
      c ≠ 0xd3 ∧ ¬ c < 0xe0 ∧ Int.bmod c.toNat (2 ^ 8) = (k : Int) - 32 := by
    rintro k hk c rfl
    revert k
    decide
  unfold mpEncodeInt
  split_ifs
  · have hb : Int.toNat (2 ^ 8 + z) = 224 + Int.toNat (32 + z) := by omega
    obtain ⟨h1, h2, h3, h4, h5, h6⟩ := hf (Int.toNat (32 + z)) (by omega) _ rfl
    rw [storeBe_one, hb, singleton_append]
    rw [mpDecodeInt, if_neg h1, if_neg h2, if_neg h3, if_neg h4, if_neg h5, h6]
    simp
    omega
  · exact loadSigned_storeBe (k := 1) hz (by omega) rest
  · exact loadSigned_storeBe (k := 2) hz (by omega) rest
  · exact loadSigned_storeBe (k := 4) hz (by omega) rest
  · exact loadSigned_storeBe (k := 8) hz (by omega) rest

lemma mpInteger_encodeUint (hn : n < 2 ^ 64) : mpInteger (mpEncodeUint n) = some (n : Int) := by
  have hd : decodeHead (mpEncodeUint n ++ []) = some (.uint n, []) :=
    decodeHead_of_reads ⟨headType_uint n [], mpDecodeUint_encode hn []⟩ (by simp)
  rw [append_nil] at hd
  rw [mpInteger, hd]

lemma mpInteger_encodeInt (hz : z < 0) (hl : -2 ^ 63 ≤ z) : mpInteger (mpEncodeInt z) = some z := by
  have hd : decodeHead (mpEncodeInt z ++ []) = some (.int z, []) :=
    decodeHead_of_reads ⟨headType_int hz hl [], mpDecodeInt_encode hz hl []⟩ (by simp)
  rw [append_nil] at hd
  rw [mpInteger, hd]

lemma mpInteger_store {op : ArithOp other} {num : Int96} (ha : op.arg = .inl num)
    (h : -2 ^ 63 ≤ num.value ∧ num.value < 2 ^ 64) : mpInteger op.store = some num.value := by
  have hl := num.toNat_getLow64bit
  rw [ArithOp.store, ha]
  by_cases hn : 0 ≤ num.value
  · simp only [isUint64_iff.mpr ⟨hn, h.2⟩, if_true]
    rw [mpInteger_encodeUint num.getLow64bit.isLt, hl, Int.emod_eq_of_lt hn h.2]
  · have hu : ¬ num.isUint64 := fun hu => hn (isUint64_iff.mp hu).1
    have hv : num.getLow64bit.toInt = num.value := by
      rw [toInt_eq_toNat_cond]
      omega
    simp only [hu, if_false, Bool.false_eq_true]
    rw [hv, mpInteger_encodeInt (by omega) h.1]

/-- The sum or the difference of two integers in 96 bits is exact. -/
lemma make_integer (op : ArithOp other) (a : Int96) {b : Int96} (hb : op.arg = .inl b)
    (ha : -2 ^ 64 < a.value ∧ a.value < 2 ^ 64) (hv : -2 ^ 64 < b.value ∧ b.value < 2 ^ 64) :
    ∃ sum : Int96, sum.value = op.opcode.apply a.value b.value ∧ op.make (.inl a) =
      if -2 ^ 63 ≤ sum.value ∧ sum.value < 2 ^ 64 then .ok (.inl sum)
      else .error (.integerOverflow op.opcode op.field) := by
  have hi := b.value_invert (by omega)
  have hu {sum : Int96} : (!sum.isUint64 && !sum.isNegInt64) ↔
      ¬ (-2 ^ 63 ≤ sum.value ∧ sum.value < 2 ^ 64) := by
    rw [Bool.and_eq_true, Bool.not_eq_true', Bool.not_eq_true', ← Bool.not_eq_true,
      ← Bool.not_eq_true, isUint64_iff, isNegInt64_iff]
    omega
  obtain ⟨opcode, field, arg, len⟩ := op
  cases hb
  cases opcode with
  | add =>
    refine ⟨a.add b, value_add (by omega) (by omega), ?_⟩
    simp only [ArithOp.make, hu, ite_not]
  | sub =>
    refine ⟨a.add b.invert, ?_, ?_⟩
    · rw [value_add (by omega) (by omega), hi]
      rfl
    · simp only [ArithOp.make, hu, ite_not]

/-- The sum or the difference is stored exactly when it fits 64 bits with or without a sign, and
is an overflow otherwise. -/
theorem updateArith_exact (other : OtherNumbers) (opcode : Opcode) (field : String)
    (old arg : Bytes) (a b : Int) (ha : mpInteger old = some a) (hb : mpInteger arg = some b) :
    if -2 ^ 63 ≤ opcode.apply a b ∧ opcode.apply a b < 2 ^ 64 then
      ∃ bytes, updateArith other opcode field old arg = .ok bytes ∧
        mpInteger bytes = some (opcode.apply a b)
    else updateArith other opcode field old arg = .error (.integerOverflow opcode field) := by
  obtain ⟨hr, x, hx, rfl⟩ := readArgArith_integer other opcode field ha
  obtain ⟨hrb, y, hy, rfl⟩ := readArgArith_integer other opcode field hb
  obtain ⟨sum, hs, hm⟩ := make_integer (⟨opcode, field, .inl y, 0⟩ : ArithOp other) x rfl
    (by omega) (by omega)
  dsimp only at hs hm
  rw [← hs]
  split
  case isTrue h =>
    rw [if_pos h] at hm
    let op : ArithOp other := ⟨opcode, field, .inl sum, 0⟩
    refine ⟨{ op with newFieldLen := op.store.length }.store, ?_, mpInteger_store rfl h⟩
    simp only [updateArith, ArithOp.doArith, bind, Except.bind, hy, hx, hm]
    rfl
  case isFalse h =>
    rw [if_neg h] at hm
    simp [updateArith, ArithOp.doArith, bind, Except.bind, hy, hx, hm]

/-- The greatest number minus one that is written with a sign. -/
theorem updateArith_exact_max :
    mpInteger (0xcf :: replicate 8 0xff) = some (2 ^ 64 - 1) ∧ mpInteger [0xff] = some (-1) ∧
    updateArith ⟨Unit, fun _ => none, fun _ _ _ _ => .ok (), fun _ => []⟩ .sub "1"
      (0xcf :: replicate 8 0xff) [0xff] = .error (.integerOverflow .sub "1") := by
  have ha : mpInteger (0xcf :: replicate 8 0xff) = some (2 ^ 64 - 1) := by decide
  have hb : mpInteger [0xff] = some (-1) := by decide
  have h := updateArith_exact ⟨Unit, fun _ => none, fun _ _ _ _ => .ok (), fun _ => []⟩ .sub "1"
    _ _ _ _ ha hb
  rw [if_neg (by decide)] at h
  exact ⟨ha, hb, h⟩

end TarantoolStorage.Update
