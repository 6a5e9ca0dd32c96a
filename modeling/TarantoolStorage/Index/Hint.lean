import TarantoolStorage.Index.Field

/-! Comparison hints: 64-bit numbers whose order, where they differ, is the order of the values
(box/tuple_compare.cc). -/
namespace TarantoolStorage.Index

open Compare MsgPack

abbrev hintNone : Nat := 2 ^ 64 - 1

def hintCmp (a b : Nat) : Int :=
  if a ≠ hintNone ∧ b ≠ hintNone ∧ a ≠ b then (if a < b then -1 else 1) else 0

abbrev hintValueBits : Nat := 60

abbrev hintValueBytes : Nat := hintValueBits / 8

abbrev hintValueMax : Nat := 2 ^ hintValueBits - 1

abbrev hintValueIntMax : Int := 2 ^ 59 - 1

abbrev hintValueIntMin : Int := -2 ^ 59

/-- `exp2(59) - 1`, which is rounded to a double. -/
def hintValueDoubleMax : ℚ := doubleOfInt (2 ^ 59 - 1)

def hintValueDoubleMin : ℚ := -2 ^ 59

def hintCreate (c : MpClass) (val : Nat) : Nat := c.index <<< hintValueBits ||| val

def hintNil : Nat := hintCreate .nil 0

def hintBool (b : Bool) : Nat := hintCreate .bool (if b then 1 else 0)

def hintUint (u : UInt64) : Nat :=
  hintCreate .number
    (if hintValueIntMax ≤ u.toNat then hintValueMax else (u.toNat - hintValueIntMin).toNat)

def hintInt (i : Int64) : Nat :=
  hintCreate .number (if i.toInt ≤ hintValueIntMin then 0 else (i.toInt - hintValueIntMin).toNat)

def hintDouble (d : Double) : Nat :=
  match d with
  | .infinity _ | .nan _ => hintNone
  | .finite _ _ _ =>
    hintCreate .number (if d.atLeast hintValueDoubleMax then hintValueMax
      else if d.atMost hintValueDoubleMin then 0
      else (d.truncate - hintValueIntMin).toNat)

def truncateRat (q : ℚ) : ℤ := if 0 ≤ q then ⌊q⌋ else ⌈q⌉

/-- The conversion to a 64-bit integer: towards zero, and nothing for a larger number. -/
def decimalToInt64 (d : Decimal) : Option Int :=
  let num := truncateRat d.value
  if -2 ^ 63 ≤ num ∧ num < 2 ^ 63 then some num else none

def hintDecimal (d : Decimal) : Nat :=
  hintCreate .number (match decimalToInt64 d with
    | some num =>
      if hintValueIntMin ≤ num ∧ num ≤ hintValueIntMax then (num - hintValueIntMin).toNat
      else if !d.negative then hintValueMax else 0
    | none => if !d.negative then hintValueMax else 0)

def hintUuidRaw (u : Bytes) : Nat :=
  hintCreate .uuid ((u.take 8).foldl (fun val b => val * 256 + b.toNat) 0 / 2 ^ 4)

/-- The first bytes of a string as a number, filled up with zeros. -/
def hintStrRaw (s : Bytes) : Nat :=
  let len := min s.length hintValueBytes
  (s.take len).foldl (fun val b => val * 256 + b.toNat) 0 * 256 ^ (hintValueBytes - len)

def hintStr (s : Bytes) : Nat := hintCreate .str (hintStrRaw s)

def hintStrColl (s : Bytes) (coll : Coll) : Nat :=
  hintCreate .str (hintStrRaw (coll.hint s hintValueBytes))

def hintBin (s : Bytes) : Nat := hintCreate .bin (hintStrRaw s)

def fieldHintNumber : Number → Nat
  | .integer (.uint u) => hintUint u
  | .integer (.int i) => hintInt i
  | .float bits => hintDouble (.ofFloatBits bits)
  | .double bits => hintDouble (.ofBits bits)
  | .decimal d => hintDecimal d

def fieldHintString (s : Bytes) (coll : Option Coll) : Nat :=
  match coll with
  | none => hintStr s
  | some coll => hintStrColl s coll

/-- `field_hint`: each field type has the branches for the values it admits. -/
def fieldHint (type : FieldType) (isNullable : Bool) (coll : Option Coll) (value : Scalar) : Nat :=
  match type, value with
  | _, .nil => if isNullable then hintNil else hintNone
  | .boolean, .bool b | .scalar, .bool b => hintBool b
  | .unsigned, .number n | .integer, .number n | .number, .number n | .double, .number n
  | .decimal, .number n | .scalar, .number n => fieldHintNumber n
  | .string, .str s | .scalar, .str s => fieldHintString s coll
  | .varbinary, .bin s | .scalar, .bin s => hintBin s
  | .uuid, .uuid u => hintUuidRaw u
  | _, _ => hintNone -- not reached

def keyHint (type : FieldType) (isNullable : Bool) (coll : Option Coll) (key : List Scalar) : Nat :=
  match key with
  | [] => hintNone
  | value :: _ => fieldHint type isNullable coll value

/-- The hint of a tuple whose first indexed field may be absent. -/
def tupleHint (type : FieldType) (isNullable : Bool) (coll : Option Coll) (field : Option Scalar) :
    Nat :=
  match field with
  | none => if isNullable then hintNil else hintNone
  | some value => fieldHint type isNullable coll value

/-- A number of leading bytes as a number, zeros standing for the missing ones. -/
def prefixNumber : Nat → Bytes → Nat
  | 0, _ | _ + 1, [] => 0
  | n + 1, b :: s => b.toNat * 256 ^ n + prefixNumber n s

lemma prefixNumber_lt (n : Nat) (s : Bytes) : prefixNumber n s < 256 ^ n := by
  induction n generalizing s with
  | zero => simp [prefixNumber]
  | succ n ih =>
    cases s with
    | nil => simp [prefixNumber]
    | cons b s =>
      have hb : b.toNat * 256 ^ n ≤ 255 * 256 ^ n :=
        Nat.mul_le_mul_right _ (Nat.le_of_lt_succ b.toNat_lt)
      have := ih s
      simp only [prefixNumber, pow_succ]
      omega

/-- The loop over the bytes of a hint computes the prefix number. -/
lemma foldl_bytes (n : Nat) (s : Bytes) (acc : Nat) :
    (s.take (min s.length n)).foldl (fun val b => val * 256 + b.toNat) acc *
      256 ^ (n - min s.length n) = acc * 256 ^ n + prefixNumber n s := by
  induction n generalizing s acc with
  | zero => simp [prefixNumber]
  | succ n ih =>
    cases s with
    | nil => simp [prefixNumber]
    | cons b s =>
      have hm : min (s.length + 1) (n + 1) = min s.length n + 1 := by omega
      have hs : n + 1 - (min s.length n + 1) = n - min s.length n := by omega
      rw [List.length_cons, hm, List.take_succ_cons, List.foldl_cons, hs, ih]
      simp only [prefixNumber]
      ring

lemma hintStrRaw_eq (s : Bytes) : hintStrRaw s = prefixNumber hintValueBytes s := by
  have h := foldl_bytes hintValueBytes s 0
  rwa [Nat.zero_mul, Nat.zero_add] at h

lemma mpCompareStr_of_prefixNumber_lt {n : Nat} {s t : Bytes}
    (h : prefixNumber n s < prefixNumber n t) : mpCompareStr s t = -1 := by
  induction n generalizing s t with
  | zero => simp [prefixNumber] at h
  | succ n ih =>
    cases s with
    | nil =>
      cases t with
      | nil => simp at h
      | cons b t => exact mpCompareStr_nil_cons b t
    | cons a s =>
      cases t with
      | nil => simp [prefixNumber] at h
      | cons b t =>
        simp only [prefixNumber] at h
        rw [mpCompareStr_cons]
        split
        next ha =>
          subst ha
          exact ih (by omega)
        next ha =>
          apply compareResult_of_lt
          by_contra hl
          have hlt : b.toNat < a.toNat :=
            lt_of_le_of_ne (not_lt.1 hl) fun he => ha (UInt8.toNat_inj.1 he.symm)
          have hm : (b.toNat + 1) * 256 ^ n ≤ a.toNat * 256 ^ n := Nat.mul_le_mul_right _ hlt
          have := prefixNumber_lt n t
          rw [Nat.add_mul] at hm
          omega

lemma mpCompareStr_swap (s t : Bytes) : mpCompareStr t s = -mpCompareStr s t := by
  induction s generalizing t with
  | nil => cases t <;> simp [mpCompareStr, memcmp, compareResult]
  | cons a s ih =>
    cases t with
    | nil => simp
    | cons b t =>
      rw [mpCompareStr_cons, mpCompareStr_cons]
      by_cases ha : a = b
      · rw [if_pos ha, if_pos ha.symm, ih]
      · rw [if_neg ha, if_neg (Ne.symm ha), compareResult_swap]

lemma memcmp_eq_mpCompareStr {s t : Bytes} (hs : s.length = 16) (ht : t.length = 16) :
    memcmp 16 s t = mpCompareStr s t := by
  simp only [mpCompareStr, hs, ht, min_self, compareResult_self]
  split
  · rfl
  next h => exact not_not.1 h

lemma hintCreate_eq (c : MpClass) {val : Nat} (h : val < 2 ^ hintValueBits) :
    hintCreate c val = c.index * 2 ^ hintValueBits + val := by
  rw [hintCreate, ← Nat.shiftLeft_add_eq_or_of_lt h, Nat.shiftLeft_eq]

lemma MpClass.index_injective : Function.Injective MpClass.index := by
  intro c c' h
  cases c <;> cases c' <;> simp_all [MpClass.index]

lemma MpClass.index_le (c : MpClass) : c.index ≤ 5 := by
  cases c <;> simp [MpClass.index]

lemma hintCreate_ne_none (c : MpClass) {val : Nat} (h : val < 2 ^ hintValueBits) :
    hintCreate c val ≠ hintNone := by
  have := c.index_le
  rw [hintCreate_eq c h]
  simp only [hintNone, hintValueBits] at *
  omega

lemma hintCmp_of_ne_none {a b : Nat} (ha : a ≠ hintNone) (hb : b ≠ hintNone) :
    hintCmp a b = compareResult a b := by
  unfold hintCmp
  split
  next h =>
    rcases lt_or_gt_of_ne h.2.2 with h | h
    · rw [if_pos h, compareResult_of_lt h]
    · rw [if_neg (by omega), compareResult_of_gt h]
  next h =>
    have : a = b := by
      by_contra hn
      exact h ⟨ha, hb, hn⟩
    rw [this, compareResult_self]

lemma hintCmp_create {c c' : MpClass} {v w : Nat} (hv : v < 2 ^ hintValueBits)
    (hw : w < 2 ^ hintValueBits) :
    hintCmp (hintCreate c v) (hintCreate c' w) =
      if c = c' then compareResult v w else compareResult c.index c'.index := by
  rw [hintCmp_of_ne_none (hintCreate_ne_none c hv) (hintCreate_ne_none c' hw),
    hintCreate_eq c hv, hintCreate_eq c' hw]
  split
  next h =>
    subst h
    exact compareResult_map (fun x y => by omega) v w
  next h =>
    have hn : c.index ≠ c'.index := fun he => h (MpClass.index_injective he)
    simp only [hintValueBits] at *
    rcases lt_or_gt_of_ne hn with h | h
    · rw [compareResult_of_lt h, compareResult_of_lt (by omega)]
    · rw [compareResult_of_gt h, compareResult_of_gt (by omega)]

@[simp] lemma hintCmp_none_left (b : Nat) : hintCmp hintNone b = 0 := by simp [hintCmp]

@[simp] lemma hintCmp_none_right (a : Nat) : hintCmp a hintNone = 0 := by simp [hintCmp]

/-- The integral part of a number, cut to the range of a hint. -/
def clampTruncate (q : ℚ) : ℤ := max hintValueIntMin (min hintValueIntMax (truncateRat q))

variable {q : ℚ}

lemma truncateRat_mono {p : ℚ} (h : p ≤ q) : truncateRat p ≤ truncateRat q := by
  unfold truncateRat
  split_ifs with hp hq hq
  · exact Int.floor_mono h
  · linarith
  · have : ⌈p⌉ ≤ 0 := Int.ceil_le.2 (by push_cast; linarith)
    have : 0 ≤ ⌊q⌋ := Int.floor_nonneg.2 hq
    omega
  · exact Int.ceil_mono h

lemma lt_of_clampTruncate_lt {p : ℚ} (h : clampTruncate p < clampTruncate q) : p < q := by
  by_contra hl
  have := truncateRat_mono (not_lt.1 hl)
  unfold clampTruncate at h
  omega

@[simp] lemma truncateRat_intCast (n : ℤ) : truncateRat n = n := by
  simp [truncateRat]

lemma le_truncateRat {n : ℤ} (h : (n : ℚ) ≤ q) : n ≤ truncateRat q := by
  simpa using truncateRat_mono h

lemma truncateRat_le {n : ℤ} (h : q ≤ (n : ℚ)) : truncateRat q ≤ n := by
  simpa using truncateRat_mono h

lemma truncateRat_lt {n : ℤ} (hn : 0 < n) (h : q < (n : ℚ)) : truncateRat q < n := by
  unfold truncateRat
  split
  · exact Int.floor_lt.2 h
  next hq => exact (Int.ceil_le.2 (by push_cast; linarith)).trans_lt hn

def numberHintValue (q : ℚ) : Nat := (clampTruncate q - hintValueIntMin).toNat

lemma clampTruncate_bounds (q : ℚ) :
    hintValueIntMin ≤ clampTruncate q ∧ clampTruncate q ≤ hintValueIntMax := by
  unfold clampTruncate hintValueIntMin hintValueIntMax
  omega

lemma numberHintValue_lt (q : ℚ) : numberHintValue q < 2 ^ hintValueBits := by
  have := clampTruncate_bounds q
  simp only [numberHintValue, hintValueIntMin, hintValueIntMax, hintValueBits] at *
  omega

lemma compareResult_numberHintValue (p q : ℚ) :
    compareResult (numberHintValue p) (numberHintValue q) =
      compareResult (clampTruncate p) (clampTruncate q) := by
  have := clampTruncate_bounds p
  have := clampTruncate_bounds q
  simp only [compareResult, numberHintValue]
  congr 1
  · rw [eq_iff_iff]
    omega
  · congr 1
    rw [eq_iff_iff]
    omega

lemma hintUint_eq (u : UInt64) :
    hintUint u = hintCreate .number (numberHintValue (u.toNat : ℤ)) := by
  simp only [hintUint, numberHintValue, clampTruncate, truncateRat_intCast]
  congr 1
  simp only [hintValueIntMax, hintValueIntMin, hintValueMax, hintValueBits]
  split <;> omega

lemma hintInt_eq {i : Int64} (h : i.toInt < 0) :
    hintInt i = hintCreate .number (numberHintValue i.toInt) := by
  simp only [hintInt, numberHintValue, clampTruncate, truncateRat_intCast]
  congr 1
  simp only [hintValueIntMax, hintValueIntMin]
  split <;> omega

lemma hintValueDoubleMax_eq : hintValueDoubleMax = 2 ^ 59 := by
  decide +kernel

lemma hintDouble_finite {m e : Int} (fits : m.natAbs < 2 ^ 53) :
    hintDouble (.finite m e fits) = hintCreate .number (numberHintValue (m * 2 ^ e)) := by
  have hs : 0 ≤ (m * 2 ^ e : ℚ) ↔ 0 ≤ m := by
    rw [mul_nonneg_iff_of_pos_right (zpow_pos (by norm_num : (0 : ℚ) < 2) e)]
    norm_cast
  have ht : (Double.finite m e fits).truncate = truncateRat (m * 2 ^ e) := by
    simp [Double.truncate, truncateRat, hs]
  simp only [hintDouble, numberHintValue, clampTruncate, Double.atLeast, Double.atMost,
    Double.isNan, Double.value, Extended.ofRat_le, hintValueDoubleMax_eq, hintValueDoubleMin,
    ht, Bool.not_false, Bool.true_and, decide_eq_true_eq]
  congr 1
  simp only [hintValueIntMax, hintValueIntMin, hintValueMax, hintValueBits]
  split_ifs with hm hmi
  · have := le_truncateRat (n := 2 ^ 59) (by exact_mod_cast hm)
    omega
  · have := truncateRat_le (n := -2 ^ 59) (by exact_mod_cast hmi)
    omega
  · have := truncateRat_lt (n := 2 ^ 59) (by norm_num) (by exact_mod_cast not_le.1 hm)
    have := le_truncateRat (n := -2 ^ 59) (by exact_mod_cast (not_le.1 hmi).le)
    omega

lemma Decimal.negative_value (d : Decimal) :
    (d.negative = true → d.value ≤ 0) ∧ (d.negative = false → 0 ≤ d.value) := by
  have hp : (0 : ℚ) < 10 ^ d.exponent := zpow_pos (by norm_num) _
  constructor <;> intro h
  · refine mul_nonpos_of_nonpos_of_nonneg ?_ hp.le
    simp [Decimal.signed, h]
  · refine mul_nonneg ?_ hp.le
    simp [Decimal.signed, h]

/-- Out of the range of a hint the sign of a decimal tells on which side it is. -/
lemma hintDecimal_outside (d : Decimal)
    (h : ¬(hintValueIntMin ≤ truncateRat d.value ∧ truncateRat d.value ≤ hintValueIntMax)) :
    (if !d.negative then hintValueMax else 0) = numberHintValue d.value := by
  simp only [numberHintValue, clampTruncate, hintValueMax, hintValueBits, hintValueIntMin,
    hintValueIntMax] at *
  cases hd : d.negative with
  | false =>
    have := le_truncateRat (n := 0) (by exact_mod_cast d.negative_value.2 hd)
    simp only [Bool.not_false, if_true]
    omega
  | true =>
    have := truncateRat_le (n := 0) (by exact_mod_cast d.negative_value.1 hd)
    simp only [Bool.not_true, Bool.false_eq_true, if_false]
    omega

lemma hintDecimal_eq (d : Decimal) :
    hintDecimal d = hintCreate .number (numberHintValue d.value) := by
  unfold hintDecimal decimalToInt64
  congr 1
  by_cases hi : hintValueIntMin ≤ truncateRat d.value ∧ truncateRat d.value ≤ hintValueIntMax
  · have h64 : -2 ^ 63 ≤ truncateRat d.value ∧ truncateRat d.value < 2 ^ 63 := by
      simp only [hintValueIntMin, hintValueIntMax] at hi
      omega
    simp only [h64, and_self, if_true, hi, numberHintValue, clampTruncate]
    omega
  · by_cases h64 : -2 ^ 63 ≤ truncateRat d.value ∧ truncateRat d.value < 2 ^ 63
    · simp only [h64, and_self, if_true, hi, if_false]
      exact hintDecimal_outside d hi
    · simp only [h64, if_false]
      exact hintDecimal_outside d hi

end TarantoolStorage.Index
