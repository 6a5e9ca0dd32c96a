import TarantoolStorage.Lib.Compare

/-! IEEE doubles as exact values, and their comparison with 64-bit integers (lib/core/util.c). -/
namespace TarantoolStorage.Index

open Compare

/-- Rationals with the two infinities. -/
abbrev Extended := WithBot (WithTop ℚ)

def Extended.ofRat (q : ℚ) : Extended := ((q : WithTop ℚ) : WithBot (WithTop ℚ))

/-- Places in the order of numbers: the two kinds of NaN, then the extended rationals. -/
abbrev Place := Lex (Bool ⊕ Extended)

def Place.ofValue (v : Extended) : Place := toLex (.inr v)

/-- A double: a number with a 53-bit mantissa, an infinity, or a NaN with its quiet bit. -/
inductive Double where
  | finite (mantissa exponent : Int) (fits : mantissa.natAbs < 2 ^ 53)
  | infinity (negative : Bool)
  | nan (quiet : Bool)
  deriving DecidableEq

/-- The integer nearest to a rational, the even one of two. -/
def roundHalfEven (q : ℚ) : ℤ :=
  if 2 * (q - ⌊q⌋) < 1 then ⌊q⌋
  else if 1 < 2 * (q - ⌊q⌋) then ⌊q⌋ + 1
  else if ⌊q⌋ % 2 = 0 then ⌊q⌋ else ⌊q⌋ + 1

namespace Double

def ofBits (bits : BitVec 64) : Double :=
  let exponent : Nat := bits.toNat / 2 ^ 52 % 2 ^ 11
  let fraction : Nat := bits.toNat % 2 ^ 52
  if exponent = 2047 then
    if fraction = 0 then .infinity bits.msb else .nan (2 ^ 51 ≤ fraction)
  else
    let mantissa : Nat := if exponent = 0 then fraction else 2 ^ 52 + fraction
    .finite (if bits.msb then -mantissa else mantissa) ((max exponent 1 : Nat) - 1075) (by
      have hf : fraction < 2 ^ 52 := Nat.mod_lt _ (by decide)
      show Int.natAbs _ < _
      split <;> simp only [Int.natAbs_neg, Int.natAbs_natCast, mantissa] <;> split <;> omega)

/-- The float stored in four bytes, as a double: the conversion is exact and makes a signalling NaN
quiet. -/
def ofFloatBits (bits : BitVec 32) : Double :=
  let exponent : Nat := bits.toNat / 2 ^ 23 % 2 ^ 8
  let fraction : Nat := bits.toNat % 2 ^ 23
  if exponent = 255 then
    if fraction = 0 then .infinity bits.msb else .nan true
  else
    let mantissa : Nat := if exponent = 0 then fraction else 2 ^ 23 + fraction
    .finite (if bits.msb then -mantissa else mantissa) ((max exponent 1 : Nat) - 150) (by
      have hf : fraction < 2 ^ 23 := Nat.mod_lt _ (by decide)
      show Int.natAbs _ < _
      split <;> simp only [Int.natAbs_neg, Int.natAbs_natCast, mantissa] <;> split <;> omega)

def isNan : Double → Bool
  | .nan _ => true
  | _ => false

@[simp] lemma isNan_nan (quiet : Bool) : (nan quiet).isNan = true := rfl

/-- The extended rational a double that is not a NaN stands for. -/
def value : Double → Extended
  | .finite m e _ => .ofRat (m * 2 ^ e)
  | .infinity negative => if negative then ⊥ else ⊤
  | .nan _ => ⊥

/-- The place of a double in the order of numbers: NaNs come first, the signalling one below
the quiet one. -/
def rank : Double → Place
  | .nan quiet => toLex (.inl quiet)
  | x => .ofValue x.value

/-- The comparison `q <= x` of the language, false for a NaN. -/
def atLeast (q : ℚ) (x : Double) : Bool := !x.isNan && decide (.ofRat q ≤ x.value)

/-- The comparison `x <= q` of the language, false for a NaN. -/
def atMost (x : Double) (q : ℚ) : Bool := !x.isNan && decide (x.value ≤ .ofRat q)

/-- The conversion of a finite double to an integer type that holds its integral part. -/
def truncate : Double → Int
  | .finite m e _ => if 0 ≤ m then ⌊(m * 2 ^ e : ℚ)⌋ else ⌈(m * 2 ^ e : ℚ)⌉
  | _ => 0

end Double

/-- The conversion of a 64-bit integer to a double, rounded to nearest. -/
def doubleOfInt (n : Int) : ℚ :=
  if n.natAbs ≤ 2 ^ 53 then n
  else
    let ulp : ℚ := 2 ^ (n.natAbs.log2 - 52)
    roundHalfEven (n / ulp) * ulp

def doubleCompareUint64 (lhs : Double) (rhs : UInt64) (k : Int) : Int :=
  if lhs.atLeast (2 ^ 53) then
    if lhs.atLeast (2 ^ 64) then k
    else k * compareResult lhs.truncate (rhs.toNat : Int)
  else if !lhs.isNan then
    k * compareResult lhs.value (.ofRat (doubleOfInt rhs.toNat))
  else -k

def doubleCompareNint64 (lhs : Double) (rhs : Int64) (k : Int) : Int :=
  if lhs.atMost (-2 ^ 53) then
    if lhs.atMost (-2 ^ 63) && !lhs.atLeast (-2 ^ 63) then -k
    else k * compareResult lhs.truncate rhs.toInt
  else if !lhs.isNan then
    k * compareResult lhs.value (.ofRat (doubleOfInt rhs.toInt))
  else -k

def doubleCompareInt64 (lhs : Double) (rhs : Int64) (k : Int) : Int :=
  if 0 ≤ rhs.toInt then doubleCompareUint64 lhs rhs.toUInt64 k
  else doubleCompareNint64 lhs rhs k

open Extended

@[simp] lemma Extended.ofRat_lt {p q : ℚ} : ofRat p < .ofRat q ↔ p < q := by
  simp [ofRat]

@[simp] lemma Extended.ofRat_le {p q : ℚ} : ofRat p ≤ .ofRat q ↔ p ≤ q := by
  simp [ofRat]

@[simp] lemma Extended.ofRat_lt_top (q : ℚ) : ofRat q < ⊤ :=
  WithBot.coe_lt_coe.2 (WithTop.coe_lt_top q)

@[simp] lemma Extended.bot_lt_ofRat (q : ℚ) : ⊥ < ofRat q := WithBot.bot_lt_coe _

@[simp] lemma Extended.ofRat_ne_bot (q : ℚ) : ofRat q ≠ ⊥ := WithBot.coe_ne_bot

@[simp] lemma Extended.ofRat_ne_top (q : ℚ) : ofRat q ≠ ⊤ := (ofRat_lt_top q).ne

lemma compareResult_ofRat (p q : ℚ) : compareResult (ofRat p) (.ofRat q) = compareResult p q :=
  compareResult_map (fun _ _ => ofRat_lt) p q

lemma compareResult_intCast (m n : ℤ) : compareResult (m : ℚ) (n : ℚ) = compareResult m n :=
  compareResult_map (fun _ _ => Int.cast_lt) m n

lemma le_roundHalfEven {q : ℚ} {n : ℤ} (h : (n : ℚ) ≤ q) : n ≤ roundHalfEven q := by
  have hf : n ≤ ⌊q⌋ := Int.le_floor.2 h
  unfold roundHalfEven
  split_ifs <;> omega

lemma roundHalfEven_le {q : ℚ} {n : ℤ} (h : q ≤ (n : ℚ)) : roundHalfEven q ≤ n := by
  rcases h.lt_or_eq with h | rfl
  · have hf : ⌊q⌋ < n := Int.floor_lt.2 h
    unfold roundHalfEven
    split_ifs <;> omega
  · simp [roundHalfEven]

variable {n m e : Int}

/-- The spacing of doubles around a 64-bit integer beyond the mantissa divides `2 ^ 53`. -/
lemma ulp_dvd (hn : n.natAbs < 2 ^ 64) : ∃ c : ℤ, (2 ^ 53 : ℚ) = c * 2 ^ (n.natAbs.log2 - 52) := by
  have hl : n.natAbs.log2 < 64 := by
    by_cases h0 : n.natAbs = 0
    · simp [h0]
    · exact (Nat.log2_lt h0).2 hn
  refine ⟨2 ^ (53 - (n.natAbs.log2 - 52)), ?_⟩
  push_cast
  rw [← pow_add]
  congr 1
  omega

lemma le_doubleOfInt (h : 2 ^ 53 ≤ n) (hn : n < 2 ^ 64) : 2 ^ 53 ≤ doubleOfInt n := by
  unfold doubleOfInt
  split
  · exact_mod_cast h
  obtain ⟨c, hc⟩ := ulp_dvd (n := n) (by omega)
  have hu : (0 : ℚ) < 2 ^ (n.natAbs.log2 - 52) := by positivity
  have hq : (c : ℚ) ≤ n / 2 ^ (n.natAbs.log2 - 52) := by
    rw [le_div_iff₀ hu, ← hc]
    exact_mod_cast h
  rw [hc]
  exact mul_le_mul_of_nonneg_right (by exact_mod_cast le_roundHalfEven hq) hu.le

lemma doubleOfInt_le (h : n ≤ -2 ^ 53) (hn : -2 ^ 64 < n) : doubleOfInt n ≤ -2 ^ 53 := by
  unfold doubleOfInt
  split
  · exact_mod_cast h
  obtain ⟨c, hc⟩ := ulp_dvd (n := n) (by omega)
  have hu : (0 : ℚ) < 2 ^ (n.natAbs.log2 - 52) := by positivity
  have hq : (n / 2 ^ (n.natAbs.log2 - 52) : ℚ) ≤ ((-c : ℤ) : ℚ) := by
    rw [div_le_iff₀ hu]
    push_cast
    rw [neg_mul, ← hc]
    exact_mod_cast h
  have hr : (roundHalfEven (n / 2 ^ (n.natAbs.log2 - 52)) : ℚ) ≤ -c := by
    exact_mod_cast roundHalfEven_le hq
  rw [hc, ← neg_mul]
  exact mul_le_mul_of_nonneg_right hr hu.le

lemma doubleOfInt_small (h : n.natAbs ≤ 2 ^ 53) : doubleOfInt n = n := if_pos h

lemma integral_of_large (fits : m.natAbs < 2 ^ 53) (h : (2 ^ 53 : ℚ) ≤ |(m : ℚ) * 2 ^ e|) :
    ∃ z : ℤ, (m * 2 ^ e : ℚ) = z := by
  have hm : |(m : ℚ)| < 2 ^ 53 := by
    rw [← Int.cast_abs, Int.abs_eq_natAbs]
    exact_mod_cast fits
  have he : 0 ≤ e := by
    by_contra hneg
    have hl : (2 : ℚ) ^ e ≤ 1 := zpow_le_one_of_nonpos₀ (by norm_num) (by omega)
    have hp : (0 : ℚ) < 2 ^ e := zpow_pos (by norm_num) e
    rw [abs_mul, abs_of_pos hp] at h
    have := mul_le_of_le_one_right (abs_nonneg (m : ℚ)) hl
    linarith
  obtain ⟨k, rfl⟩ := Int.eq_ofNat_of_zero_le he
  exact ⟨m * 2 ^ k, by push_cast; rfl⟩

open Double

lemma truncate_of_integral {z : Int} {fits : m.natAbs < 2 ^ 53} (h : (m * 2 ^ e : ℚ) = z) :
    (finite m e fits).truncate = z := by
  simp [truncate, h]

lemma integral_of_le (fits : m.natAbs < 2 ^ 53) (h : (2 ^ 53 : ℚ) ≤ m * 2 ^ e) :
    ((finite m e fits).truncate : ℚ) = m * 2 ^ e := by
  obtain ⟨z, hz⟩ := integral_of_large fits (h.trans (le_abs_self _))
  rw [truncate_of_integral hz, hz]

lemma integral_of_ge (fits : m.natAbs < 2 ^ 53) (h : (m * 2 ^ e : ℚ) ≤ -2 ^ 53) :
    ((finite m e fits).truncate : ℚ) = m * 2 ^ e := by
  have ha : (2 ^ 53 : ℚ) ≤ |(m : ℚ) * 2 ^ e| := by
    rw [le_abs]
    right
    linarith
  obtain ⟨z, hz⟩ := integral_of_large fits ha
  rw [truncate_of_integral hz, hz]

/-- The comparison with an unsigned integer is exact, and a NaN is below every integer. -/
lemma doubleCompareUint64_eq (x : Double) (n : UInt64) (k : Int) : doubleCompareUint64 x n k =
      if x.isNan then -k else k * compareResult x.value (.ofRat (n.toNat : ℤ)) := by
  have hn : (n.toNat : ℤ) < 2 ^ 64 := by exact_mod_cast n.toNat_lt
  cases x with
  | nan quiet => simp [doubleCompareUint64, isNan, atLeast]
  | infinity negative =>
    cases negative <;> simp [doubleCompareUint64, isNan, atLeast, value,
        compareResult_of_gt, compareResult_of_lt]
  | finite m e fits =>
    simp only [doubleCompareUint64, isNan, atLeast, value,
      ofRat_le, compareResult_ofRat, Bool.not_false, Bool.true_and, decide_eq_true_eq,
      Bool.false_eq_true, if_false, if_true]
    split_ifs with h53 h64
    · have hl : ((n.toNat : ℤ) : ℚ) < m * 2 ^ e := by
        have : ((n.toNat : ℤ) : ℚ) < 2 ^ 64 := by exact_mod_cast hn
        linarith
      rw [compareResult_of_gt hl, mul_one]
    · rw [← compareResult_intCast, integral_of_le fits h53]
    · -- below `2 ^ 53` an integer and its conversion are on the same side
      rcases le_or_gt (n.toNat : ℤ) (2 ^ 53) with hs | hbi
      · rw [doubleOfInt_small (by omega)]
      · have hd := le_doubleOfInt hbi.le hn
        have hb : (2 ^ 53 : ℚ) < (n.toNat : ℤ) := by exact_mod_cast hbi
        rw [compareResult_of_lt (by linarith), compareResult_of_lt (by linarith)]

lemma doubleCompareNint64_eq (x : Double) {n : Int64} (h : n.toInt < 0) (k : Int) :
    doubleCompareNint64 x n k =
      if x.isNan then -k else k * compareResult x.value (.ofRat n.toInt) := by
  have hl : -2 ^ 63 ≤ n.toInt := n.le_toInt
  cases x with
  | nan quiet => simp [doubleCompareNint64, isNan, atMost]
  | infinity negative =>
    cases negative <;> simp [doubleCompareNint64, isNan, atMost, atLeast, value,
        compareResult_of_gt, compareResult_of_lt]
  | finite m e fits =>
    simp only [doubleCompareNint64, isNan, atMost, atLeast, value,
      ofRat_le, compareResult_ofRat, Bool.not_false, Bool.true_and, decide_eq_true_eq,
      Bool.and_eq_true, Bool.not_eq_true', decide_eq_false_iff_not, not_le, Bool.false_eq_true,
      if_false, if_true]
    split_ifs with h53 h63
    · have hlt : (m * 2 ^ e : ℚ) < n.toInt := by
        have : (-2 ^ 63 : ℚ) ≤ n.toInt := by exact_mod_cast hl
        linarith
      rw [compareResult_of_lt hlt, mul_neg_one]
    · rw [← compareResult_intCast, integral_of_ge fits h53]
    · rcases le_or_gt (-2 ^ 53) n.toInt with hs | hbi
      · rw [doubleOfInt_small (by omega)]
      · have hd := doubleOfInt_le hbi.le (by omega)
        have hb : (n.toInt : ℚ) < -2 ^ 53 := by exact_mod_cast hbi
        rw [compareResult_of_gt (by linarith), compareResult_of_gt (by linarith)]

lemma toNat_toUInt64_of_nonneg {n : Int64} (h : 0 ≤ n.toInt) :
    (n.toUInt64.toNat : ℤ) = n.toInt := by
  have hb : n.toUInt64.toNat = n.toBitVec.toNat := rfl
  rw [← Int64.toInt_toBitVec, BitVec.toInt_eq_toNat_cond] at *
  rw [hb]
  split <;> simp_all
  omega

lemma doubleCompareInt64_eq (x : Double) (n : Int64) (k : Int) : doubleCompareInt64 x n k =
      if x.isNan then -k else k * compareResult x.value (.ofRat n.toInt) := by
  unfold doubleCompareInt64
  split
  next h => rw [doubleCompareUint64_eq, toNat_toUInt64_of_nonneg h]
  next h => exact doubleCompareNint64_eq x (not_le.1 h) k

lemma compareResult_ofValue (v w : Extended) :
    compareResult (Place.ofValue v) (.ofValue w) = compareResult v w :=
  compareResult_map (fun _ _ => Sum.Lex.inr_lt_inr_iff) v w

lemma Double.rank_of_not_nan {x : Double} (h : x.isNan = false) : x.rank = .ofValue x.value := by
  cases x <;> simp_all [rank, isNan]

/-- An integer is compared with a double by their places in the order of numbers. -/
lemma compareResult_rank_int (x : Double) (n : ℤ) (k : Int) :
    (if x.isNan then -k else k * compareResult x.value (.ofRat n)) =
      k * compareResult x.rank (.ofValue (.ofRat n)) := by
  cases h : x.isNan with
  | false =>
    rw [rank_of_not_nan h, compareResult_ofValue]
    simp
  | true =>
    cases x <;> simp_all [isNan, rank]
    rw [Place.ofValue, compareResult_of_lt (Sum.Lex.inl_lt_inr _ _), mul_neg_one]

end TarantoolStorage.Index
