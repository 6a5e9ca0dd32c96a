import TarantoolStorage.Index.Double

/-! Decimals of at most 38 digits and the conversion of doubles to them (lib/core/decimal.c). -/
namespace TarantoolStorage.Index

open Compare

abbrev decimalMaxDigits : Nat := 38

/-- A decimal as stored: sign, digits and exponent. Digits and scale are at most 38 and the number
is below `10 ^ 38` in magnitude. -/
structure Decimal where
  negative : Bool
  coefficient : Nat
  exponent : Int
  coefficient_lt : coefficient * 10 ^ exponent.toNat < 10 ^ decimalMaxDigits
  exponent_ge : -decimalMaxDigits ≤ exponent
  exponent_lt : exponent < decimalMaxDigits
  deriving DecidableEq

namespace Decimal

def signed (d : Decimal) : Int := if d.negative then -d.coefficient else d.coefficient

def value (d : Decimal) : ℚ := d.signed * 10 ^ d.exponent

def ofScaled (c e : Int) (hc : c.natAbs * 10 ^ e.toNat < 10 ^ decimalMaxDigits)
    (he : -decimalMaxDigits ≤ e) (he' : e < decimalMaxDigits) : Decimal :=
  ⟨c < 0, c.natAbs, e, hc, he, he'⟩

@[simp] lemma value_ofScaled {c e : Int} (hc : c.natAbs * 10 ^ e.toNat < 10 ^ decimalMaxDigits)
    (he : -decimalMaxDigits ≤ e) (he' : e < decimalMaxDigits) :
    (ofScaled c e hc he he').value = c * 10 ^ e := by
  have hs : (ofScaled c e hc he he').signed = c := by
    simp only [signed, ofScaled, decide_eq_true_eq]
    split <;> omega
  rw [value, hs]
  rfl

end Decimal

def decimalCompare (lhs rhs : Extended) : Int := compareResult lhs rhs

/-- `decNumberFromInt64` and `decNumberFromUInt64`: exact, as an integer has at most 20 digits. -/
def decimalFromInt (n : Int) (h : n.natAbs < 2 ^ 64) : Decimal :=
  .ofScaled n 0 (by simp [decimalMaxDigits]; omega) (by decide) (by decide)

@[simp] lemma value_decimalFromInt {n : Int} (h : n.natAbs < 2 ^ 64) :
    (decimalFromInt n h).value = n := by
  simp [decimalFromInt]

/-- The number written by `"%.15g"`: fifteen significant digits, correctly rounded. -/
def printed (q : ℚ) : ℚ :=
  let quantum : ℚ := 10 ^ (Int.log 10 |q| - 14)
  roundHalfEven (q / quantum) * quantum

/-- Rounding to the largest scale, a half away from zero. -/
def atMaxScale (q : ℚ) : ℚ :=
  if 0 ≤ q then ⌊q * 10 ^ decimalMaxDigits + 1 / 2⌋ / 10 ^ decimalMaxDigits
  else -(⌊-q * 10 ^ decimalMaxDigits + 1 / 2⌋ / 10 ^ decimalMaxDigits)

/-- `decNumberFromString` on the text of a double: a number of 39 digits becomes an infinity. -/
def decimalFromString (q : ℚ) : Extended :=
  if 10 ^ decimalMaxDigits ≤ atMaxScale q then ⊤
  else if atMaxScale q ≤ -10 ^ decimalMaxDigits then ⊥
  else .ofRat (atMaxScale q)

/-- What `decimal_from_double` leaves in its result: nothing for an infinity or a NaN. -/
def decimalFromDouble : Double → Option Extended
  | .finite m e _ => some (decimalFromString (printed (m * 2 ^ e)))
  | .infinity _ | .nan _ => none

lemma decimal_of_scaled {c e : Int} (hc : c.natAbs ≤ 10 ^ 15) (he : -decimalMaxDigits ≤ e)
    (hl : |(c * 10 ^ e : ℚ)| < 10 ^ decimalMaxDigits) : ∃ d : Decimal, d.value = c * 10 ^ e := by
  by_cases hz : c = 0
  · exact ⟨decimalFromInt 0 (by decide), by simp [hz]⟩
  have hco : c.natAbs * 10 ^ e.toNat < 10 ^ decimalMaxDigits := by
    rcases le_or_gt 0 e with h | h
    · obtain ⟨k, rfl⟩ := Int.eq_ofNat_of_zero_le h
      rw [abs_mul, ← Int.cast_abs, Int.abs_eq_natAbs] at hl
      simp only [Int.toNat_natCast]
      simpa [zpow_natCast, abs_of_pos] using (by exact_mod_cast hl : _)
    · rw [Int.toNat_of_nonpos h.le]
      simp only [decimalMaxDigits]
      omega
  have he' : e < decimalMaxDigits := by
    by_contra hge
    have hp : 10 ^ decimalMaxDigits ≤ 10 ^ e.toNat := Nat.pow_le_pow_right (by decide) (by omega)
    have hpo : 1 ≤ c.natAbs := Int.natAbs_pos.2 hz
    have := Nat.mul_le_mul hpo hp
    omega
  exact ⟨.ofScaled c e hco he he', Decimal.value_ofScaled _ he he'⟩

/-- A number whose exponent is in range needs no rounding to the largest scale. -/
lemma atMaxScale_of_scaled (c : ℤ) {e : ℤ} (he : -decimalMaxDigits ≤ e) :
    atMaxScale (c * 10 ^ e) = c * 10 ^ e := by
  obtain ⟨k, hk⟩ := Int.eq_ofNat_of_zero_le (by omega : 0 ≤ e + decimalMaxDigits)
  have hint : (c * 10 ^ e : ℚ) * 10 ^ decimalMaxDigits = ((c * 10 ^ k : ℤ) : ℚ) := by
    push_cast
    rw [mul_assoc, ← zpow_natCast (10 : ℚ) k, ← zpow_natCast (10 : ℚ) decimalMaxDigits,
      ← zpow_add₀ (by norm_num)]
    congr 2
  have hr (z : ℤ) : ⌊(z : ℚ) + 1 / 2⌋ = z := by
    rw [Int.floor_intCast_add]
    norm_num
  have hp : (10 ^ decimalMaxDigits : ℚ) ≠ 0 := by positivity
  unfold atMaxScale
  split
  · rw [hint, hr, ← hint, mul_div_cancel_right₀ _ hp]
  · rw [neg_mul, hint, ← Int.cast_neg, hr, Int.cast_neg, ← hint, neg_div,
      mul_div_cancel_right₀ _ hp, neg_neg]

variable {q : ℚ}

lemma atMaxScale_of_tiny (h : |q| * 10 ^ decimalMaxDigits ≤ 10 ^ 14) :
    ∃ c : ℤ, c.natAbs ≤ 10 ^ 15 ∧ atMaxScale q = c * 10 ^ (-decimalMaxDigits : ℤ) := by
  have hd (x : ℚ) : x / 10 ^ decimalMaxDigits = x * 10 ^ (-decimalMaxDigits : ℤ) := by
    rw [zpow_neg, zpow_natCast, div_eq_mul_inv]
  have hb {p : ℚ} (h0 : 0 ≤ p) (hp : p ≤ 10 ^ 14) : (⌊p + 1 / 2⌋).natAbs ≤ 10 ^ 15 := by
    have hl : 0 ≤ ⌊p + 1 / 2⌋ := Int.floor_nonneg.2 (by linarith)
    have hh : ⌊p + 1 / 2⌋ ≤ 10 ^ 15 := by
      have := Int.floor_le (p + 1 / 2)
      have : (⌊p + 1 / 2⌋ : ℚ) ≤ 10 ^ 15 := by linarith
      exact_mod_cast this
    omega
  have hpo : (0 : ℚ) ≤ 10 ^ decimalMaxDigits := by positivity
  unfold atMaxScale
  split
  next h0 =>
    rw [abs_of_nonneg h0] at h
    exact ⟨_, hb (mul_nonneg h0 hpo) h, hd _⟩
  next h0 =>
    rw [abs_of_neg (not_le.1 h0)] at h
    have hn : 0 ≤ -q := by linarith [not_le.1 h0]
    refine ⟨-⌊-q * 10 ^ decimalMaxDigits + 1 / 2⌋, ?_, ?_⟩
    · rw [Int.natAbs_neg]
      exact hb (mul_nonneg hn hpo) h
    · rw [hd, Int.cast_neg]
      exact (neg_mul _ _).symm

lemma printed_eq (q : ℚ) : ∃ c e : ℤ, c.natAbs ≤ 10 ^ 15 ∧ printed q = c * 10 ^ e := by
  refine ⟨_, _, ?_, rfl⟩
  have hp : (0 : ℚ) < 10 ^ (Int.log 10 |q| - 14) := zpow_pos (by norm_num) _
  have hlt : |q| < 10 ^ 15 * 10 ^ (Int.log 10 |q| - 14) := by
    have hl := Int.lt_zpow_succ_log_self (b := 10) (by norm_num) |q|
    push_cast at hl
    rwa [← zpow_natCast, ← zpow_add₀ (by norm_num),
      show ((15 : ℕ) : ℤ) + (Int.log 10 |q| - 14) = Int.log 10 |q| + 1 by push_cast; ring]
  have ha := abs_lt.1 hlt
  have hh : roundHalfEven (q / 10 ^ (Int.log 10 |q| - 14)) ≤ 10 ^ 15 := by
    apply roundHalfEven_le
    rw [div_le_iff₀ hp]
    push_cast
    linarith
  have hlo : -10 ^ 15 ≤ roundHalfEven (q / 10 ^ (Int.log 10 |q| - 14)) := by
    apply le_roundHalfEven
    rw [le_div_iff₀ hp]
    push_cast
    linarith
  omega

lemma decimal_of_decimalFromString {r : ℚ} (h : decimalFromString (printed q) = .ofRat r) :
    ∃ d : Decimal, d.value = r := by
  obtain ⟨c, e, hc, hp⟩ := printed_eq q
  have hr : atMaxScale (printed q) = r ∧ |r| < 10 ^ decimalMaxDigits := by
    unfold decimalFromString at h
    split_ifs at h with hto hb
    · exact absurd h.symm (Extended.ofRat_ne_top r)
    · exact absurd h.symm (Extended.ofRat_ne_bot r)
    · have heq : atMaxScale (printed q) = r := WithTop.coe_injective (WithBot.coe_injective h)
      rw [heq] at hto hb
      exact ⟨heq, abs_lt.2 ⟨not_le.1 hb, not_le.1 hto⟩⟩
  obtain ⟨heq, hl⟩ := hr
  rcases le_or_gt (-decimalMaxDigits : ℤ) e with he | he
  · rw [hp, atMaxScale_of_scaled c he] at heq
    rw [← heq] at hl ⊢
    exact decimal_of_scaled hc he hl
  · have ht : |printed q| * 10 ^ decimalMaxDigits ≤ 10 ^ 14 := by
      rw [hp, abs_mul, ← Int.cast_abs, Int.abs_eq_natAbs,
        abs_of_pos (zpow_pos (by norm_num : (0 : ℚ) < 10) e), mul_assoc,
        ← zpow_natCast (10 : ℚ) decimalMaxDigits, ← zpow_add₀ (by norm_num)]
      have hz : (10 : ℚ) ^ (e + (decimalMaxDigits : ℤ)) ≤ 10 ^ (-1 : ℤ) :=
        zpow_le_zpow_right₀ (by norm_num) (by omega)
      have hcq : ((c.natAbs : ℤ) : ℚ) ≤ 10 ^ 15 := by exact_mod_cast hc
      calc ((c.natAbs : ℤ) : ℚ) * 10 ^ (e + (decimalMaxDigits : ℤ)) ≤ 10 ^ 15 * 10 ^ (-1 : ℤ) :=
            mul_le_mul hcq hz (zpow_pos (by norm_num) _).le (by positivity)
        _ = 10 ^ 14 := by norm_num
    obtain ⟨c', hc', hq'⟩ := atMaxScale_of_tiny ht
    rw [heq] at hq'
    rw [hq'] at hl ⊢
    exact decimal_of_scaled hc' le_rfl hl

lemma Decimal.abs_value_lt (d : Decimal) : |d.value| < 10 ^ decimalMaxDigits := by
  have hs : |(d.signed : ℚ)| = d.coefficient := by
    unfold Decimal.signed
    split <;> simp
  rw [Decimal.value, abs_mul, hs, abs_of_pos (zpow_pos (by norm_num : (0 : ℚ) < 10) _)]
  have hz : (10 : ℚ) ^ d.exponent ≤ 10 ^ (d.exponent.toNat : ℤ) :=
    zpow_le_zpow_right₀ (by norm_num) (Int.self_le_toNat _)
  have hl : (d.coefficient : ℚ) * 10 ^ d.exponent.toNat < 10 ^ decimalMaxDigits := by
    exact_mod_cast d.coefficient_lt
  rw [zpow_natCast] at hz
  exact (mul_le_mul_of_nonneg_left hz (Nat.cast_nonneg _)).trans_lt hl

lemma printed_nonpos (h : q ≤ 0) : printed q ≤ 0 := by
  have hp : (0 : ℚ) < 10 ^ (Int.log 10 |q| - 14) := zpow_pos (by norm_num) _
  have hr : roundHalfEven (q / 10 ^ (Int.log 10 |q| - 14)) ≤ 0 :=
    roundHalfEven_le (by simpa using div_nonpos_of_nonpos_of_nonneg h hp.le)
  exact mul_nonpos_of_nonpos_of_nonneg (by exact_mod_cast hr) hp.le

lemma printed_nonneg (h : 0 ≤ q) : 0 ≤ printed q := by
  have hp : (0 : ℚ) < 10 ^ (Int.log 10 |q| - 14) := zpow_pos (by norm_num) _
  have hr : 0 ≤ roundHalfEven (q / 10 ^ (Int.log 10 |q| - 14)) :=
    le_roundHalfEven (by simpa using div_nonneg h hp.le)
  exact mul_nonneg (by exact_mod_cast hr) hp.le

lemma atMaxScale_nonneg (h : 0 ≤ q) : 0 ≤ atMaxScale q := by
  rw [atMaxScale, if_pos h]
  have hf : 0 ≤ ⌊q * 10 ^ decimalMaxDigits + 1 / 2⌋ := by
    apply Int.floor_nonneg.2
    positivity
  have : (0 : ℚ) ≤ ⌊q * 10 ^ decimalMaxDigits + 1 / 2⌋ := by exact_mod_cast hf
  positivity

lemma atMaxScale_nonpos (h : q ≤ 0) : atMaxScale q ≤ 0 := by
  rcases h.lt_or_eq with h | rfl
  · rw [atMaxScale, if_neg (not_le.2 h), neg_nonpos]
    have hf : 0 ≤ ⌊-q * 10 ^ decimalMaxDigits + 1 / 2⌋ := by
      have : (0 : ℚ) ≤ -q * 10 ^ decimalMaxDigits := mul_nonneg (neg_nonneg.2 h.le) (by positivity)
      exact Int.floor_nonneg.2 (by linarith)
    have : (0 : ℚ) ≤ ⌊-q * 10 ^ decimalMaxDigits + 1 / 2⌋ := by exact_mod_cast hf
    positivity
  · simpa using (atMaxScale_of_scaled 0 (e := 0) (by decide)).le

/-- A rational that orders a double among decimals as its conversion does, and keeps doubles too
large for that apart. -/
def decimalRank (q : ℚ) : ℚ :=
  if 10 ^ decimalMaxDigits ≤ atMaxScale (printed q) then 10 ^ decimalMaxDigits + q
  else if atMaxScale (printed q) ≤ -10 ^ decimalMaxDigits then -10 ^ decimalMaxDigits + q
  else atMaxScale (printed q)

lemma decimalFromString_cases (q : ℚ) :
    (decimalFromString (printed q) = ⊤ ∧ decimalRank q = 10 ^ decimalMaxDigits + q ∧ 0 < q) ∨
    (decimalFromString (printed q) = ⊥ ∧ decimalRank q = -10 ^ decimalMaxDigits + q ∧ q < 0) ∨
    ∃ d : Decimal, decimalFromString (printed q) = .ofRat d.value ∧ decimalRank q = d.value := by
  have hp : (0 : ℚ) < 10 ^ decimalMaxDigits := by positivity
  by_cases ht : 10 ^ decimalMaxDigits ≤ atMaxScale (printed q)
  · refine .inl ⟨if_pos ht, if_pos ht, ?_⟩
    by_contra hq
    linarith [atMaxScale_nonpos (printed_nonpos (not_lt.1 hq))]
  by_cases hb : atMaxScale (printed q) ≤ -10 ^ decimalMaxDigits
  · refine .inr (.inl ⟨?_, ?_, ?_⟩)
    · rw [decimalFromString, if_neg ht, if_pos hb]
    · rw [decimalRank, if_neg ht, if_pos hb]
    · by_contra hq
      linarith [atMaxScale_nonneg (printed_nonneg (not_lt.1 hq))]
  · have hr : decimalFromString (printed q) = .ofRat (atMaxScale (printed q)) := by
      rw [decimalFromString, if_neg ht, if_neg hb]
    obtain ⟨d, hd⟩ := decimal_of_decimalFromString hr
    refine .inr (.inr ⟨d, by rw [hr, hd], ?_⟩)
    rw [decimalRank, if_neg ht, if_neg hb, hd]

lemma compareResult_decimalRank (q : ℚ) {v : ℚ} (hv : |v| < 10 ^ decimalMaxDigits) :
    compareResult (.ofRat v) (decimalFromString (printed q)) = compareResult v (decimalRank q) := by
  obtain ⟨hl, hh⟩ := abs_lt.1 hv
  rcases decimalFromString_cases q with ⟨hr, hk, hq⟩ | ⟨hr, hk, hq⟩ | ⟨d, hr, hk⟩
  · rw [hr, hk, compareResult_of_lt (Extended.ofRat_lt_top v), compareResult_of_lt (by linarith)]
  · rw [hr, hk, compareResult_of_gt (Extended.bot_lt_ofRat v), compareResult_of_gt (by linarith)]
  · rw [hr, hk, compareResult_ofRat]

/-- Ranks keep the order of two numbers unless a decimal separates their conversions the wrong
way. -/
lemma decimalRank_lt {p : ℚ} (hpq : p < q)
    (h : ∀ d : Decimal, ¬(decimalFromString (printed q) ≤ .ofRat d.value ∧ .ofRat d.value ≤
      decimalFromString (printed p))) : decimalRank p < decimalRank q := by
  have hpo : (0 : ℚ) < 10 ^ decimalMaxDigits := by positivity
  rcases decimalFromString_cases p with ⟨hp, hkp, hp0⟩ | ⟨hp, hkp, hp0⟩ | ⟨d, hp, hkp⟩
  · rcases decimalFromString_cases q with ⟨_, hk, _⟩ | ⟨_, _, hq0⟩ | ⟨d, hq, hk⟩
    · linarith
    · linarith
    · exact absurd ⟨hq.le, hp ▸ le_top⟩ (h d)
  · rcases decimalFromString_cases q with ⟨_, hk, hq0⟩ | ⟨_, hk, _⟩ | ⟨d, _, hk⟩
    · linarith
    · linarith
    · linarith [(abs_lt.1 d.abs_value_lt).1]
  · have hd : Extended.ofRat d.value < decimalFromString (printed q) :=
      not_le.1 fun hl => h d ⟨hl, hp.ge⟩
    rw [← compareResult_neg, compareResult_decimalRank q d.abs_value_lt, compareResult_neg] at hd
    rwa [hkp]

end TarantoolStorage.Index
