import Mathlib

/-!
Integer arithmetic of the SQL engine (sql/util.c). An operand is a word and a flag for a negative
one.
-/
namespace TarantoolStorage.Sql

abbrev Word := BitVec 64

def uint64Max : Word := BitVec.ofNat 64 (2 ^ 64 - 1)

def int64Max : Word := BitVec.ofNat 64 (2 ^ 63 - 1)

def int64Min : Word := BitVec.ofNat 64 (2 ^ 63)

/-- The two ways not to get a result: an error code or a failed assertion. -/
inductive Failure where
  | overflow
  | assertion
  deriving DecidableEq

abbrev Result := Except Failure (Word × Bool)

section

variable (lhs : Word) (isLhsNeg : Bool) (rhs : Word) (isRhsNeg : Bool)

def sqlAddInt : Result :=
  if isLhsNeg ∧ isRhsNeg then
    if ¬ (lhs.slt 0 ∧ rhs.slt 0) then .error .assertion
    else if lhs.slt (int64Min - rhs) then .error .overflow
    else .ok (lhs + rhs, true)
  else if ¬ isLhsNeg ∧ ¬ isRhsNeg then
    if uint64Max - lhs < rhs then .error .overflow
    else .ok (lhs + rhs, false)
  else
    .ok (lhs + rhs, if isRhsNeg then lhs < -rhs else rhs < -lhs)

def sqlSubInt : Result :=
  if ¬ isLhsNeg ∧ ¬ isRhsNeg then
    if rhs ≤ lhs then .ok (lhs - rhs, false)
    else if int64Max + 1 < rhs - lhs then .error .overflow
    else .ok (lhs - rhs, true)
  else if isRhsNeg then sqlAddInt lhs isLhsNeg (-rhs) false
  else if int64Max + 1 < -lhs + rhs then .error .overflow
  else .ok (lhs - rhs, true)

def sqlMulInt : Result :=
  if lhs = 0 ∨ rhs = 0 then .ok (0, false)
  else if isLhsNeg = isRhsNeg then
    let res := if isLhsNeg then -lhs * -rhs else lhs * rhs
    if isLhsNeg ∧ res / -lhs ≠ -rhs ∨ ¬ isLhsNeg ∧ res / lhs ≠ rhs then .error .overflow
    else .ok (res, false)
  else
    -- the operands are swapped if the left one is negative
    let positive := if isLhsNeg then rhs else lhs
    let negative := if isLhsNeg then lhs else rhs
    let res := -negative * positive
    if res / -negative ≠ positive ∨ int64Max + 1 < res then .error .overflow
    else .ok (positive * negative, true)

def sqlDivInt : Result :=
  if lhs = 0 then .ok (0, false)
  else if isLhsNeg ≠ isRhsNeg then
    let res := if isLhsNeg then -lhs / rhs else lhs / -rhs
    if int64Max + 1 < res then .error .overflow
    else .ok (-res, res ≠ 0)
  else if isLhsNeg ∧ lhs = int64Min ∧ rhs = -1 then .ok (int64Max + 1, false)
  else .ok (if isLhsNeg then lhs.sdiv rhs else lhs / rhs, false)

def sqlRemInt : Result :=
  let divisor := if isRhsNeg then -rhs else rhs
  if isLhsNeg then .ok (-(-lhs % divisor), true)
  else .ok (lhs % divisor, false)

end

def InRange (value : Int) : Prop := -2 ^ 63 ≤ value ∧ value < 2 ^ 64

instance (value : Int) : Decidable (InRange value) := inferInstanceAs (Decidable (_ ∧ _))

/-- A word with its flag stands for an integer; the flag is set exactly for the negative ones. -/
def Denotes (word : Word) (isNeg : Bool) (value : Int) : Prop :=
  if isNeg then word.toInt = value ∧ value < 0 else (word.toNat : Int) = value

instance (word : Word) (isNeg : Bool) (value : Int) : Decidable (Denotes word isNeg value) :=
  inferInstanceAs (Decidable (ite _ _ _))

variable {word : Word} {value : Int}

lemma denotes_true : Denotes word true value ↔
    (word.toNat : Int) = value + 2 ^ 64 ∧ -2 ^ 63 ≤ value ∧ value < 0 := by
  have hl := word.isLt
  rw [Denotes, if_pos rfl, BitVec.toInt_eq_toNat_cond]
  split_ifs <;> omega

lemma denotes_false : Denotes word false value ↔ (word.toNat : Int) = value := by
  rw [Denotes, if_neg (by simp)]

/-- A result is exact: it stands for the value or reports that there is none. -/
def Exact (value : Int) : Result → Prop
  | .ok (word, isNeg) => Denotes word isNeg value
  | .error .overflow => ¬ InRange value
  | .error .assertion => False

/-- A result under a check is exact if the check tells the values that do not fit. -/
lemma exact_check {overflow : Prop} [Decidable overflow] {isNeg : Bool}
    (ho : overflow → ¬ InRange value) (hf : ¬ overflow → Denotes word isNeg value) :
    Exact value (if overflow then .error .overflow else .ok (word, isNeg)) := by
  split_ifs with h
  · exact ho h
  · exact hf h

lemma not_inRange : ¬ InRange value ↔ value < -2 ^ 63 ∨ 2 ^ 64 ≤ value := by
  unfold InRange
  omega

lemma uint64Max_toNat : uint64Max.toNat = 2 ^ 64 - 1 := rfl

lemma int64Min_toNat : int64Min.toNat = 2 ^ 63 := rfl

lemma int64Max_succ_toNat : (int64Max + 1).toNat = 2 ^ 63 := rfl

lemma neg_toNat (h : Denotes word true value) : ((-word).toNat : Int) = -value := by
  have hl := word.isLt
  rw [denotes_true] at h
  rw [BitVec.toNat_neg]
  omega

lemma denotes_neg (h : Denotes word true value) : Denotes (-word) false (-value) :=
  denotes_false.mpr (neg_toNat h)

lemma denotes_zero {isNeg : Bool} (h : Denotes 0 isNeg value) : value = 0 := by
  cases isNeg
  · rw [denotes_false] at h
    exact h.symm
  · obtain ⟨hz, hn⟩ : (0 : Word).toInt = value ∧ value < 0 := h
    rw [BitVec.ofNat_eq_ofNat, BitVec.toInt_zero] at hz
    omega

section

variable {lhs rhs x y : Word} {isLhsNeg isRhsNeg : Bool} {a b : Int}

lemma add_mixed (hlh : Denotes lhs false a) (hr : Denotes rhs true b) :
    Denotes (lhs + rhs) (lhs < -rhs) (a + b) := by
  have hlt := lhs.isLt
  have hrt := rhs.isLt
  have hs := BitVec.toNat_add lhs rhs
  have hn := neg_toNat hr
  rw [denotes_false] at hlh
  rw [denotes_true] at hr
  by_cases hl : lhs < -rhs
  · rw [decide_eq_true hl, denotes_true]
    rw [BitVec.lt_def] at hl
    omega
  · rw [decide_eq_false hl, denotes_false]
    rw [BitVec.lt_def] at hl
    omega

lemma sqlAddInt_exact (hlh : Denotes lhs isLhsNeg a) (hrh : Denotes rhs isRhsNeg b) :
    Exact (a + b) (sqlAddInt lhs isLhsNeg rhs isRhsNeg) := by
  have hlt := lhs.isLt
  have hrt := rhs.isLt
  have hs := BitVec.toNat_add lhs rhs
  unfold sqlAddInt
  cases isLhsNeg <;> cases isRhsNeg <;>
    simp only [Bool.false_eq_true, and_true, and_false, not_false_eq_true, if_true, if_false,
      not_true_eq_false, and_self]
  case false.false =>
    rw [denotes_false] at hlh hrh
    have hc : uint64Max - lhs < rhs ↔ 2 ^ 64 ≤ lhs.toNat + rhs.toNat := by
      rw [BitVec.lt_def, BitVec.toNat_sub, uint64Max_toNat]
      omega
    refine exact_check (fun ho => ?_) fun hf => ?_
    · rw [hc] at ho
      rw [not_inRange]
      omega
    · rw [hc] at hf
      rw [denotes_false]
      omega
  case false.true => exact add_mixed hlh hrh
  case true.false =>
    rw [BitVec.add_comm, Int.add_comm]
    exact add_mixed hrh hlh
  case true.true =>
    have hl : lhs.toInt = a ∧ a < 0 := hlh
    have hr : rhs.toInt = b ∧ b < 0 := hrh
    rw [denotes_true] at hlh hrh
    have ha : lhs.slt 0 = true ∧ rhs.slt 0 = true := by
      simp only [BitVec.slt, BitVec.ofNat_eq_ofNat, BitVec.toInt_zero, decide_eq_true_eq]
      omega
    have hc : lhs.slt (int64Min - rhs) = true ↔ a + b < -2 ^ 63 := by
      have hd := BitVec.toNat_sub int64Min rhs
      rw [int64Min_toNat] at hd
      rw [BitVec.slt, decide_eq_true_eq, hl.1, BitVec.toInt_eq_toNat_cond]
      split_ifs <;> omega
    rw [if_neg (not_not_intro ha)]
    simp only [hc]
    refine exact_check (fun ho => ?_) fun hf => ?_
    · rw [not_inRange]
      exact .inl ho
    · rw [denotes_true]
      omega

/-- A difference is exact unless it is so small that the check wraps around as well. -/
lemma sqlSubInt_exact_iff (hl : Denotes lhs isLhsNeg a) (hr : Denotes rhs isRhsNeg b) :
    Exact (a - b) (sqlSubInt lhs isLhsNeg rhs isRhsNeg) ↔ b - a < 2 ^ 64 := by
  have hlt := lhs.isLt
  have hrt := rhs.isLt
  have hd := BitVec.toNat_sub lhs rhs
  unfold sqlSubInt
  cases isRhsNeg
  case true =>
    simp only [not_true_eq_false, and_false, if_false, if_true]
    have he := sqlAddInt_exact hl (denotes_neg hr)
    rw [Int.sub_eq_add_neg]
    refine ⟨fun _ => ?_, fun _ => he⟩
    rw [denotes_true] at hr
    cases isLhsNeg
    · rw [denotes_false] at hl
      omega
    · rw [denotes_true] at hl
      omega
  case false =>
    rw [denotes_false] at hr
    cases isLhsNeg <;> simp only [Bool.false_eq_true, not_false_eq_true, and_self, if_true,
      if_false,
      not_true_eq_false, false_and]
    case false =>
      rw [denotes_false] at hl
      refine ⟨fun _ => by omega, fun _ => ?_⟩
      by_cases hle : rhs ≤ lhs
      · rw [if_pos hle]
        rw [BitVec.le_def] at hle
        refine denotes_false.mpr ?_
        omega
      · rw [if_neg hle]
        rw [BitVec.le_def] at hle
        have hc : int64Max + 1 < rhs - lhs ↔ 2 ^ 63 < rhs.toNat - lhs.toNat := by
          rw [BitVec.lt_def, BitVec.toNat_sub, int64Max_succ_toNat]
          omega
        refine exact_check (fun ho => ?_) fun hf => ?_
        · rw [hc] at ho
          rw [not_inRange]
          omega
        · rw [hc] at hf
          rw [denotes_true]
          omega
    case true =>
      have hn := neg_toNat hl
      rw [denotes_true] at hl
      have hc : int64Max + 1 < -lhs + rhs ↔ 2 ^ 63 < b - a ∧ b - a < 2 ^ 64 := by
        rw [BitVec.lt_def, int64Max_succ_toNat, BitVec.toNat_add]
        omega
      by_cases ho : int64Max + 1 < -lhs + rhs
      · rw [if_pos ho]
        rw [hc] at ho
        refine ⟨fun _ => ho.2, fun _ => not_inRange.mpr ?_⟩
        omega
      · rw [if_neg ho]
        rw [hc] at ho
        refine Iff.trans denotes_true ?_
        omega

lemma mul_check {x y : Nat} (hx : 0 < x) : x * y % 2 ^ 64 / x = y ↔ x * y < 2 ^ 64 := by
  constructor
  · intro h
    have hl : x * y ≤ x * y % 2 ^ 64 := by
      have hd := Nat.mul_div_le (x * y % 2 ^ 64) x
      rwa [h] at hd
    exact Nat.lt_of_le_of_lt hl (Nat.mod_lt _ (by decide))
  · intro h
    rw [Nat.mod_eq_of_lt h, Nat.mul_div_cancel_left y hx]

lemma word_mul_check (hx : x ≠ 0) : x * y / x = y ↔ x.toNat * y.toNat < 2 ^ 64 := by
  have hp : 0 < x.toNat := by
    rcases Nat.eq_zero_or_pos x.toNat with h | h
    · exact absurd (BitVec.eq_of_toNat_eq h) hx
    · exact h
  rw [← mul_check hp, ← BitVec.toNat_inj, BitVec.toNat_udiv, BitVec.toNat_mul]

lemma mul_unsigned {v w : Int} (hx : Denotes x false v) (hy : Denotes y false w) (hn : x ≠ 0) :
    Exact (v * w) (if x * y / x ≠ y then .error .overflow else .ok (x * y, false)) := by
  rw [denotes_false] at hx hy
  have hp : v * w = ((x.toNat * y.toNat : Nat) : Int) := by
    rw [← hx, ← hy, Int.natCast_mul]
  refine exact_check (fun ho => ?_) fun hf => ?_
  · rw [Ne, word_mul_check hn] at ho
    rw [not_inRange]
    omega
  · rw [not_not, word_mul_check hn] at hf
    rw [denotes_false, hp, BitVec.toNat_mul, Nat.mod_eq_of_lt hf]

lemma mul_mixed {v w : Int} (hx : Denotes x false v) (hy : Denotes y true w) (hne : x ≠ 0)
    (hne' : y ≠ 0) :
    Exact (v * w) (if -y * x / -y ≠ x ∨ int64Max + 1 < -y * x then .error .overflow
      else .ok (x * y, true)) := by
  have hn := neg_toNat hy
  have hp : v * w = -(((-y).toNat * x.toNat : Nat) : Int) := by
    rw [denotes_false] at hx
    rw [Int.natCast_mul, hn, hx]
    ring
  have hpo : 0 < (-y).toNat * x.toNat := by
    refine Nat.mul_pos ?_ ?_
    · rw [denotes_true] at hy
      omega
    · exact Nat.pos_of_ne_zero fun h => hne (BitVec.eq_of_toNat_eq h)
  have hc : (-y * x / -y ≠ x ∨ int64Max + 1 < -y * x) ↔ 2 ^ 63 < (-y).toNat * x.toNat := by
    rw [Ne, word_mul_check (neg_ne_zero.mpr hne'), BitVec.lt_def, int64Max_succ_toNat,
      BitVec.toNat_mul]
    omega
  refine exact_check (fun ho => ?_) fun hf => ?_
  · rw [hc] at ho
    rw [not_inRange]
    omega
  · rw [hc] at hf
    have hw : x * y = -(-y * x) := by
      rw [BitVec.neg_mul, BitVec.neg_neg, BitVec.mul_comm]
    rw [denotes_true, hp, hw, BitVec.toNat_neg, BitVec.toNat_mul]
    omega

lemma sqlMulInt_exact (hl : Denotes lhs isLhsNeg a) (hr : Denotes rhs isRhsNeg b) :
    Exact (a * b) (sqlMulInt lhs isLhsNeg rhs isRhsNeg) := by
  unfold sqlMulInt
  by_cases hz : lhs = 0 ∨ rhs = 0
  · rw [if_pos hz]
    refine denotes_false.mpr ?_
    rcases hz with rfl | rfl
    · rw [denotes_zero hl, Int.zero_mul]
      rfl
    · rw [denotes_zero hr, Int.mul_zero]
      rfl
  · rw [if_neg hz]
    obtain ⟨hln, hrn⟩ := not_or.mp hz
    cases isLhsNeg <;> cases isRhsNeg <;>
      simp only [Bool.false_eq_true, if_true, if_false, false_and, true_and, false_or, or_false,
        not_false_eq_true, not_true_eq_false, Bool.true_eq_false]
    case false.false => exact mul_unsigned hl hr hln
    case true.true =>
      rw [← Int.neg_mul_neg]
      exact mul_unsigned (denotes_neg hl) (denotes_neg hr) (neg_ne_zero.mpr hln)
    case false.true => exact mul_mixed hl hr hln hrn
    case true.false =>
      rw [Int.mul_comm]
      exact mul_mixed hr hl hrn hln

lemma msb_of_denotes {word : Word} {value : Int} (h : Denotes word true value) :
    word.msb = true := by
  obtain ⟨hv, hn⟩ : word.toInt = value ∧ value < 0 := h
  rw [BitVec.msb_eq_toInt]
  exact decide_eq_true (by omega)

lemma div_mixed {v w : Int} (hx : (x.toNat : Int) = v) (hy : (y.toNat : Int) = w) :
    Exact (-v.tdiv w) (if int64Max + 1 < x / y then .error .overflow
      else .ok (-(x / y), decide (x / y ≠ 0))) := by
  have hq : v.tdiv w = ((x / y).toNat : Int) := by
    rw [← hx, ← hy, BitVec.toNat_udiv]
    rfl
  rw [hq]
  refine exact_check (fun ho => ?_) fun hf => ?_
  · rw [BitVec.lt_def, int64Max_succ_toNat] at ho
    rw [not_inRange]
    omega
  · rw [BitVec.lt_def, int64Max_succ_toNat] at hf
    by_cases hz : x / y = 0
    · rw [decide_eq_false (not_not_intro hz), hz]
      rfl
    · rw [decide_eq_true hz, denotes_true, BitVec.toNat_neg]
      have hp : 0 < (x / y).toNat := Nat.pos_of_ne_zero fun h => hz (BitVec.eq_of_toNat_eq h)
      omega

lemma sqlDivInt_exact (hl : Denotes lhs isLhsNeg a) (hr : Denotes rhs isRhsNeg b) :
    Exact (a.tdiv b) (sqlDivInt lhs isLhsNeg rhs isRhsNeg) := by
  unfold sqlDivInt
  by_cases hz : lhs = 0
  · rw [if_pos hz]
    subst hz
    refine denotes_false.mpr ?_
    rw [denotes_zero hl, Int.zero_tdiv]
    rfl
  · rw [if_neg hz]
    cases isLhsNeg <;> cases isRhsNeg <;>
      simp only [Bool.false_eq_true, if_true, if_false, false_and, true_and, ne_eq,
        not_false_eq_true, not_true_eq_false, Bool.true_eq_false]
    case false.false =>
      rw [denotes_false] at hl hr
      refine denotes_false.mpr ?_
      rw [← hl, ← hr, BitVec.toNat_udiv]
      rfl
    case false.true =>
      have he := div_mixed (denotes_false.mp hl) (neg_toNat hr)
      rw [Int.tdiv_neg, Int.neg_neg] at he
      exact he
    case true.false =>
      have he := div_mixed (neg_toNat hl) (denotes_false.mp hr)
      rw [Int.neg_tdiv, Int.neg_neg] at he
      exact he
    case true.true =>
      have hq : a.tdiv b = ((-lhs / -rhs).toNat : Int) := by
        rw [← Int.neg_tdiv_neg, ← neg_toNat hl, ← neg_toNat hr, BitVec.toNat_udiv]
        rfl
      rw [hq]
      split_ifs with hm
      · obtain ⟨rfl, rfl⟩ := hm
        refine denotes_false.mpr ?_
        decide
      · refine denotes_false.mpr ?_
        rw [BitVec.sdiv, msb_of_denotes hl, msb_of_denotes hr]
        rfl

lemma divisor_toNat (hr : Denotes rhs isRhsNeg b) :
    (if isRhsNeg then -rhs else rhs).toNat = b.natAbs := by
  cases isRhsNeg
  · rw [denotes_false] at hr
    rw [if_neg (by simp)]
    omega
  · have hn := neg_toNat hr
    rw [denotes_true] at hr
    rw [if_pos rfl]
    omega

/-- A remainder is exact unless it is zero and the dividend negative. -/
lemma sqlRemInt_exact_iff (hl : Denotes lhs isLhsNeg a) (hr : Denotes rhs isRhsNeg b) :
    Exact (a.tmod b) (sqlRemInt lhs isLhsNeg rhs isRhsNeg) ↔ ¬ (a < 0 ∧ b ∣ a) := by
  have hd := divisor_toNat hr
  have ha := Int.natAbs_tmod a b
  unfold sqlRemInt
  cases isLhsNeg
  case false =>
    rw [denotes_false] at hl
    have hs := Int.tmod_nonneg b (by omega : 0 ≤ a)
    refine ⟨fun _ => by omega, fun _ => denotes_false.mpr ?_⟩
    rw [BitVec.toNat_umod, hd, (by omega : lhs.toNat = a.natAbs)]
    omega
  case true =>
    have hn := neg_toNat hl
    rw [denotes_true] at hl
    have hs := Int.tmod_nonneg b (by omega : 0 ≤ -a)
    rw [Int.neg_tmod] at hs
    have hle := Nat.mod_le a.natAbs b.natAbs
    refine Iff.trans denotes_true ?_
    rw [BitVec.toNat_neg, BitVec.toNat_umod, hd, Int.dvd_iff_tmod_eq_zero,
      (by omega : (-lhs).toNat = a.natAbs)]
    omega

end

end TarantoolStorage.Sql
