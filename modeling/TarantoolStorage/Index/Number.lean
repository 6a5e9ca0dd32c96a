import TarantoolStorage.Index.Decimal
import TarantoolStorage.Lib.MsgPack

/-! Comparison of MsgPack numbers and scalars in index fields (box/tuple_compare.cc). -/
namespace TarantoolStorage.Index

open Compare MsgPack Option Double

/-- An integer under the MsgPack type it is stored with. -/
inductive Integer where
  | uint (n : UInt64)
  | int (n : Int64)
  deriving DecidableEq

inductive Number where
  | integer (i : Integer)
  | float (bits : BitVec 32)
  | double (bits : BitVec 64)
  | decimal (d : Decimal)
  deriving DecidableEq

namespace Integer

def value : Integer → ℤ
  | .uint n => n.toNat
  | .int n => n.toInt

lemma natAbs_value_lt (i : Integer) : i.value.natAbs < 2 ^ 64 := by
  cases i with
  | uint n =>
    have := n.toNat_lt
    simp only [value]
    omega
  | int n =>
    have := n.le_toInt
    have := n.toInt_lt
    simp only [value]
    omega

end Integer

namespace Number

/-- The double a float or a double of the field is decoded to. -/
def floating : Number → Option Double
  | .float bits => some (.ofFloatBits bits)
  | .double bits => some (.ofBits bits)
  | .integer _ | .decimal _ => none

end Number

def Double.quietBit : Double → Nat
  | .nan true => 0x8000000000000
  | _ => 0

def mpCompareIntegerWithType : Integer → Integer → Int
  | .uint a, .uint b => compareResult a.toNat b.toNat
  | .uint a, .int b => if b.toInt < 0 then 1 else compareResult a.toNat b.toUInt64.toNat
  | .int a, .uint b => if a.toInt < 0 then -1 else compareResult a.toUInt64.toNat b.toNat
  | .int a, .int b => compareResult a.toInt b.toInt

def mpCompareDoubleAnyInt (lhs : Double) (rhs : Integer) (k : Int) : Int :=
  match rhs with
  | .int n => doubleCompareInt64 lhs n k
  | .uint n => doubleCompareUint64 lhs n k

/-- The part of `mp_compare_double_any_number` after the right operand is decoded. -/
def compareDoubles (lhs v : Double) (k : Int) : Int :=
  if lhs.isNan.toNat = 0 ∧ v.isNan.toNat = 0 then k * compareResult lhs.value v.value
  else if lhs.isNan ≠ v.isNan then k * (v.isNan.toNat - lhs.isNan.toNat)
  else k * compareResult lhs.quietBit v.quietBit

def mpCompareDoubleAnyNumber (lhs : Double) (rhs : Number) (k : Int) : Int :=
  match rhs with
  | .float bits => compareDoubles lhs (.ofFloatBits bits) k
  | .double bits => compareDoubles lhs (.ofBits bits) k
  | .integer i => mpCompareDoubleAnyInt lhs i k
  | .decimal _ => 0 -- not reached: decimals are tested first

section Comparators

/- What `decimal_compare` makes of a buffer that `decimal_from_double` left uninitialised. -/
variable (stale : Decimal → Double → Int → Int)

/-- The comparison with a decimal made of a double in a buffer. -/
def compareConverted (lhs : Decimal) (d : Double) (k : Int) : Int :=
  match decimalFromDouble d with
  | some rhs => k * decimalCompare (.ofRat lhs.value) rhs
  | none => k * stale lhs d k

def mpCompareDecimalAnyNumber (lhs : Decimal) (rhs : Number) (k : Int) : Int :=
  match rhs with
  | .float bits => compareConverted stale lhs (.ofFloatBits bits) k
  | .double bits => compareConverted stale lhs (.ofBits bits) k
  | .integer i => k * decimalCompare (.ofRat lhs.value)
    (.ofRat (decimalFromInt i.value i.natAbs_value_lt).value)
  | .decimal d => k * decimalCompare (.ofRat lhs.value) (.ofRat d.value)

def mpCompareNumber (lhs rhs : Number) : Int :=
  match rhs, lhs with
  | .decimal d, _ => mpCompareDecimalAnyNumber stale d lhs (-1)
  | _, .decimal d => mpCompareDecimalAnyNumber stale d rhs 1
  | .float bits, _ => mpCompareDoubleAnyNumber (.ofFloatBits bits) lhs (-1)
  | .double bits, _ => mpCompareDoubleAnyNumber (.ofBits bits) lhs (-1)
  | .integer j, .float bits => mpCompareDoubleAnyInt (.ofFloatBits bits) j 1
  | .integer j, .double bits => mpCompareDoubleAnyInt (.ofBits bits) j 1
  | .integer j, .integer i => mpCompareIntegerWithType i j

end Comparators

inductive Scalar where
  | nil
  | bool (b : Bool)
  | number (n : Number)
  | str (s : Bytes)
  | bin (s : Bytes)
  | uuid (u : Bytes)
  deriving DecidableEq

inductive MpClass where
  | nil | bool | number | str | bin | uuid
  deriving DecidableEq

def MpClass.index : MpClass → Nat
  | .nil => 0
  | .bool => 1
  | .number => 2
  | .str => 3
  | .bin => 4
  | .uuid => 5

def Scalar.mpClass : Scalar → MpClass
  | .nil => .nil
  | .bool _ => .bool
  | .number _ => .number
  | .str _ => .str
  | .bin _ => .bin
  | .uuid _ => .uuid

/-- The sign of the first difference within a number of bytes. -/
def memcmp : Nat → Bytes → Bytes → Int
  | n + 1, a :: as, b :: bs =>
    if a = b then memcmp n as bs else compareResult a.toNat b.toNat
  | _, _, _ => 0

def mpCompareBool (a b : Bool) : Int := compareResult a.toNat b.toNat

def mpCompareStr (a b : Bytes) : Int :=
  let r := memcmp (min a.length b.length) a b
  if r ≠ 0 then r else compareResult a.length b.length

def mpCompareBin (a b : Bytes) : Int :=
  let r := memcmp (min a.length b.length) a b
  if r ≠ 0 then r else compareResult a.length b.length

def mpCompareScalar (stale : Decimal → Double → Int → Int) (a b : Scalar) : Int :=
  if a.mpClass ≠ b.mpClass then compareResult a.mpClass.index b.mpClass.index
  else
    match a, b with
    | .bool a, .bool b => mpCompareBool a b
    | .number a, .number b => mpCompareNumber stale a b
    | .str a, .str b => mpCompareStr a b
    | .bin a, .bin b => mpCompareBin a b
    | _, _ => 0 -- the classes without a comparator, which the code asserts not to meet

lemma mpCompareIntegerWithType_eq (a b : Integer) :
    mpCompareIntegerWithType a b = compareResult a.value b.value := by
  have hc (m n : ℕ) : compareResult m n = compareResult (m : ℤ) (n : ℤ) :=
    (compareResult_map (fun _ _ => Int.ofNat_lt) m n).symm
  cases a with
  | uint a =>
    cases b with
    | uint b => exact hc _ _
    | int b =>
      simp only [mpCompareIntegerWithType, Integer.value]
      split
      next h => rw [compareResult_of_gt (by omega)]
      next h => rw [hc, toNat_toUInt64_of_nonneg (not_lt.1 h)]
  | int a =>
    cases b with
    | uint b =>
      simp only [mpCompareIntegerWithType, Integer.value]
      split
      next h => rw [compareResult_of_lt (by omega)]
      next h => rw [hc, toNat_toUInt64_of_nonneg (not_lt.1 h)]
    | int b => rfl

lemma mpCompareDoubleAnyInt_eq (x : Double) (i : Integer) (k : Int) :
    mpCompareDoubleAnyInt x i k = k * compareResult x.rank (.ofValue (.ofRat i.value)) := by
  cases i with
  | uint n => exact (doubleCompareUint64_eq x n k).trans (compareResult_rank_int x _ k)
  | int n => exact (doubleCompareInt64_eq x n k).trans (compareResult_rank_int x _ k)

lemma compareDoubles_eq (x y : Double) (k : Int) :
    compareDoubles x y k = k * compareResult x.rank y.rank := by
  have hn (u : Double) (hu : u.isNan = false) (q : Bool) :
      compareResult (toLex (.inl q) : Place) u.rank = -1 := by
    rw [rank_of_not_nan hu]
    exact compareResult_of_lt (Sum.Lex.inl_lt_inr _ _)
  cases hx : x.isNan <;> cases hy : y.isNan
  · rw [rank_of_not_nan hx, rank_of_not_nan hy, compareResult_ofValue]
    simp [compareDoubles, hx, hy]
  · cases y <;> simp [isNan] at hy
    rw [compareResult_swap, rank, hn x hx]
    simp [compareDoubles, hx]
  · cases x <;> simp [isNan] at hx
    rw [rank, hn y hy]
    simp [compareDoubles, hy]
  · cases x <;> simp [isNan] at hx
    cases y <;> simp [isNan] at hy
    rename_i q r
    cases q <;> cases r <;> simp [compareDoubles, quietBit, rank, compareResult]

def Number.rank : Number → Place
  | .integer i => .ofValue (.ofRat i.value)
  | .float bits => (ofFloatBits bits).rank
  | .double bits => (ofBits bits).rank
  | .decimal d => .ofValue (.ofRat d.value)

/-- Without decimals every pair is compared by exact values. -/
lemma mpCompareNumber_of_no_decimal (stale : Decimal → Double → Int → Int) {a b : Number}
    (ha : ∀ d, a ≠ .decimal d) (hb : ∀ d, b ≠ .decimal d) :
    mpCompareNumber stale a b = compareResult a.rank b.rank := by
  cases a <;> cases b <;>
    simp_all [mpCompareNumber, mpCompareDoubleAnyNumber, mpCompareDoubleAnyInt_eq,
      compareDoubles_eq, Number.rank, mpCompareIntegerWithType_eq, compareResult_ofValue,
      compareResult_ofRat, compareResult_intCast, ← compareResult_swap]

/-- The numbers a field may hold whose floats and doubles are all of a given set. -/
def withFloats (F : Set Number) : Set Number := {a | a.floating.isSome → a ∈ F}

/-- The doubles that the floats of a set are decoded to. -/
def floatsOf (F : Set Number) : Set Double := {x | ∃ a ∈ F, a.floating = some x}

/-- Doubles whose conversions to decimals can stand for them. -/
structure KeepsOrder (X : Set Double) : Prop where
  /-- every one is converted at all -/
  converted : ∀ x ∈ X, ∃ r, decimalFromDouble x = some r
  /-- no decimal lies on the wrong sides of two of them -/
  apart : ∀ x ∈ X, ∀ y ∈ X, x.value < y.value → ∀ r s, decimalFromDouble x = some r →
    decimalFromDouble y = some s → ∀ d : Decimal, ¬(s ≤ .ofRat d.value ∧ .ofRat d.value ≤ r)
  /-- a conversion stays on its side of every integer -/
  integers : ∀ x ∈ X, ∀ r, decimalFromDouble x = some r → ∀ i : Integer,
    compareResult x.value (.ofRat i.value) = compareResult r (.ofRat i.value)

/-- The rational that orders a finite double among decimals and integers. -/
def Double.decimalRank : Double → ℚ
  | .finite m e _ => Index.decimalRank (m * 2 ^ e)
  | _ => 0

/-- The rational that orders a number in a field with decimals. -/
def Number.decimalRank : Number → ℚ
  | .integer i => i.value
  | .decimal d => d.value
  | .float bits => (ofFloatBits bits).decimalRank
  | .double bits => (ofBits bits).decimalRank

section Laws

variable {stale : Decimal → Double → Int → Int} {F : Set Number} {a b : Number} {x y : Double}
  {d : Decimal} {r : Extended}

lemma mpCompareNumber_decimal_float (h : a.floating = some x) :
    mpCompareNumber stale (.decimal d) a = compareConverted stale d x 1 := by
  cases a <;> simp_all [Number.floating, mpCompareNumber, mpCompareDecimalAnyNumber]

lemma mpCompareNumber_float_decimal (h : a.floating = some x) :
    mpCompareNumber stale a (.decimal d) = compareConverted stale d x (-1) := by
  cases a <;> simp_all [Number.floating, mpCompareNumber, mpCompareDecimalAnyNumber]

lemma mpCompareNumber_float_float (ha : a.floating = some x) (hb : b.floating = some y) :
    mpCompareNumber stale a b = compareResult x.rank y.rank := by
  cases a <;> cases b <;> simp_all [Number.floating] <;>
    simp [mpCompareNumber_of_no_decimal, Number.rank, ha, hb]

lemma mpCompareNumber_float_integer (ha : a.floating = some x) (i : Integer) :
    mpCompareNumber stale a (.integer i) = compareResult x.rank (.ofValue (.ofRat i.value)) := by
  cases a <;> simp_all [Number.floating] <;> simp [mpCompareNumber_of_no_decimal, Number.rank, ha]

lemma mpCompareNumber_integer_float (hb : b.floating = some y) (i : Integer) :
    mpCompareNumber stale (.integer i) b = compareResult (.ofValue (.ofRat i.value)) y.rank := by
  cases b <;> simp_all [Number.floating] <;> simp [mpCompareNumber_of_no_decimal, Number.rank, hb]

lemma compareConverted_eq (h : decimalFromDouble x = some r) (k : Int) :
    compareConverted stale d x k = k * compareResult (.ofRat d.value) r := by
  simp [compareConverted, h, decimalCompare]

lemma finite_of_converted (h : decimalFromDouble x = some r) :
    ∃ q : ℚ, x.value = .ofRat q ∧ x.rank = .ofValue (.ofRat q) ∧
      r = decimalFromString (printed q) ∧ x.decimalRank = decimalRank q := by
  cases x with
  | finite m e fits => exact ⟨m * 2 ^ e, rfl, rfl, (some.inj h).symm, rfl⟩
  | infinity negative => simp [decimalFromDouble] at h
  | nan quiet => simp [decimalFromDouble] at h

lemma mem_withFloats (ha : a ∈ F) : a ∈ withFloats F := fun _ => ha

lemma mem_floatsOf (h : a.floating = some x) (ha : a ∈ withFloats F) : x ∈ floatsOf F :=
  ⟨a, ha (by simp [h]), h⟩

/-- Kinds of numbers, as far as the comparison tells them apart. -/
lemma Number.kinds (a : Number) : (∃ i, a = .integer i) ∨ (∃ d, a = .decimal d) ∨
    ∃ x, a.floating = some x ∧ a.decimalRank = x.decimalRank := by
  cases a with
  | integer i => exact .inl ⟨i, rfl⟩
  | decimal d => exact .inr (.inl ⟨d, rfl⟩)
  | float bits => exact .inr (.inr ⟨_, rfl, rfl⟩)
  | double bits => exact .inr (.inr ⟨_, rfl, rfl⟩)

lemma Integer.abs_value_lt (i : Integer) : |(i.value : ℚ)| < 10 ^ decimalMaxDigits := by
  have h := (decimalFromInt i.value i.natAbs_value_lt).abs_value_lt
  rwa [value_decimalFromInt] at h

lemma compareConverted_rank (h : decimalFromDouble x = some r) (k : Int) :
    compareConverted stale d x k = k * compareResult d.value x.decimalRank := by
  obtain ⟨q, _, _, rfl, hk⟩ := finite_of_converted h
  rw [compareConverted_eq h, compareResult_decimalRank q d.abs_value_lt, hk]

lemma KeepsOrder.compare_integer {X : Set Double} (hX : KeepsOrder X) (hx : x ∈ X) (i : Integer) :
    compareResult x.rank (.ofValue (.ofRat i.value)) =
      compareResult x.decimalRank (i.value : ℚ) := by
  obtain ⟨r, hr⟩ := hX.converted x hx
  have hs := hX.integers x hx r hr i
  obtain ⟨q, hv, hra, rfl, hk⟩ := finite_of_converted hr
  rw [hv] at hs
  rw [hra, compareResult_ofValue, hs, compareResult_swap (Extended.ofRat i.value),
    compareResult_decimalRank q i.abs_value_lt, hk, ← compareResult_swap]

lemma KeepsOrder.compare_float {X : Set Double} (hX : KeepsOrder X) (hx : x ∈ X) (hy : y ∈ X) :
    compareResult x.rank y.rank = compareResult x.decimalRank y.decimalRank := by
  obtain ⟨r, hr⟩ := hX.converted x hx
  obtain ⟨s, hs⟩ := hX.converted y hy
  have hxy := hX.apart x hx y hy
  have hyx := hX.apart y hy x hx
  obtain ⟨p, hp, hrn, rfl, hk⟩ := finite_of_converted hr
  obtain ⟨q, hq, hrk, rfl, hkq⟩ := finite_of_converted hs
  rw [hrn, hrk, compareResult_ofValue, compareResult_ofRat, hk, hkq]
  rw [hp, hq] at hxy hyx
  simp only [Extended.ofRat_lt] at hxy hyx
  rcases lt_trichotomy p q with h | rfl | h
  · have hra := decimalRank_lt h fun d => hxy h _ _ hr hs d
    rw [compareResult_of_lt h, compareResult_of_lt hra]
  · simp
  · have hra := decimalRank_lt h fun d => hyx h _ _ hs hr d
    rw [compareResult_of_gt h, compareResult_of_gt hra]

lemma mpCompareNumber_of_keepsOrder (hF : KeepsOrder (floatsOf F)) (ha : a ∈ withFloats F)
    (hb : b ∈ withFloats F) :
    mpCompareNumber stale a b = compareResult a.decimalRank b.decimalRank := by
  have hco {c : Number} {x : Double} (hc : c ∈ withFloats F) (hx : c.floating = some x) :=
    hF.converted x (mem_floatsOf hx hc)
  rcases a.kinds with ⟨i, rfl⟩ | ⟨d, rfl⟩ | ⟨x, hx, hk⟩ <;>
    rcases b.kinds with ⟨j, rfl⟩ | ⟨e, rfl⟩ | ⟨y, hy, hky⟩
  · rw [mpCompareNumber_of_no_decimal stale (by simp) (by simp)]
    simp [Number.rank, Number.decimalRank, compareResult_ofValue, compareResult_ofRat]
  · simp [mpCompareNumber, mpCompareDecimalAnyNumber, decimalCompare, Number.decimalRank,
      compareResult_ofRat, ← compareResult_swap]
  · rw [mpCompareNumber_integer_float hy, hky, compareResult_swap,
      hF.compare_integer (mem_floatsOf hy hb), ← compareResult_swap]
    rfl
  · simp [mpCompareNumber, mpCompareDecimalAnyNumber, decimalCompare, Number.decimalRank,
      compareResult_ofRat]
  · simp [mpCompareNumber, mpCompareDecimalAnyNumber, decimalCompare, Number.decimalRank,
      compareResult_ofRat, ← compareResult_swap]
  · obtain ⟨r, hr⟩ := hco hb hy
    rw [mpCompareNumber_decimal_float hy, compareConverted_rank hr, hky, one_mul]
    rfl
  · rw [mpCompareNumber_float_integer hx, hk, hF.compare_integer (mem_floatsOf hx ha)]
    rfl
  · obtain ⟨r, hr⟩ := hco ha hx
    rw [mpCompareNumber_float_decimal hx, compareConverted_rank hr, hk, neg_one_mul,
      ← compareResult_swap]
    rfl
  · rw [mpCompareNumber_float_float hx hy, hk, hky,
      hF.compare_float (mem_floatsOf hx ha) (mem_floatsOf hy hb)]

/-- A comparator that orders the numbers of a field tells that the conversions keep the order. -/
lemma keepsOrder_of_preorder (h : ∀ stale, PreorderOn (mpCompareNumber stale) (withFloats F)) :
    KeepsOrder (floatsOf F) := by
  have hde (d : Decimal) : Number.decimal d ∈ withFloats F := by simp [withFloats, Number.floating]
  have hint (i : Integer) : Number.integer i ∈ withFloats F := by simp [withFloats, Number.floating]
  refine ⟨?_, ?_, ?_⟩
  · rintro x ⟨a, ha, hx⟩
    by_contra hn
    have hn : decimalFromDouble x = none := eq_none_iff_forall_not_mem.2 fun r hr => hn ⟨r, hr⟩
    -- the buffer may hold one thing in one call and another in the next
    have han := (h fun _ _ k => k).antisymm (.decimal (decimalFromInt 0 (by decide))) (hde _) a
      (mem_withFloats ha)
    rw [mpCompareNumber_decimal_float hx, mpCompareNumber_float_decimal hx] at han
    simp [compareConverted, hn] at han
  · rintro x ⟨a, ha, hx⟩ y ⟨b, hb, hy⟩ hl r s hr hs d ⟨hs', hr'⟩
    have P := h fun _ _ _ => 0
    have had : 0 ≤ mpCompareNumber (fun _ _ _ => 0) a (.decimal d) := by
      rw [mpCompareNumber_float_decimal hx, compareConverted_eq hr, neg_one_mul,
        ← compareResult_swap, compareResult_nonneg]
      exact hr'
    have hdb : 0 ≤ mpCompareNumber (fun _ _ _ => 0) (.decimal d) b := by
      rw [mpCompareNumber_decimal_float hy, compareConverted_eq hs, one_mul, compareResult_nonneg]
      exact hs'
    have hab := P.nonneg_trans (mem_withFloats ha) (hde d) (mem_withFloats hb) had hdb
    obtain ⟨p, hp, hra, -⟩ := finite_of_converted hr
    obtain ⟨q, hq, hrn, -⟩ := finite_of_converted hs
    rw [mpCompareNumber_float_float hx hy, hra, hrn, compareResult_ofValue,
      compareResult_nonneg, ← hp, ← hq] at hab
    exact absurd hl (not_lt.2 hab)
  · rintro x ⟨a, ha, hx⟩ r hr i
    have P := h fun _ _ _ => 0
    let d := decimalFromInt i.value i.natAbs_value_lt
    have hd : d.value = i.value := value_decimalFromInt _
    have he : mpCompareNumber (fun _ _ _ => 0) (.integer i) (.decimal d) = 0 := by
      simp [mpCompareNumber, mpCompareDecimalAnyNumber, decimalCompare, hd]
    have hsi := P.sign_congr (hint i) (hde d) (mem_withFloats ha) he
    obtain ⟨q, hq, hrk, -⟩ := finite_of_converted hr
    rw [mpCompareNumber_float_integer hx, hrk, compareResult_ofValue, ← hq,
      mpCompareNumber_float_decimal hx, compareConverted_eq hr, neg_one_mul,
      ← compareResult_swap, hd] at hsi
    rwa [sign_compareResult, sign_compareResult] at hsi

end Laws

/-- Numbers without decimals are totally preordered whatever they are. With decimals, of any
value, the comparison is a total preorder exactly when the floats and doubles of the field keep
their order under the conversion to decimals. -/
theorem number_preorder_iff (F : Set Number) :
    (∀ stale, PreorderOn (mpCompareNumber stale) {a | ∀ d, a ≠ .decimal d} ∧
      PreorderOn (fun a b => mpCompareScalar stale (.number a) (.number b))
        {a | ∀ d, a ≠ .decimal d}) ∧
    ((∀ stale, PreorderOn (mpCompareNumber stale) (withFloats F) ∧
      PreorderOn (fun a b => mpCompareScalar stale (.number a) (.number b)) (withFloats F)) ↔
        KeepsOrder (floatsOf F)) := by
  have hs stale : (fun a b => mpCompareScalar stale (.number a) (.number b)) =
      mpCompareNumber stale := rfl
  simp only [hs, and_self]
  refine ⟨fun stale => ?_, keepsOrder_of_preorder, fun hF stale => ?_⟩
  · exact .of_rank Number.rank fun a ha b hb => mpCompareNumber_of_no_decimal stale ha hb
  · exact .of_rank Number.decimalRank fun a ha b hb => mpCompareNumber_of_keepsOrder hF ha hb

/-- Doubles that are decimals of fifteen digits keep their order. -/
lemma keepsOrder_of_exact {X : Set Double}
    (h : ∀ x ∈ X, ∃ q, x.value = .ofRat q ∧ decimalFromDouble x = some (.ofRat q)) :
    KeepsOrder X := by
  refine ⟨fun x hx => ?_, fun x hx y hy hl r s hr hs d hd => ?_, fun x hx r hr i => ?_⟩
  · obtain ⟨q, _, hq⟩ := h x hx
    exact ⟨_, hq⟩
  · obtain ⟨p, hp, hr'⟩ := h x hx
    obtain ⟨q, hq, hs'⟩ := h y hy
    obtain rfl := some.inj (hr.symm.trans hr')
    obtain rfl := some.inj (hs.symm.trans hs')
    rw [hp, hq] at hl
    exact absurd hl (not_lt.2 (hd.1.trans hd.2))
  · obtain ⟨q, hq, hr'⟩ := h x hx
    obtain rfl := some.inj (hr.symm.trans hr')
    rw [hq]

/-- A field that holds decimals, and of floats and doubles only such, is totally preordered. -/
theorem exact_numbers_preorder {F : Set Number}
    (hexact : ∀ x ∈ floatsOf F, ∃ q, x.value = .ofRat q ∧ decimalFromDouble x = some (.ofRat q))
    (stale : Decimal → Double → Int → Int) :
    PreorderOn (mpCompareNumber stale) (withFloats F) :=
  .of_rank Number.decimalRank fun _ ha _ hb =>
    mpCompareNumber_of_keepsOrder (keepsOrder_of_exact hexact) ha hb

theorem exact_numbers_preorder_half :
    PreorderOn (mpCompareNumber fun _ _ _ => 0) (withFloats {.double 0x3fe0000000000000#64}) := by
  refine exact_numbers_preorder ?_ _
  rintro x ⟨_, rfl, hx⟩
  obtain rfl := some.inj hx
  exact ⟨1 / 2, by decide +kernel, by decide +kernel⟩

/-- The least double above one and one itself both equal the decimal 1, and differ. -/
theorem equal_decimal_of_unequal_doubles :
    (∀ stale, mpCompareNumber stale (.double 0x3ff0000000000000#64)
      (.decimal (decimalFromInt 1 (by decide))) = 0) ∧
    ∀ stale, mpCompareNumber stale (.double 0x3ff0000000000001#64)
      (.decimal (decimalFromInt 1 (by decide))) = 0 ∧
    mpCompareNumber stale (.double 0x3ff0000000000000#64) (.double 0x3ff0000000000001#64) = -1 := by
  refine forall_and.mp fun stale => ?_
  have ho : ofBits 0x3ff0000000000000#64 = .finite (2 ^ 52) (-52) (by decide) := by
    decide
  have hn : ofBits 0x3ff0000000000001#64 = .finite (2 ^ 52 + 1) (-52) (by decide) := by
    decide
  refine ⟨?_, ?_, ?_⟩
  · rw [mpCompareNumber_float_decimal rfl, ho, compareConverted_eq rfl]
    decide +kernel
  · rw [mpCompareNumber_float_decimal rfl, hn, compareConverted_eq rfl]
    decide +kernel
  · rw [mpCompareNumber_float_float rfl rfl, ho, hn]
    decide +kernel

end TarantoolStorage.Index
