import TarantoolStorage.Index.Hint

/-! The hint law: where hints differ they are ordered as the values they were computed for. -/
namespace TarantoolStorage.Index

open Compare MsgPack Option Scalar Double

/-- The rational a finite double is. -/
def Double.exact : Double → Option ℚ
  | .finite m e _ => some (m * 2 ^ e)
  | .infinity _ | .nan _ => none

/-- The rational a number is, unless it is an infinity or a NaN. -/
def Number.exact : Number → Option ℚ
  | .integer i => some i.value
  | .decimal d => some d.value
  | .float bits => (ofFloatBits bits).exact
  | .double bits => (ofBits bits).exact

/-- Only negative integers are stored under the signed type, as `mp_encode_int` requires. -/
def Number.Canonical : Number → Prop
  | .integer (.int i) => i.toInt < 0
  | _ => True

lemma hintDouble_eq (x : Double) : hintDouble x = match x.exact with
      | some q => hintCreate .number (numberHintValue q)
      | none => hintNone := by
  cases x with
  | finite m e fits => exact hintDouble_finite fits
  | infinity negative => rfl
  | nan quiet => rfl

variable {n : Number} {x : Double}

lemma fieldHintNumber_eq (h : n.Canonical) : fieldHintNumber n = match n.exact with
      | some q => hintCreate .number (numberHintValue q)
      | none => hintNone := by
  cases n with
  | integer i =>
    cases i with
    | uint u => exact hintUint_eq u
    | int i => exact hintInt_eq h
  | float bits => exact hintDouble_eq _
  | double bits => exact hintDouble_eq _
  | decimal d => exact hintDecimal_eq d

lemma Double.rank_of_exact {q : ℚ} (h : x.exact = some q) : x.rank = .ofValue (.ofRat q) := by
  cases x <;> simp_all [exact, rank, value]

/-- Numbers that are not a float and a decimal are compared exactly. -/
lemma mpCompareNumber_exact {stale : Decimal → Double → Int → Int} {m : Number} {p q : ℚ}
    (hn : n.exact = some p) (hm : m.exact = some q)
    (hnm : ∀ d x, ¬(n = .decimal d ∧ m.floating = some x))
    (hmn : ∀ d x, ¬(m = .decimal d ∧ n.floating = some x)) :
    mpCompareNumber stale n m = compareResult p q := by
  have hf {a : Number} {x : Double} {r : ℚ} (hx : a.floating = some x) (ha : a.exact = some r) :
      x.rank = .ofValue (.ofRat r) := by
    apply rank_of_exact
    cases a <;> simp_all [Number.floating, Number.exact]
  rcases n.kinds with ⟨i, rfl⟩ | ⟨d, rfl⟩ | ⟨x, hx, -⟩ <;>
    rcases m.kinds with ⟨j, rfl⟩ | ⟨e, rfl⟩ | ⟨y, hy, -⟩
  · obtain rfl := some.inj hn
    obtain rfl := some.inj hm
    simp [mpCompareNumber, mpCompareIntegerWithType_eq, compareResult_intCast]
  · obtain rfl := some.inj hn
    obtain rfl := some.inj hm
    simp [mpCompareNumber, mpCompareDecimalAnyNumber, decimalCompare, compareResult_ofRat,
      ← compareResult_swap]
  · obtain rfl := some.inj hn
    rw [mpCompareNumber_integer_float hy, hf hy hm, compareResult_ofValue, compareResult_ofRat]
  · obtain rfl := some.inj hn
    obtain rfl := some.inj hm
    simp [mpCompareNumber, mpCompareDecimalAnyNumber, decimalCompare, compareResult_ofRat]
  · obtain rfl := some.inj hn
    obtain rfl := some.inj hm
    simp [mpCompareNumber, mpCompareDecimalAnyNumber, decimalCompare, compareResult_ofRat,
      ← compareResult_swap]
  · exact absurd ⟨rfl, hy⟩ (hnm d y)
  · obtain rfl := some.inj hm
    rw [mpCompareNumber_float_integer hx, hf hx hn, compareResult_ofValue, compareResult_ofRat]
  · exact absurd ⟨rfl, hx⟩ (hmn e x)
  · rw [mpCompareNumber_float_float hx hy, hf hx hn, hf hy hm, compareResult_ofValue,
      compareResult_ofRat]

/-- A finite double and a decimal whose integral parts are in one order, and whose comparison by
conversion is not in that one. -/
def CrossedPair (x : Double) (d : Decimal) : Prop :=
  ∃ q r, x.exact = some q ∧ decimalFromDouble x = some r ∧
    (clampTruncate q < clampTruncate d.value ∧ .ofRat d.value ≤ r ∨
      clampTruncate d.value < clampTruncate q ∧ r ≤ .ofRat d.value)

/-- A float or double and a decimal, in either order, that are crossed. -/
def Crossed (a b : Scalar) : Prop :=
  ∃ n x d, n.floating = some x ∧ CrossedPair x d ∧
    (a = .number n ∧ b = .number (.decimal d) ∨ a = .number (.decimal d) ∧ b = .number n)

lemma not_crossed_of_number {m : Number} (hnm : ∀ d x, ¬(n = .decimal d ∧ m.floating = some x))
    (hmn : ∀ d x, ¬(m = .decimal d ∧ n.floating = some x)) : ¬Crossed (.number n) (.number m) := by
  rintro ⟨k, x, d, hx, -, ⟨hn, hm⟩ | ⟨hn, hm⟩⟩
  · obtain rfl := number.inj hn
    exact hmn d x ⟨number.inj hm, hx⟩
  · obtain rfl := number.inj hm
    exact hnm d x ⟨number.inj hn, hx⟩

lemma crossed_float_decimal {d : Decimal} (hx : n.floating = some x) :
    Crossed (.number n) (.number (.decimal d)) ↔ CrossedPair x d := by
  constructor
  · rintro ⟨k, y, e, hy, hc, ⟨hn, hm⟩ | ⟨hn, hm⟩⟩
    · obtain rfl := number.inj hn
      obtain rfl := Number.decimal.inj (number.inj hm)
      obtain rfl := some.inj (hx.symm.trans hy)
      exact hc
    · rw [number.inj hn] at hx
      cases hx
  · exact fun h => ⟨n, x, d, hx, h, .inl ⟨rfl, rfl⟩⟩

lemma crossed_comm {a b : Scalar} : Crossed a b ↔ Crossed b a := by
  constructor
  all_goals
    rintro ⟨n, x, d, hx, hc, h | h⟩
    · exact ⟨n, x, d, hx, hc, .inr h.symm⟩
    · exact ⟨n, x, d, hx, hc, .inl h.symm⟩

lemma Number.floating_canonical (hx : n.floating = some x) : n.Canonical ∧ n.exact = x.exact := by
  cases n <;> simp_all [Number.floating, Number.Canonical, Number.exact]

lemma decimalFromDouble_of_exact {q : ℚ} (h : x.exact = some q) :
    ∃ r, decimalFromDouble x = some r := by
  cases x <;> simp_all [exact, decimalFromDouble]

lemma hintCmp_numbers (p q : ℚ) :
    hintCmp (hintCreate .number (numberHintValue p)) (hintCreate .number (numberHintValue q)) =
      compareResult (clampTruncate p) (clampTruncate q) := by
  rw [hintCmp_create (numberHintValue_lt p) (numberHintValue_lt q), if_pos rfl,
    compareResult_numberHintValue]

section Numbers

variable {stale : Decimal → Double → Int → Int} {n m : Number} {x : Double} {d : Decimal}

lemma float_decimal_law (hx : n.floating = some x) :
    ((hintCmp (fieldHintNumber n) (hintDecimal d) ≠ 0 →
      hintCmp (fieldHintNumber n) (hintDecimal d) = (mpCompareNumber stale n (.decimal d)).sign) ↔
        ¬CrossedPair x d) ∧
    ((hintCmp (hintDecimal d) (fieldHintNumber n) ≠ 0 →
      hintCmp (hintDecimal d) (fieldHintNumber n) = (mpCompareNumber stale (.decimal d) n).sign) ↔
        ¬CrossedPair x d) := by
  obtain ⟨hc, he⟩ := Number.floating_canonical hx
  rw [fieldHintNumber_eq hc, he, hintDecimal_eq]
  cases hq : x.exact with
  | none => simp [CrossedPair, hq]
  | some q =>
    obtain ⟨r, hr⟩ := decimalFromDouble_of_exact hq
    simp only [hintCmp_numbers, mpCompareNumber_float_decimal hx, mpCompareNumber_decimal_float hx,
      compareConverted_eq hr, neg_one_mul, one_mul, ← compareResult_swap, sign_compareResult,
      compareResult_decides_iff]
    simp [CrossedPair, hq, hr, or_comm]

/-- The hints of two numbers are ordered as the numbers unless the two are crossed. -/
lemma number_law (hn : n.Canonical) (hm : m.Canonical) :
    (hintCmp (fieldHintNumber n) (fieldHintNumber m) ≠ 0 →
      hintCmp (fieldHintNumber n) (fieldHintNumber m) = (mpCompareNumber stale n m).sign) ↔
        ¬Crossed (.number n) (.number m) := by
  by_cases hmn : ∃ d x, m = .decimal d ∧ n.floating = some x
  · obtain ⟨d, x, rfl, hx⟩ := hmn
    rw [crossed_float_decimal hx]
    exact (float_decimal_law hx).1
  by_cases hnm : ∃ d x, n = .decimal d ∧ m.floating = some x
  · obtain ⟨d, x, rfl, hx⟩ := hnm
    rw [crossed_comm, crossed_float_decimal hx]
    exact (float_decimal_law hx).2
  push Not at hmn hnm
  have hmn' : ∀ d x, ¬(m = .decimal d ∧ n.floating = some x) := fun d x h => hmn d x h.1 h.2
  have hnm' : ∀ d x, ¬(n = .decimal d ∧ m.floating = some x) := fun d x h => hnm d x h.1 h.2
  refine iff_of_true ?_ (not_crossed_of_number hnm' hmn')
  rw [fieldHintNumber_eq hn, fieldHintNumber_eq hm]
  cases hp : n.exact with
  | none => simp
  | some p =>
    cases hq : m.exact with
    | none => simp
    | some q =>
      rw [hintCmp_numbers, mpCompareNumber_exact hp hq hnm' hmn', sign_compareResult,
        compareResult_decides_iff]
      rintro (⟨hl, hle⟩ | ⟨hl, hle⟩)
      · exact absurd (lt_of_clampTruncate_lt hl) (not_lt.2 hle)
      · exact absurd (lt_of_clampTruncate_lt hl) (not_lt.2 hle)

end Numbers

/-- The hints of a collation agree with its comparison. -/
def Coll.HintConsistent (coll : Coll) : Prop :=
  ∀ s t, mpCompareStr (coll.hint s hintValueBytes) (coll.hint t hintValueBytes) ≠ 0 →
    mpCompareStr (coll.hint s hintValueBytes) (coll.hint t hintValueBytes) = (coll.cmp s t).sign

def Scalar.Canonical : Scalar → Prop
  | .number n => n.Canonical
  | _ => True

lemma hintStrRaw_lt (s : Bytes) : hintStrRaw s < 2 ^ hintValueBits := by
  rw [hintStrRaw_eq]
  exact (prefixNumber_lt _ _).trans_le (by decide)

/-- Leading bytes decide the order of strings where they differ. -/
lemma prefixNumber_decides (n : Nat) (s t : Bytes)
    (h : compareResult (prefixNumber n s) (prefixNumber n t) ≠ 0) :
    compareResult (prefixNumber n s) (prefixNumber n t) = mpCompareStr s t := by
  rcases lt_trichotomy (prefixNumber n s) (prefixNumber n t) with hl | he | hg
  · rw [compareResult_of_lt hl, mpCompareStr_of_prefixNumber_lt hl]
  · simp [he] at h
  · rw [compareResult_of_gt hg, mpCompareStr_swap, mpCompareStr_of_prefixNumber_lt hg, neg_neg]

/-- The hint of a value, which does not depend on the type of a field that admits it. -/
def classHint (coll : Option Coll) : Scalar → Nat
  | .nil => hintNil
  | .bool b => hintBool b
  | .number n => fieldHintNumber n
  | .str s => fieldHintString s coll
  | .bin s => hintBin s
  | .uuid u => hintUuidRaw u

section Law

variable {stale : Decimal → Double → Int → Int} {type : FieldType} {isNullable : Bool}
  {coll : Option Coll} {a b : Scalar} {u : Bytes} {n m : Number}

lemma fieldHint_eq (h : fieldMpTypeIsCompatible type a isNullable) :
    fieldHint type isNullable coll a = classHint coll a := by
  cases type <;> cases a <;> simp_all [fieldMpTypeIsCompatible, fieldHint, classHint]

lemma take_uuid (h : u.length = 16) :
    (u.take 8).foldl (fun val b => val * 256 + b.toNat) 0 = prefixNumber 8 u := by
  have hf := foldl_bytes 8 u 0
  simpa [h] using hf

/-- A hint holds the class of its value, unless there is no hint. -/
lemma classHint_create (coll : Option Coll) (h : fieldMpTypeIsCompatible type a isNullable)
    (hc : a.Canonical) :
    classHint coll a = hintNone ∨
      ∃ val < 2 ^ hintValueBits, classHint coll a = hintCreate a.mpClass val := by
  cases a with
  | nil => exact .inr ⟨0, by decide, rfl⟩
  | bool b => exact .inr ⟨_, by cases b <;> decide, rfl⟩
  | number n =>
    simp only [classHint, fieldHintNumber_eq hc]
    cases n.exact with
    | none => exact .inl rfl
    | some q => exact .inr ⟨_, numberHintValue_lt q, rfl⟩
  | str s =>
    cases coll with
    | none => exact .inr ⟨_, hintStrRaw_lt s, rfl⟩
    | some coll => exact .inr ⟨_, hintStrRaw_lt _, rfl⟩
  | bin s => exact .inr ⟨_, hintStrRaw_lt s, rfl⟩
  | uuid u =>
    refine .inr ⟨_, ?_, rfl⟩
    rw [take_uuid (uuid_length h)]
    have := prefixNumber_lt 8 u
    simp only [hintValueBits]
    omega

lemma compareValues_of_class_ne (ha : fieldMpTypeIsCompatible type a isNullable)
    (hb : fieldMpTypeIsCompatible type b isNullable) (h : a.mpClass ≠ b.mpClass) :
    compareValues stale type isNullable coll a b =
      compareResult a.mpClass.index b.mpClass.index := by
  cases type <;> cases a <;> cases b <;>
    simp_all [fieldMpTypeIsCompatible, compareValues, mpClass, MpClass.index,
      compareResult, tupleCompareField, mpCompareScalar, mpCompareScalarColl] <;>
    cases coll <;> simp

lemma not_crossed_of_class (h : a.mpClass ≠ .number) : ¬Crossed a b := by
  rintro ⟨n, x, d, -, -, ⟨rfl, -⟩ | ⟨rfl, -⟩⟩ <;> exact h rfl

lemma Double.exact_of_not_nan {x : Double} (h : x.exact.isSome) : x.isNan = false := by
  cases x <;> simp_all [exact, isNan]

lemma tupleCompareField_of_ne_double (hd : type ≠ .double)
    (hn : fieldMpTypeIsCompatible type (.number n) isNullable)
    (hm : fieldMpTypeIsCompatible type (.number m) isNullable) :
    tupleCompareField stale type coll (.number n) (.number m) = mpCompareNumber stale n m := by
  cases type with
  | double => exact absurd rfl hd
  | unsigned =>
    rcases n with (_ | _) | _ | _ | _ <;> simp [fieldMpTypeIsCompatible] at hn
    rcases m with (_ | _) | _ | _ | _ <;> simp [fieldMpTypeIsCompatible] at hm
    rfl
  | integer =>
    rcases n with _ | _ | _ | _ <;> simp [fieldMpTypeIsCompatible] at hn
    rcases m with _ | _ | _ | _ <;> simp [fieldMpTypeIsCompatible] at hm
    rfl
  | number => rfl
  | scalar => cases coll <;> rfl
  | decimal =>
    rcases n with _ | _ | _ | _ <;> simp [fieldMpTypeIsCompatible] at hn
    rcases m with _ | _ | _ | _ <;> simp [fieldMpTypeIsCompatible] at hm
    simp [tupleCompareField, mpCompareNumber, mpCompareDecimalAnyNumber, decimalCompare,
      ← compareResult_swap]
  | _ => simp [fieldMpTypeIsCompatible] at hn

lemma tupleCompareField_number {p q : ℚ} (hn : fieldMpTypeIsCompatible type (.number n) isNullable)
    (hm : fieldMpTypeIsCompatible type (.number m) isNullable) (hp : n.exact = some p)
    (hq : m.exact = some q) :
    tupleCompareField stale type coll (.number n) (.number m) = mpCompareNumber stale n m := by
  by_cases hd : type = .double
  swap
  · exact tupleCompareField_of_ne_double hd hn hm
  subst hd
  rcases n with _ | _ | x | _ <;> simp [fieldMpTypeIsCompatible] at hn
  rcases m with _ | _ | y | _ <;> simp [fieldMpTypeIsCompatible] at hm
  simp only [Number.exact] at hp hq
  have hx : (ofBits x).isNan = false := exact_of_not_nan (by simp [hp])
  have hy : (ofBits y).isNan = false := exact_of_not_nan (by simp [hq])
  rw [mpCompareNumber_float_float rfl rfl, rank_of_not_nan hx, rank_of_not_nan hy,
    compareResult_ofValue]
  simp [tupleCompareField, mpCompareDouble, hx, hy]

lemma compareValues_of_ne_nil (ha : a ≠ .nil) (hb : b ≠ .nil) :
    compareValues stale type isNullable coll a b = tupleCompareField stale type coll a b := by
  simp [compareValues, ha, hb]

lemma tupleCompareField_str {s t : Bytes} (hs : fieldMpTypeIsCompatible type (.str s) isNullable) :
    tupleCompareField stale type coll (.str s) (.str t) = match coll with
      | none => mpCompareStr s t
      | some coll => coll.cmp s t := by
  cases type <;> simp [fieldMpTypeIsCompatible] at hs <;> cases coll <;> rfl

lemma tupleCompareField_bin {s t : Bytes} (hs : fieldMpTypeIsCompatible type (.bin s) isNullable) :
    tupleCompareField stale type coll (.bin s) (.bin t) = mpCompareStr s t := by
  cases type <;> simp [fieldMpTypeIsCompatible] at hs <;> cases coll <;> rfl

lemma tupleCompareField_bool {x y : Bool} (hs : fieldMpTypeIsCompatible type (.bool x) isNullable) :
    tupleCompareField stale type coll (.bool x) (.bool y) = mpCompareBool x y := by
  cases type <;> simp [fieldMpTypeIsCompatible] at hs <;> cases coll <;> rfl

lemma tupleCompareField_uuid {v : Bytes} (hs : fieldMpTypeIsCompatible type (.uuid u)
    isNullable) : tupleCompareField stale type coll (.uuid u) (.uuid v) = mpCompareUuid u v := by
  cases type <;> simp [fieldMpTypeIsCompatible] at hs
  rfl

lemma sign_mpCompareStr (s t : Bytes) : (mpCompareStr s t).sign = mpCompareStr s t := by
  induction s generalizing t with
  | nil => cases t <;> simp [mpCompareStr, memcmp]
  | cons a s ih =>
    cases t with
    | nil => simp
    | cons b t =>
      rw [mpCompareStr_cons]
      split
      · exact ih t
      · exact sign_compareResult _ _

lemma value_law_of_eq {c : MpClass} {v w : Nat} (hv : v < 2 ^ hintValueBits)
    (hw : w < 2 ^ hintValueBits) {r : Int}
    (h : compareResult v w ≠ 0 → compareResult v w = r.sign) :
    hintCmp (hintCreate c v) (hintCreate c w) ≠ 0 →
      hintCmp (hintCreate c v) (hintCreate c w) = r.sign := by
  rw [hintCmp_create hv hw, if_pos rfl]
  exact h

lemma number_value_law (hn : fieldMpTypeIsCompatible type (.number n) isNullable)
    (hm : fieldMpTypeIsCompatible type (.number m) isNullable) (hc : n.Canonical)
    (hcm : m.Canonical) :
    (∀ stale, hintCmp (fieldHintNumber n) (fieldHintNumber m) ≠ 0 →
      hintCmp (fieldHintNumber n) (fieldHintNumber m) =
        (compareValues stale type isNullable coll (.number n) (.number m)).sign) ↔
        ¬Crossed (.number n) (.number m) := by
  by_cases hb : ∃ p q, n.exact = some p ∧ m.exact = some q
  · obtain ⟨p, q, hp, hq⟩ := hb
    have he stale : compareValues stale type isNullable coll (.number n) (.number m) =
        mpCompareNumber stale n m := by
      rw [compareValues_of_ne_nil (by simp) (by simp), tupleCompareField_number hn hm hp hq]
    simp only [he]
    constructor
    · exact fun h => (number_law hc hcm).1 (h fun _ _ _ => 0)
    · exact fun h stale => (number_law hc hcm).2 h
  · -- a number without a hint is compared in full
    have hz : hintCmp (fieldHintNumber n) (fieldHintNumber m) = 0 := by
      rw [fieldHintNumber_eq hc, fieldHintNumber_eq hcm]
      cases hp : n.exact with
      | none => simp
      | some p =>
        cases hq : m.exact with
        | none => simp
        | some q => exact absurd ⟨p, q, hp, hq⟩ hb
    refine iff_of_true (fun _ h => absurd hz h) ?_
    exact (@number_law (fun _ _ _ => 0) n m hc hcm).1 fun h => absurd hz h

lemma bytes_law {c : MpClass} (s t : Bytes) :
    hintCmp (hintCreate c (hintStrRaw s)) (hintCreate c (hintStrRaw t)) ≠ 0 →
      hintCmp (hintCreate c (hintStrRaw s)) (hintCreate c (hintStrRaw t)) =
        (mpCompareStr s t).sign := by
  refine value_law_of_eq (hintStrRaw_lt s) (hintStrRaw_lt t) fun h => ?_
  rw [hintStrRaw_eq, hintStrRaw_eq] at h ⊢
  rw [sign_mpCompareStr, prefixNumber_decides _ s t h]

lemma coll_law {c : Coll} (hc : c.HintConsistent) (s t : Bytes)
    (h : hintCmp (hintStrColl s c) (hintStrColl t c) ≠ 0) :
    hintCmp (hintStrColl s c) (hintStrColl t c) = (c.cmp s t).sign := by
  have hr := bytes_law (c := .str) _ _ h
  rw [sign_mpCompareStr] at hr
  rw [hintStrColl, hintStrColl, hr] at h
  exact hr.trans (hc s t h)

lemma uuid_law {v : Bytes} (hu : u.length = 16) (hv : v.length = 16) :
    hintCmp (hintUuidRaw u) (hintUuidRaw v) ≠ 0 →
      hintCmp (hintUuidRaw u) (hintUuidRaw v) = (mpCompareUuid u v).sign := by
  have hlu := prefixNumber_lt 8 u
  have hlv := prefixNumber_lt 8 v
  rw [mpCompareUuid, memcmp_eq_mpCompareStr hu hv, hintUuidRaw, hintUuidRaw, take_uuid hu,
    take_uuid hv]
  refine value_law_of_eq (by simp [hintValueBits]; omega)
    (by simp [hintValueBits]; omega) fun h => ?_
  rw [sign_mpCompareStr]
  rcases lt_trichotomy (prefixNumber 8 u / 2 ^ 4) (prefixNumber 8 v / 2 ^ 4) with hl | he | hg
  · rw [compareResult_of_lt hl, mpCompareStr_of_prefixNumber_lt (n := 8) (by omega)]
  · rw [he, compareResult_self] at h
    exact absurd rfl h
  · rw [compareResult_of_gt hg, mpCompareStr_swap,
      mpCompareStr_of_prefixNumber_lt (n := 8) (by omega), neg_neg]

lemma same_class_law (hco : ∀ c, coll = some c → c.HintConsistent)
    (ha : fieldMpTypeIsCompatible type a isNullable)
    (hb : fieldMpTypeIsCompatible type b isNullable)
    (hc : a.mpClass = b.mpClass) (hn : a.mpClass ≠ .number)
    (h : hintCmp (classHint coll a) (classHint coll b) ≠ 0) :
    hintCmp (classHint coll a) (classHint coll b) =
      (compareValues stale type isNullable coll a b).sign := by
  cases a with
  | nil =>
    cases b <;> simp [mpClass] at hc
    simp [hintCmp] at h
  | bool x =>
    cases b <;> simp [mpClass] at hc
    rename_i y
    rw [compareValues_of_ne_nil (by simp) (by simp), tupleCompareField_bool ha]
    cases x <;> cases y <;> rfl
  | number n => exact absurd rfl hn
  | str s =>
    cases b <;> simp [mpClass] at hc
    rw [compareValues_of_ne_nil (by simp) (by simp), tupleCompareField_str ha]
    cases coll with
    | none => exact bytes_law _ _ h
    | some c => exact coll_law (hco c rfl) _ _ h
  | bin s =>
    cases b <;> simp [mpClass] at hc
    rw [compareValues_of_ne_nil (by simp) (by simp), tupleCompareField_bin ha]
    exact bytes_law _ _ h
  | uuid u =>
    cases b <;> simp [mpClass] at hc
    rw [compareValues_of_ne_nil (by simp) (by simp), tupleCompareField_uuid ha]
    exact uuid_law (uuid_length ha) (uuid_length hb) h

lemma value_law (hco : ∀ c, coll = some c → c.HintConsistent)
    (ha : fieldMpTypeIsCompatible type a isNullable)
    (hb : fieldMpTypeIsCompatible type b isNullable)
    (hca : a.Canonical) (hcb : b.Canonical) :
    (∀ stale, hintCmp (classHint coll a) (classHint coll b) ≠ 0 →
      hintCmp (classHint coll a) (classHint coll b) =
        (compareValues stale type isNullable coll a b).sign) ↔ ¬Crossed a b := by
  by_cases hc : a.mpClass = b.mpClass
  · by_cases hn : a.mpClass = .number
    · cases a <;> simp [mpClass] at hn
      cases b <;> simp [mpClass] at hc
      exact number_value_law ha hb hca hcb
    · exact iff_of_true (fun _ h => same_class_law hco ha hb hc hn h) (not_crossed_of_class hn)
  · have hcr : ¬Crossed a b := by
      rintro ⟨n, x, d, -, -, ⟨rfl, rfl⟩ | ⟨rfl, rfl⟩⟩ <;> exact hc rfl
    refine iff_of_true (fun stale h => ?_) hcr
    rcases classHint_create coll ha hca with hva | ⟨v, hv, hva⟩
    · simp [hva] at h
    rcases classHint_create coll hb hcb with hwb | ⟨w, hw, hwb⟩
    · simp [hwb] at h
    rw [hva, hwb, hintCmp_create hv hw, if_neg hc, compareValues_of_class_ne ha hb hc,
      sign_compareResult]

end Law

/-- What a hint is computed for: a tuple, whose indexed field may be absent, or a key. -/
inductive Hinted where
  | tuple (field : Option Scalar)
  | key (parts : List Scalar)

namespace Hinted

def hint (type : FieldType) (isNullable : Bool) (coll : Option Coll) : Hinted → Nat
  | .tuple field => tupleHint type isNullable coll field
  | .key parts => keyHint type isNullable coll parts

/-- The value that is compared; an absent field and the parts a key leaves out count as nil. -/
def value : Hinted → Scalar
  | .tuple field => field.getD .nil
  | .key parts => parts.headD .nil

/-- The value is one of the field, in its shortest encoding: only then are the bytes that the code
compares in the order of the values. A key may have no parts; it has no hint then. -/
def Valid (type : FieldType) (isNullable : Bool) : Hinted → Prop
  | .tuple field => fieldMpTypeIsCompatible type (field.getD .nil) isNullable ∧
    (field.getD .nil).Canonical
  | .key parts => ∀ v ∈ parts.head?, fieldMpTypeIsCompatible type v isNullable ∧ v.Canonical

/-- A hint is that of the value, unless a key has no parts. -/
lemma hint_cases {type : FieldType} {isNullable : Bool} (coll : Option Coll) {a : Hinted}
    (ha : a.Valid type isNullable) :
    a.value = .nil ∧ a.hint type isNullable coll = hintNone ∨
      fieldMpTypeIsCompatible type a.value isNullable ∧ a.value.Canonical ∧
        a.hint type isNullable coll = classHint coll a.value := by
  cases a with
  | tuple field =>
    refine .inr ⟨ha.1, ha.2, ?_⟩
    rw [value, ← fieldHint_eq ha.1]
    cases field with
    | none => cases type <;> rfl
    | some v => rfl
  | key parts =>
    cases parts with
    | nil => exact .inl ⟨rfl, rfl⟩
    | cons v rest =>
      obtain ⟨hv, hc⟩ := ha v rfl
      exact .inr ⟨hv, hc, fieldHint_eq hv⟩

end Hinted

end TarantoolStorage.Index
