import TarantoolStorage.Index.HintLaw
import TarantoolStorage.Lib.Items

/-! The shortest MsgPack encodings of index values, as msgpuck writes them. -/
namespace TarantoolStorage.Index

open Compare MsgPack

def mpEncodeInt (n : Int) : Bytes :=
  if -0x20 ≤ n then storeBe 1 (2 ^ 8 + n).toNat
  else if -2 ^ 7 ≤ n then 0xd0 :: storeBe 1 (2 ^ 8 + n).toNat
  else if -2 ^ 15 ≤ n then 0xd1 :: storeBe 2 (2 ^ 16 + n).toNat
  else if -2 ^ 31 ≤ n then 0xd2 :: storeBe 4 (2 ^ 32 + n).toNat
  else 0xd3 :: storeBe 8 (2 ^ 64 + n).toNat

def mpEncodeFloat (bits : Nat) : Bytes := 0xca :: storeBe 4 bits

def mpEncodeBinl (len : Nat) : Bytes :=
  if len ≤ 0xff then 0xc4 :: storeBe 1 len
  else if len ≤ 0xffff then 0xc5 :: storeBe 2 len
  else 0xc6 :: storeBe 4 len

def mpEncodeExtl (type : UInt8) (len : Nat) : Bytes :=
  if len = 1 then [0xd4, type]
  else if len = 2 then [0xd5, type]
  else if len = 4 then [0xd6, type]
  else if len = 8 then [0xd7, type]
  else if len = 16 then [0xd8, type]
  else if len ≤ 0xff then 0xc7 :: storeBe 1 len ++ [type]
  else if len ≤ 0xffff then 0xc8 :: storeBe 2 len ++ [type]
  else 0xc9 :: storeBe 4 len ++ [type]

/-- Decimal digits read as hexadecimal ones. -/
def packedDigits (n : Nat) : Nat := Nat.ofDigits 16 (Nat.digits 10 n)

/-- `decPackedFromNumber`: two digits a byte and the sign in the last half. -/
def decimalPackDigits (d : Decimal) : Bytes :=
  let digits := max (Nat.digits 10 d.coefficient).length 1
  storeBe (digits / 2 + 1) (packedDigits d.coefficient * 16 + if d.negative then 0xd else 0xc)

def decimalPack (d : Decimal) : Bytes :=
  (if 0 < d.exponent then mpEncodeInt (-d.exponent) else mpEncodeUint (-d.exponent).toNat) ++
    decimalPackDigits d

def mpEncodeDecimal (d : Decimal) : Bytes :=
  mpEncodeExtl 1 (decimalPack d).length ++ decimalPack d

/-- An integer under the type of its sign. -/
def encodeInteger (n : Int) : Bytes := if 0 ≤ n then mpEncodeUint n.toNat else mpEncodeInt n

def Number.encode : Number → Bytes
  | .integer (.uint n) => mpEncodeUint n.toNat
  | .integer (.int n) => mpEncodeInt n.toInt
  | .float bits => mpEncodeFloat bits.toNat
  | .double bits => mpEncodeDouble bits.toNat
  | .decimal d => mpEncodeDecimal d

def Scalar.encode : Scalar → Bytes
  | .nil => [0xc0]
  | .bool b => [if b then 0xc3 else 0xc2]
  | .number n => n.encode
  | .str s => mpEncodeStrl s.length ++ s
  | .bin s => mpEncodeBinl s.length ++ s
  | .uuid u => mpEncodeExtl 2 u.length ++ u

variable {m n : Nat} {d e : Decimal}

lemma storeBe_inj {k : Nat} (hm : m < 256 ^ k) (hn : n < 256 ^ k) (h : storeBe k m = storeBe k
    n) : m = n := by
  have hl := loadBe_storeBe_of_lt hm []
  rw [h, loadBe_storeBe_of_lt hn] at hl
  exact (Prod.mk.inj (Option.some.inj hl)).1.symm

lemma mpEncodeUint_inj (hm : m < 2 ^ 64) (hn : n < 2 ^ 64) (h : mpEncodeUint m = mpEncodeUint n) :
    m = n := by
  have hl := mpDecodeUint_encode hm []
  rw [h, mpDecodeUint_encode hn] at hl
  exact (Prod.mk.inj (Option.some.inj hl)).1.symm

lemma mpEncodeInt_inj {m n : Int} (hm : m < 0) (hm' : -2 ^ 63 ≤ m) (hn : n < 0)
    (hn' : -2 ^ 63 ≤ n) (h : mpEncodeInt m = mpEncodeInt n) : m = n := by
  have hl := congrArg List.length h
  unfold mpEncodeInt at h hl
  split_ifs at h hl <;> simp [length_storeBe] at hl h <;>
    have := storeBe_inj (by omega) (by omega) h <;> omega

lemma headType_int {n : Int} (hn : n < 0) (hn' : -2 ^ 63 ≤ n) (rest : Bytes) :
    headType (mpEncodeInt n ++ rest) = some .int := by
  have hf : ∀ k < 32, mpTypeof (UInt8.ofNat (224 + k)) = .int := by decide
  unfold mpEncodeInt
  split_ifs
  · have hb : Int.toNat (2 ^ 8 + n) = 224 + Int.toNat (32 + n) := by omega
    rw [storeBe_one, hb]
    exact congrArg some (hf _ (by omega))
  all_goals rfl

lemma headType_extl (type : UInt8) (len : Nat) (rest : Bytes) :
    headType (mpEncodeExtl type len ++ rest) = some .ext := by
  unfold mpEncodeExtl
  split_ifs <;> rfl

lemma mpEncodeExtl_inj {type : UInt8} {p q : Bytes} (hp : p.length ≤ 0xff) (hq : q.length ≤ 0xff)
    (h : mpEncodeExtl type p.length ++ p = mpEncodeExtl type q.length ++ q) : p = q := by
  unfold mpEncodeExtl at h
  split_ifs at h <;> simp_all [storeBe_one]

lemma scale_cases (d : Decimal) : ∃ c : Nat, c < 256 ∧ ((d.exponent = -c ∧ c ≤ 38 ∧
          (if 0 < d.exponent then mpEncodeInt (-d.exponent)
            else mpEncodeUint (-d.exponent).toNat) = [UInt8.ofNat c]) ∨
        (d.exponent = 256 - c ∧ 224 ≤ c ∧ (if 0 < d.exponent then mpEncodeInt (-d.exponent)
            else mpEncodeUint (-d.exponent).toNat) = [UInt8.ofNat c]) ∨
        (d.exponent = 256 - c ∧ c < 224 ∧ (if 0 < d.exponent then mpEncodeInt (-d.exponent)
            else mpEncodeUint (-d.exponent).toNat) = [0xd0, UInt8.ofNat c])) := by
  have hg := d.exponent_ge
  have hl := d.exponent_lt
  simp only [decimalMaxDigits] at hg hl
  by_cases hp : 0 < d.exponent
  · refine ⟨(256 - d.exponent).toNat, by omega, .inr ?_⟩
    by_cases hf : -0x20 ≤ -d.exponent
    · refine .inl ⟨by omega, by omega, ?_⟩
      rw [if_pos hp, mpEncodeInt, if_pos hf, storeBe_one]
      congr 2
    · refine .inr ⟨by omega, by omega, ?_⟩
      rw [if_pos hp, mpEncodeInt, if_neg hf, if_pos (by omega), storeBe_one]
      congr 3
  · refine ⟨(-d.exponent).toNat, by omega, .inl ⟨by omega, by omega, ?_⟩⟩
    rw [if_neg hp, mpEncodeUint, if_pos (by omega), storeBe_one]

lemma ofNat_inj_byte (hm : m < 256) (hn : n < 256) (h : UInt8.ofNat m = UInt8.ofNat n) : m = n := by
  have := congrArg UInt8.toNat h
  simpa [Nat.mod_eq_of_lt hm, Nat.mod_eq_of_lt hn] using this

lemma packedDigits_lt (n : Nat) : packedDigits n < 16 ^ (Nat.digits 10 n).length := by
  refine Nat.ofDigits_lt_base_pow_length (by decide) fun x hx => ?_
  have := Nat.digits_lt_base (by decide : 1 < 10) hx
  omega

lemma packedDigits_inj (h : packedDigits m = packedDigits n) : m = n := by
  have hd (k : Nat) : Nat.digits 16 (packedDigits k) = Nat.digits 10 k := by
    refine Nat.digits_ofDigits 16 (by decide) _ (fun x hx => ?_) fun hn => ?_
    · have := Nat.digits_lt_base (by decide : 1 < 10) hx
      omega
    · exact Nat.getLast_digit_ne_zero 10 (Nat.digits_ne_nil_iff_ne_zero.1 hn)
  have := hd m
  rw [h, hd n] at this
  exact (Nat.digits_inj_iff.1 this.symm)

lemma decimalPackDigits_inj (h : decimalPackDigits d = decimalPackDigits e) :
    d.coefficient = e.coefficient ∧ d.negative = e.negative := by
  have hlt (d : Decimal) : packedDigits d.coefficient * 16 + (if d.negative then 0xd else 0xc) <
      256 ^ (max (Nat.digits 10 d.coefficient).length 1 / 2 + 1) := by
    have hp := packedDigits_lt d.coefficient
    have hpo : 16 ^ ((Nat.digits 10 d.coefficient).length + 1) ≤
        256 ^ (max (Nat.digits 10 d.coefficient).length 1 / 2 + 1) := by
      rw [show 256 = 16 ^ 2 by rfl, ← pow_mul]
      exact Nat.pow_le_pow_right (by decide) (by omega)
    rw [pow_succ] at hpo
    split <;> omega
  unfold decimalPackDigits at h
  have hl := congrArg List.length h
  simp only [length_storeBe] at hl
  have hk : max (Nat.digits 10 d.coefficient).length 1 / 2 + 1 =
      max (Nat.digits 10 e.coefficient).length 1 / 2 + 1 := by simpa using hl
  have hd := hlt d
  rw [hk] at hd
  simp only [hk] at h
  have he := storeBe_inj hd (hlt e) h
  have hc : packedDigits d.coefficient = packedDigits e.coefficient := by
    split at he <;> split at he <;> omega
  refine ⟨packedDigits_inj hc, ?_⟩
  rw [hc] at he
  cases hn : d.negative <;> cases hn' : e.negative <;> simp [hn, hn'] at he ⊢

lemma decimalPack_inj (h : decimalPack d = decimalPack e) : d = e := by
  have hs : d.exponent = e.exponent ∧ decimalPackDigits d = decimalPackDigits e := by
    unfold decimalPack at h
    obtain ⟨m, hm, hd⟩ := scale_cases d
    obtain ⟨n, hn, he⟩ := scale_cases e
    have h208 : (0xd0 : UInt8) = UInt8.ofNat 208 := rfl
    rcases hd with ⟨hde, hdm, hds⟩ | ⟨hde, hdm, hds⟩ | ⟨hde, hdm, hds⟩ <;>
      rcases he with ⟨hee, hen, hes⟩ | ⟨hee, hen, hes⟩ | ⟨hee, hen, hes⟩ <;>
      rw [hds, hes] at h <;>
      simp only [List.cons_append, List.nil_append, List.cons.injEq, h208] at h
    all_goals
      first
        | exact ⟨by have := ofNat_inj_byte hm hn h.1; omega, h.2⟩
        | exact ⟨by have := ofNat_inj_byte hm hn h.2.1; omega, h.2.2⟩
        | exact absurd (ofNat_inj_byte hm (by omega) h.1) (by omega)
        | exact absurd (ofNat_inj_byte (by omega) hn h.1) (by omega)
  obtain ⟨hc, hne⟩ := decimalPackDigits_inj hs.2
  cases d
  cases e
  simp_all

lemma length_decimalPack_le (d : Decimal) : (decimalPack d).length ≤ 0xff := by
  have hl : d.coefficient < 10 ^ decimalMaxDigits :=
    (Nat.le_mul_of_pos_right _ (by positivity)).trans_lt d.coefficient_lt
  have hd : (Nat.digits 10 d.coefficient).length ≤ 38 :=
    (Nat.digits_length_le_iff (by decide) _).2 hl
  have hs : (if 0 < d.exponent then mpEncodeInt (-d.exponent)
      else mpEncodeUint (-d.exponent).toNat).length ≤ 2 := by
    obtain ⟨c, -, ⟨-, -, h⟩ | ⟨-, -, h⟩ | ⟨-, -, h⟩⟩ := scale_cases d <;> simp [h]
  simp only [decimalPack, decimalPackDigits, List.length_append, length_storeBe]
  omega

lemma mpEncodeDecimal_inj (h : mpEncodeDecimal d = mpEncodeDecimal e) : d = e :=
  decimalPack_inj (mpEncodeExtl_inj (length_decimalPack_le d) (length_decimalPack_le e) h)

/-- The first byte of the shortest encoding of an unsigned integer, and the bytes behind it. -/
lemma mpEncodeUint_cases (h : n < 2 ^ 64) :
    n < 128 ∧ mpEncodeUint n = [UInt8.ofNat n] ∨
      ∃ k < 4, mpEncodeUint n = UInt8.ofNat (0xcc + k) :: storeBe (2 ^ k) n ∧ 128 ≤ n ∧
        n < 256 ^ 2 ^ k ∧ ∀ l < k, 256 ^ 2 ^ l ≤ n := by
  unfold mpEncodeUint
  split_ifs
  · exact .inl ⟨by omega, storeBe_one⟩
  · exact .inr ⟨0, by omega, rfl, by omega, by omega, by omega⟩
  · refine .inr ⟨1, by omega, rfl, by omega, by omega, fun l hl => ?_⟩
    interval_cases l
    omega
  · refine .inr ⟨2, by omega, rfl, by omega, by omega, fun l hl => ?_⟩
    interval_cases l <;> omega
  · refine .inr ⟨3, by omega, rfl, by omega, by omega, fun l hl => ?_⟩
    interval_cases l <;> omega

/-- In their shortest encodings unsigned integers are compared as numbers. -/
lemma sign_mpCompareUint (hm : m < 2 ^ 64) (hn : n < 2 ^ 64) :
    ∃ c, mpCompareUint (mpEncodeUint m) (mpEncodeUint n) = some c ∧
      c.sign = (compareResult m n).sign := by
  have hlt {a b : Nat} (ha : a < 256) (hb : b < 256) (s t : Bytes) (hab : a < b ↔ m < n)
      (hba : b < a ↔ n < m) (he : a ≠ b) :
      ∃ c, mpCompareUint (UInt8.ofNat a :: s) (UInt8.ofNat b :: t) = some c ∧
        c.sign = (compareResult m n).sign := by
    have hta : (UInt8.ofNat a).toNat = a := by simpa using Nat.mod_eq_of_lt ha
    have htb : (UInt8.ofNat b).toNat = b := by simpa using Nat.mod_eq_of_lt hb
    have hne : UInt8.ofNat a ≠ UInt8.ofNat b := fun h => he (by rw [← hta, ← htb, h])
    refine ⟨(a : Int) - b, by simp [mpCompareUint, hne, hta, htb], ?_⟩
    rw [sign_compareResult]
    rcases Nat.lt_or_gt_of_ne he with h | h
    · rw [Int.sign_eq_neg_one_of_neg (by omega), compareResult, if_pos (hab.mp h)]
    · rw [Int.sign_eq_one_of_pos (by omega), compareResult, if_neg (by omega), if_pos (hba.mp h)]
  rcases mpEncodeUint_cases hm with ⟨hs, he⟩ | ⟨k, hk, he, hs, hl, hg⟩ <;>
    rcases mpEncodeUint_cases hn with ⟨hs', he'⟩ | ⟨l, hl', he', hs', hl'', hg'⟩ <;> rw [he, he']
  · by_cases h : m = n
    · subst h
      have ht : (UInt8.ofNat m).toNat = m := by simpa using Nat.mod_eq_of_lt (by omega : m < 256)
      exact ⟨0, by simp [mpCompareUint, ht, Nat.le_of_lt_succ hs], by simp [compareResult]⟩
    · exact hlt (by omega) (by omega) _ _ .rfl .rfl h
  · exact hlt (by omega) (by omega) _ _ (by omega) (by omega) (by omega)
  · exact hlt (by omega) (by omega) _ _ (by omega) (by omega) (by omega)
  · rcases Nat.lt_trichotomy k l with h | rfl | h
    · have := hg' k h
      exact hlt (by omega) (by omega) _ _ (by omega) (by omega) (by omega)
    · have h4 : (0xcc + k) % 4 = k := by omega
      refine ⟨compareResult m n, ?_, rfl⟩
      have hm := loadBe_storeBe_of_lt hl []
      have hn := loadBe_storeBe_of_lt hl'' []
      rw [List.append_nil] at hm hn
      simp [mpCompareUint, h4, hm, hn]
      omega
    · have := hg l h
      exact hlt (by omega) (by omega) _ _ (by omega) (by omega) (by omega)

/-- A value that is compared by its bytes is in its shortest encoding. -/
def Shortest (item : Item Scalar) : Prop :=
  (∀ n, item.kind = .scalar (.number (.integer (.uint n))) → item.raw = mpEncodeUint n.toNat) ∧
    ∀ u, item.kind = .scalar (.uuid u) → item.raw = mpEncodeExtl 2 u.length ++ u

/-- What the code computes from the bytes of two fields: `mp_compare_uint`, or `mp_compare_uuid`
behind a header of two bytes. -/
def compareBytes (type : FieldType) (a b : Item Scalar) : Option Int :=
  if type = .unsigned then mpCompareUint a.raw b.raw
  else some (mpCompareUuid (a.raw.drop 2) (b.raw.drop 2))

/-- Among these items the comparison by bytes is that of the values. -/
def ComparesBytes (stale : Decimal → Double → Int → Int) (items : List (Item Scalar)) : Prop :=
  ∀ type, type = .unsigned ∨ type = .uuid → ∀ a ∈ items, ∀ b ∈ items, ∀ v w,
    a.kind = .scalar v → b.kind = .scalar w → fieldMpTypeIsCompatible type v false →
    fieldMpTypeIsCompatible type w false → ∀ coll, ∃ c, compareBytes type a b = some c ∧
      c.sign = (tupleCompareField stale type coll v w).sign

lemma uint_of_compatible {v : Scalar} (h : fieldMpTypeIsCompatible .unsigned v false) :
    ∃ n, v = .number (.integer (.uint n)) := by
  unfold fieldMpTypeIsCompatible at h
  split at h <;> simp_all

lemma uuid_of_compatible {v : Scalar} (h : fieldMpTypeIsCompatible .uuid v false) :
    ∃ u, v = .uuid u := by
  unfold fieldMpTypeIsCompatible at h
  split at h <;> simp_all

lemma comparesBytes_of_shortest (stale : Decimal → Double → Int → Int)
    {items : List (Item Scalar)} (h : ∀ item ∈ items, Shortest item) :
    ComparesBytes stale items := by
  rintro type (rfl | rfl) a ha b hb v w hv hw hcv hcw coll
  · obtain ⟨m, rfl⟩ := uint_of_compatible hcv
    obtain ⟨n, rfl⟩ := uint_of_compatible hcw
    rw [compareBytes, if_pos rfl, (h a ha).1 m hv, (h b hb).1 n hw]
    exact sign_mpCompareUint m.toNat_lt n.toNat_lt
  · obtain ⟨t, rfl⟩ := uuid_of_compatible hcv
    obtain ⟨u, rfl⟩ := uuid_of_compatible hcw
    rw [compareBytes, if_neg (by decide), (h a ha).2 t hv, (h b hb).2 u hw, uuid_length hcv,
      uuid_length hcw]
    exact ⟨_, rfl, rfl⟩

end TarantoolStorage.Index
