import Mathlib

/-!
MessagePack on byte lists. A decoder returns the value and the rest, or `none` where the bytes are
not what it expects.
-/
namespace MsgPack

open List Option

abbrev Bytes := List UInt8

inductive MpType where
  | nil | uint | int | str | bin | array | map | bool | float | double | ext
  deriving DecidableEq, Repr

def mpTypeof (c : UInt8) : MpType :=
  if c ≤ 0x7f then .uint
  else if c ≤ 0x8f then .map
  else if c ≤ 0x9f then .array
  else if c ≤ 0xbf then .str
  else if c = 0xc0 then .nil
  else if c = 0xc1 then .ext
  else if c ≤ 0xc3 then .bool
  else if c ≤ 0xc6 then .bin
  else if c ≤ 0xc9 then .ext
  else if c = 0xca then .float
  else if c = 0xcb then .double
  else if c ≤ 0xcf then .uint
  else if c ≤ 0xd3 then .int
  else if c ≤ 0xd8 then .ext
  else if c ≤ 0xdb then .str
  else if c ≤ 0xdd then .array
  else if c ≤ 0xdf then .map
  else .int

def headType : Bytes → Option MpType
  | [] => none
  | c :: _ => some (mpTypeof c)

/-- `k` bytes of `n`, most significant byte first. -/
def storeBe : Nat → Nat → Bytes
  | 0, _ => []
  | k + 1, n => UInt8.ofNat (n / 256 ^ k) :: storeBe k n

/-- Reads `k` bytes after the bytes already read into `acc`. -/
def loadBe (acc : Nat) : Nat → Bytes → Option (Nat × Bytes)
  | 0, bs => some (acc, bs)
  | _ + 1, [] => none
  | k + 1, b :: bs => loadBe (acc * 256 + b.toNat) k bs

def mpEncodeUint (n : Nat) : Bytes :=
  if n ≤ 0x7f then storeBe 1 n
  else if n ≤ 0xff then 0xcc :: storeBe 1 n
  else if n ≤ 0xffff then 0xcd :: storeBe 2 n
  else if n ≤ 0xffffffff then 0xce :: storeBe 4 n
  else 0xcf :: storeBe 8 n

def mpEncodeArray (n : Nat) : Bytes :=
  if n ≤ 15 then storeBe 1 (0x90 ||| n)
  else if n ≤ 0xffff then 0xdc :: storeBe 2 n
  else 0xdd :: storeBe 4 n

def mpEncodeMap (n : Nat) : Bytes :=
  if n ≤ 15 then storeBe 1 (0x80 ||| n)
  else if n ≤ 0xffff then 0xde :: storeBe 2 n
  else 0xdf :: storeBe 4 n

def mpEncodeStrl (len : Nat) : Bytes :=
  if len ≤ 31 then storeBe 1 (0xa0 ||| len)
  else if len ≤ 0xff then 0xd9 :: storeBe 1 len
  else if len ≤ 0xffff then 0xda :: storeBe 2 len
  else 0xdb :: storeBe 4 len

def mpDecodeUint : Bytes → Option (Nat × Bytes)
  | [] => none
  | c :: bs =>
    if c = 0xcc then loadBe 0 1 bs
    else if c = 0xcd then loadBe 0 2 bs
    else if c = 0xce then loadBe 0 4 bs
    else if c = 0xcf then loadBe 0 8 bs
    else if c > 0x7f then none
    else some (c.toNat, bs)

def mpDecodeArray : Bytes → Option (Nat × Bytes)
  | [] => none
  | c :: bs =>
    if c &&& 0x40 = 0 then some ((c &&& 0xf).toNat, bs)
    else if c &&& 1 = 0 then loadBe 0 2 bs
    else loadBe 0 4 bs

def mpDecodeMap : Bytes → Option (Nat × Bytes)
  | [] => none
  | c :: bs =>
    if c = 0xde then loadBe 0 2 bs
    else if c = 0xdf then loadBe 0 4 bs
    else if c < 0x80 ∨ c > 0x8f then none
    else some ((c &&& 0xf).toNat, bs)

inductive Hint where
  /-- This many bytes of payload. -/
  | payload (length : Nat)
  /-- This many nested values. -/
  | nested (count : Nat)
  /-- A length of so many bytes, then so many further bytes, then the payload. -/
  | lengthPrefixed (width extra : Nat)
  /-- A count of so many bytes, then so many nested values for each unit of it. -/
  | countPrefixed (width factor : Nat)
  deriving DecidableEq

def mpParserHint (c : UInt8) : Hint :=
  if c ≤ 0x7f then .payload 0
  else if c ≤ 0x8f then .nested (2 * (c &&& 0xf).toNat)
  else if c ≤ 0x9f then .nested (c &&& 0xf).toNat
  else if c ≤ 0xbf then .payload (c &&& 0x1f).toNat
  else if c ≤ 0xc3 then .payload 0
  else if c ≤ 0xc6 then .lengthPrefixed (2 ^ (c.toNat - 0xc4)) 0
  else if c ≤ 0xc9 then .lengthPrefixed (2 ^ (c.toNat - 0xc7)) 1
  else if c ≤ 0xcb then .payload (2 ^ (c.toNat - 0xca + 2))
  else if c ≤ 0xcf then .payload (2 ^ (c.toNat - 0xcc))
  else if c ≤ 0xd3 then .payload (2 ^ (c.toNat - 0xd0))
  else if c ≤ 0xd8 then .payload (1 + 2 ^ (c.toNat - 0xd4))
  else if c ≤ 0xdb then .lengthPrefixed (2 ^ (c.toNat - 0xd9)) 0
  else if c ≤ 0xdd then .countPrefixed (2 ^ (c.toNat - 0xdc + 1)) 1
  else if c ≤ 0xdf then .countPrefixed (2 ^ (c.toNat - 0xde + 1)) 2
  else .payload 0

def skipBytes (n : Nat) (bs : Bytes) : Option Bytes :=
  if n ≤ bs.length then some (bs.drop n) else none

/-- Skips `k` values. Every value takes a byte, so the byte count is fuel enough. -/
def skipValues : Nat → Nat → Bytes → Option Bytes
  | _, 0, bs => some bs
  | 0, _ + 1, _ => none
  | _ + 1, _ + 1, [] => none
  | fuel + 1, k + 1, c :: bs =>
    match mpParserHint c with
    | .payload n => (skipBytes n bs).bind (skipValues fuel k)
    | .nested n => skipValues fuel (k + n) bs
    | .lengthPrefixed width extra =>
      (loadBe 0 width bs).bind fun (n, bs) => (skipBytes (extra + n) bs).bind (skipValues fuel k)
    | .countPrefixed width factor =>
      -- the product is one of 32-bit numbers
      (loadBe 0 width bs).bind fun (n, bs) => skipValues fuel (k + factor * n % 2 ^ 32) bs

/-- The number of values that belong to the first one, and where they begin. -/
def skipHead : Bytes → Option (Nat × Bytes)
  | [] => none
  | c :: bs =>
    match mpParserHint c with
    | .payload n => (skipBytes n bs).map (0, ·)
    | .nested n => some (n, bs)
    | .lengthPrefixed width extra =>
      (loadBe 0 width bs).bind fun (n, bs) => (skipBytes (extra + n) bs).map (0, ·)
    | .countPrefixed width factor =>
      (loadBe 0 width bs).map fun (n, bs) => (factor * n % 2 ^ 32, bs)

/-- `mp_next`: skips one value. -/
def mpNext (bs : Bytes) : Option Bytes := skipValues bs.length 1 bs

/-- `mp_check`: what follows the first value, if that value is complete. -/
def mpCheck (bs : Bytes) : Option Bytes := skipValues bs.length 1 bs

/-- A floating point number is the 64 bits of its representation. -/
def mpEncodeDouble (bits : Nat) : Bytes := 0xcb :: storeBe 8 bits

def mpDecodeDouble : Bytes → Option (Nat × Bytes)
  | [] => none
  | c :: bs => if c = 0xcb then loadBe 0 8 bs else none

/-- A decoder may also fail with the text of an error. -/
abbrev Decode := ExceptT String Option

lemma decode_bind_eq_pure {α β : Type} {x : Decode α} {f : α → Decode β} {b : β} :
    (x >>= f) = pure b ↔ ∃ a, x = pure a ∧ f a = pure b := by
  constructor
  · intro h
    match x, h with
    | some (.ok a), h => exact ⟨a, rfl, h⟩
    | some (.error e), h => cases h
    | none, h => cases h
  · rintro ⟨a, rfl, h⟩
    rw [pure_bind, h]

def decodeUint (error : String) (pos : Bytes) : Decode (Nat × Bytes) :=
  match headType pos with
  | none => ExceptT.mk none
  | some .uint => ExceptT.lift (mpDecodeUint pos)
  | some _ => throw error

section Returns

variable {α : Type}

/-- The decoder fails with an error, or its result has the property. -/
def Returns (x : Decode α) (Q : α → Prop) : Prop :=
  match x.run with
  | none => False
  | some (.error _) => True
  | some (.ok a) => Q a

lemma returns_iff {x : Decode α} : (Returns x fun _ => True) ↔ x.run ≠ none := by
  unfold Returns
  split <;> simp_all

@[simp] lemma returns_pure (a : α) (Q : α → Prop) : Returns (pure a) Q ↔ Q a := .rfl

@[simp] lemma returns_throw (error : String) (Q : α → Prop) : Returns (throw error) Q := trivial

@[simp] lemma returns_lift (x : Option α) (Q : α → Prop) :
    Returns (ExceptT.lift x) Q ↔ ∃ a, x = some a ∧ Q a := by
  cases x with
  | none => exact ⟨False.elim, by simp⟩
  | some a => exact ⟨fun h => ⟨a, rfl, h⟩, by rintro ⟨_, ⟨⟩, h⟩; exact h⟩

@[simp] lemma returns_bind {β : Type} (x : Decode α) (f : α → Decode β) (Q : β → Prop) :
    Returns (x >>= f) Q ↔ Returns x fun a => Returns (f a) Q :=
  match x with
  | none => .rfl
  | some (.error _) => .rfl
  | some (.ok _) => .rfl

@[simp] lemma returns_map {β : Type} (x : Decode α) (f : α → β) (Q : β → Prop) :
    Returns (f <$> x) Q ↔ Returns x fun a => Q (f a) := by
  rw [map_eq_pure_bind, returns_bind]
  rfl

lemma returns_and {x : Decode α} {Q R : α → Prop} :
    (Returns x fun a => Q a ∧ R a) ↔ Returns x Q ∧ ∀ a, x = pure a → R a :=
  match x with
  | none => ⟨False.elim, fun h => h.1⟩
  | some (.error e) => ⟨fun _ => ⟨trivial, fun a h => by cases h⟩, fun _ => trivial⟩
  | some (.ok a) => ⟨fun h => ⟨h.1, by rintro _ ⟨⟩; exact h.2⟩, fun h => ⟨h.1, h.2 a rfl⟩⟩

/-- A value of another type, of which its first byte tells. -/
def Other (type : MpType) (pos : Bytes) : Prop := ∃ t, headType pos = some t ∧ t ≠ type

lemma headType_of_mpDecodeUint {pos : Bytes} {p : Nat × Bytes}
    (h : mpDecodeUint pos = some p) : headType pos = some .uint := by
  cases pos with
  | nil => cases h
  | cons c bs =>
    simp only [mpDecodeUint] at h
    iterate 4 (split at h; · next hc => subst hc; rfl)
    split at h
    · cases h
    next hc => simp [headType, mpTypeof, UInt8.not_lt.1 hc]

@[simp] lemma returns_decodeUint {error : String} {pos : Bytes} {Q : Nat × Bytes → Prop} :
    Returns (decodeUint error pos) Q ↔ Other .uint pos ∨ ∃ p, mpDecodeUint pos = some p ∧ Q p := by
  have hu {p : Nat × Bytes} := @headType_of_mpDecodeUint pos p
  unfold decodeUint
  split
  next h =>
    simp only [h, reduceCtorEq, imp_false] at hu
    simp [Other, h, hu, Returns]
  next h => simp [Other, h]
  next t hn h => simp_all [Other]

end Returns

/-- Reads `n` values one after another. -/
def decodeValues {α : Type} (decode : Bytes → Option (α × Bytes)) :
    Nat → Bytes → Option (List α × Bytes)
  | 0, bs => some ([], bs)
  | n + 1, bs =>
    (decode bs).bind fun (x, bs) => (decodeValues decode n bs).map fun (xs, bs) => (x :: xs, bs)

def decodeArray {α : Type} (decode : Bytes → Option (α × Bytes)) (bs : Bytes) :
    Option (List α × Bytes) :=
  if headType bs = some .array then (mpDecodeArray bs).bind fun (n, bs) => decodeValues decode n bs
  else none

lemma loadBe_storeBe (acc k n : Nat) (rest : Bytes) :
    loadBe acc k (storeBe k n ++ rest) = some (acc * 256 ^ k + n % 256 ^ k, rest) := by
  induction k generalizing acc with
  | zero => simp [loadBe, storeBe, Nat.mod_one]
  | succ k ih =>
    have hs : n % 256 ^ (k + 1) = n % 256 ^ k + 256 ^ k * (n / 256 ^ k % 256) := by
      rw [pow_succ, Nat.mod_mul]
    have hb : (UInt8.ofNat (n / 256 ^ k)).toNat = n / 256 ^ k % 256 := by simp
    simp only [storeBe, cons_append, loadBe, ih, hb, hs, some.injEq, Prod.mk.injEq, and_true]
    ring

variable {k n : Nat} {bs bs' : Bytes}

lemma loadBe_storeBe_of_lt (h : n < 256 ^ k) (rest : Bytes) :
    loadBe 0 k (storeBe k n ++ rest) = some (n, rest) := by
  simp [loadBe_storeBe, Nat.mod_eq_of_lt h]

lemma fixint_byte : ∀ n < 128, UInt8.ofNat n ≠ 0xcc ∧ UInt8.ofNat n ≠ 0xcd ∧
    UInt8.ofNat n ≠ 0xce ∧ UInt8.ofNat n ≠ 0xcf ∧ ¬ UInt8.ofNat n > 0x7f ∧
    (UInt8.ofNat n).toNat = n ∧ mpTypeof (UInt8.ofNat n) = .uint := by
  decide

lemma fixarray_byte : ∀ n < 16, UInt8.ofNat (0x90 ||| n) &&& 0x40 = 0 ∧
    (UInt8.ofNat (0x90 ||| n) &&& 0xf).toNat = n ∧
    mpTypeof (UInt8.ofNat (0x90 ||| n)) = .array := by
  decide

lemma fixmap_byte : ∀ n < 16, UInt8.ofNat (0x80 ||| n) ≠ 0xde ∧ UInt8.ofNat (0x80 ||| n) ≠ 0xdf ∧
    ¬ (UInt8.ofNat (0x80 ||| n) < 0x80 ∨ UInt8.ofNat (0x80 ||| n) > 0x8f) ∧
    (UInt8.ofNat (0x80 ||| n) &&& 0xf).toNat = n := by
  decide

lemma storeBe_one : storeBe 1 n = [UInt8.ofNat n] := by
  simp [storeBe]

lemma mpDecodeUint_encode (h : n < 2 ^ 64) (rest : Bytes) :
    mpDecodeUint (mpEncodeUint n ++ rest) = some (n, rest) := by
  unfold mpEncodeUint
  split
  · rename_i hn
    obtain ⟨h₁, h₂, h₃, h₄, h₅, h₆, -⟩ := fixint_byte n (by omega)
    rw [storeBe_one]
    simp [mpDecodeUint, h₁, h₂, h₃, h₄, h₅, h₆]
  · split
    · exact loadBe_storeBe_of_lt (by omega) rest
    · split
      · exact loadBe_storeBe_of_lt (by omega) rest
      · split
        · exact loadBe_storeBe_of_lt (by omega) rest
        · exact loadBe_storeBe_of_lt (by omega) rest

lemma mpDecodeArray_encode (h : n < 2 ^ 32) (rest : Bytes) :
    mpDecodeArray (mpEncodeArray n ++ rest) = some (n, rest) := by
  unfold mpEncodeArray
  split
  · rename_i hn
    obtain ⟨h₁, h₂, -⟩ := fixarray_byte n (by omega)
    rw [storeBe_one]
    simp only [singleton_append, mpDecodeArray, h₁, h₂, ite_true]
  · split
    · exact loadBe_storeBe_of_lt (by omega) rest
    · exact loadBe_storeBe_of_lt (by omega) rest

lemma mpDecodeMap_encode (h : n < 2 ^ 32) (rest : Bytes) :
    mpDecodeMap (mpEncodeMap n ++ rest) = some (n, rest) := by
  unfold mpEncodeMap
  split
  · rename_i hn
    obtain ⟨h₁, h₂, h₃, h₄⟩ := fixmap_byte n (by omega)
    rw [storeBe_one]
    simp only [singleton_append, mpDecodeMap, h₁, h₂, h₃, h₄, ite_false]
  · split
    · exact loadBe_storeBe_of_lt (by omega) rest
    · exact loadBe_storeBe_of_lt (by omega) rest

lemma headType_uint (n : Nat) (rest : Bytes) : headType (mpEncodeUint n ++ rest) = some .uint := by
  unfold mpEncodeUint
  split
  · rename_i hn
    obtain ⟨-, -, -, -, -, -, ht⟩ := fixint_byte n (by omega)
    rw [storeBe_one]
    exact congrArg some ht
  · split
    · rfl
    · split
      · rfl
      · split <;> rfl

lemma decodeUint_encode (h : n < 2 ^ 64) (error : String) (rest : Bytes) :
    decodeUint error (mpEncodeUint n ++ rest) = pure (n, rest) := by
  simp only [decodeUint, headType_uint, mpDecodeUint_encode h]
  rfl

lemma headType_array (n : Nat) (rest : Bytes) :
    headType (mpEncodeArray n ++ rest) = some .array := by
  unfold mpEncodeArray
  split
  · rename_i hn
    obtain ⟨-, -, ht⟩ := fixarray_byte n (by omega)
    rw [storeBe_one]
    exact congrArg some ht
  · split <;> rfl

lemma headType_map (n : Nat) (rest : Bytes) : headType (mpEncodeMap n ++ rest) = some .map := by
  have hb : ∀ m < 16, mpTypeof (UInt8.ofNat (0x80 ||| m)) = .map := by decide
  unfold mpEncodeMap
  split
  · rename_i hn
    rw [storeBe_one]
    exact congrArg some (hb n (by omega))
  · split <;> rfl

lemma decodeValues_flatMap {α β : Type} {decode : Bytes → Option (α × Bytes)}
    {encode : β → Bytes} {value : β → α}
    (h : ∀ x rest, decode (encode x ++ rest) = some (value x, rest)) (xs : List β)
    (rest : Bytes) :
    decodeValues decode xs.length (xs.flatMap encode ++ rest) = some (xs.map value, rest) := by
  induction xs with
  | nil => rfl
  | cons x xs ih => simp [decodeValues, h, ih]

/-- An array is read back from its header and its elements' bytes. -/
lemma decodeArray_encode {α β : Type} {decode : Bytes → Option (α × Bytes)}
    {encode : β → Bytes} {value : β → α}
    (h : ∀ x rest, decode (encode x ++ rest) = some (value x, rest)) {xs : List β}
    (hl : xs.length < 2 ^ 32) (rest : Bytes) :
    decodeArray decode (mpEncodeArray xs.length ++ (xs.flatMap encode ++ rest)) =
      some (xs.map value, rest) := by
  simp only [decodeArray, headType_array, ite_true, mpDecodeArray_encode hl, bind_some]
  exact decodeValues_flatMap h xs rest

lemma mpDecodeDouble_encode {bits : Nat} (h : bits < 2 ^ 64) (rest : Bytes) :
    mpDecodeDouble (mpEncodeDouble bits ++ rest) = some (bits, rest) :=
  loadBe_storeBe_of_lt (by omega) rest

lemma length_storeBe (k n : Nat) : (storeBe k n).length = k := by
  induction k with
  | zero => rfl
  | succ k ih => rw [storeBe, length_cons, ih]

lemma length_mpEncodeUint_le (n : Nat) : (mpEncodeUint n).length ≤ 9 := by
  unfold mpEncodeUint
  split_ifs <;> simp [length_storeBe]

lemma length_mpEncodeUint_of_byte (h : n < 2 ^ 8) : (mpEncodeUint n).length ≤ 2 := by
  unfold mpEncodeUint
  split_ifs <;> simp [length_storeBe] <;> omega

lemma length_mpEncodeUint_of_lt (h : n < 2 ^ 16) : (mpEncodeUint n).length ≤ 3 := by
  unfold mpEncodeUint
  split_ifs <;> simp [length_storeBe] <;> omega

lemma length_mpEncodeUint_of_fixint (h : n < 128) : (mpEncodeUint n).length = 1 := by
  rw [mpEncodeUint, if_pos (by omega), length_storeBe]

lemma skipBytes_append (bs rest : Bytes) : skipBytes bs.length (bs ++ rest) = some rest := by
  simp [skipBytes]

lemma length_of_skipBytes (h : skipBytes n bs = some bs') : bs'.length ≤ bs.length := by
  unfold skipBytes at h
  split at h
  · cases h
    simp
  · cases h

lemma loadBe_eq_skipBytes {acc : Nat} (h : loadBe acc k bs = some (n, bs')) :
    skipBytes k bs = some bs' := by
  induction k generalizing acc bs with
  | zero =>
    cases h
    simp [skipBytes]
  | succ k ih =>
    cases bs with
    | nil => cases h
    | cons b bs => simpa [skipBytes] using ih h

lemma length_of_loadBe {acc : Nat} (h : loadBe acc k bs = some (n, bs')) : bs'.length ≤ bs.length :=
  length_of_skipBytes (loadBe_eq_skipBytes h)

lemma skipValues_zero (fuel : Nat) (bs : Bytes) : skipValues fuel 0 bs = some bs := by
  cases fuel <;> rfl

lemma skipValues_succ (fuel k : Nat) (bs : Bytes) : skipValues (fuel + 1) (k + 1) bs =
      (skipHead bs).bind fun p => skipValues fuel (k + p.1) p.2 := by
  cases bs with
  | nil => rfl
  | cons c bs =>
    simp only [skipValues, skipHead]
    cases mpParserHint c <;> simp [bind_assoc, bind_map]

lemma length_of_skipHead {p : Nat × Bytes} (h : skipHead bs = some p) : p.2.length < bs.length := by
  cases bs with
  | nil => cases h
  | cons c bs =>
    rw [length_cons, Nat.lt_succ_iff]
    rw [skipHead] at h
    cases hint : mpParserHint c with
    | nested n =>
      rw [hint] at h
      cases h
      exact Nat.le_refl _
    | payload n =>
      rw [hint] at h
      obtain ⟨bs', hs, rfl⟩ := map_eq_some_iff.mp h
      exact length_of_skipBytes hs
    | lengthPrefixed width extra =>
      rw [hint] at h
      obtain ⟨q, hl, h⟩ := bind_eq_some_iff.mp h
      obtain ⟨bs', hs, rfl⟩ := map_eq_some_iff.mp h
      exact (length_of_skipBytes hs).trans (length_of_loadBe hl)
    | countPrefixed width factor =>
      rw [hint] at h
      obtain ⟨q, hl, rfl⟩ := map_eq_some_iff.mp h
      exact length_of_loadBe hl

/-- Any fuel from the number of bytes on gives the same result. -/
lemma skipValues_fuel {fuel fuel' : Nat} (h : bs.length ≤ fuel) (h' : bs.length ≤ fuel') :
    skipValues fuel k bs = skipValues fuel' k bs := by
  induction fuel generalizing fuel' k bs with
  | zero =>
    obtain rfl : bs = [] := length_eq_zero_iff.mp (Nat.le_zero.mp h)
    cases k <;> cases fuel' <;> rfl
  | succ fuel ih =>
    cases k with
    | zero => rw [skipValues_zero, skipValues_zero]
    | succ k =>
      cases fuel' with
      | zero =>
        obtain rfl : bs = [] := length_eq_zero_iff.mp (Nat.le_zero.mp h')
        rfl
      | succ fuel' =>
        rw [skipValues_succ, skipValues_succ]
        refine bind_congr fun p hp => ?_
        have hl := length_of_skipHead hp
        exact ih (by omega) (by omega)

lemma length_of_skipValues {fuel : Nat} (h : skipValues fuel k bs = some bs') :
    bs'.length + min 1 k ≤ bs.length := by
  induction fuel generalizing k bs with
  | zero =>
    cases k with
    | zero =>
      cases h
      simp
    | succ k => cases h
  | succ fuel ih =>
    cases k with
    | zero =>
      cases h
      simp
    | succ k =>
      rw [skipValues_succ] at h
      obtain ⟨p, hp, h⟩ := bind_eq_some_iff.mp h
      have hl := length_of_skipHead hp
      have hle := ih h
      omega

lemma skipBytes_append_rest (h : skipBytes n bs = some bs') (rest : Bytes) :
    skipBytes n (bs ++ rest) = some (bs' ++ rest) := by
  unfold skipBytes at h ⊢
  split at h
  · rename_i hl
    cases h
    rw [if_pos (by rw [length_append]; omega), drop_append_of_le_length hl]
  · cases h

lemma loadBe_append_rest {acc : Nat} (h : loadBe acc k bs = some (n, bs')) (rest : Bytes) :
    loadBe acc k (bs ++ rest) = some (n, bs' ++ rest) := by
  induction k generalizing acc bs with
  | zero =>
    cases h
    rfl
  | succ k ih =>
    cases bs with
    | nil => cases h
    | cons b bs => exact ih h

lemma skipHead_append_rest {p : Nat × Bytes} (h : skipHead bs = some p) (rest : Bytes) :
    skipHead (bs ++ rest) = some (p.1, p.2 ++ rest) := by
  cases bs with
  | nil => cases h
  | cons c bs =>
    rw [skipHead] at h
    rw [cons_append, skipHead]
    cases hint : mpParserHint c with
    | nested n =>
      rw [hint] at h
      cases h
      rfl
    | payload n =>
      rw [hint] at h
      obtain ⟨bs', hs, rfl⟩ := map_eq_some_iff.mp h
      exact map_eq_some_iff.mpr ⟨_, skipBytes_append_rest hs rest, rfl⟩
    | lengthPrefixed width extra =>
      rw [hint] at h
      obtain ⟨q, hl, h⟩ := bind_eq_some_iff.mp h
      obtain ⟨bs', hs, rfl⟩ := map_eq_some_iff.mp h
      exact bind_eq_some_iff.mpr ⟨_, loadBe_append_rest hl rest,
        map_eq_some_iff.mpr ⟨_, skipBytes_append_rest hs rest, rfl⟩⟩
    | countPrefixed width factor =>
      rw [hint] at h
      obtain ⟨q, hl, rfl⟩ := map_eq_some_iff.mp h
      exact map_eq_some_iff.mpr ⟨_, loadBe_append_rest hl rest, rfl⟩

/-- What is skipped does not depend on what follows, nor on more fuel. -/
lemma skipValues_append_rest {fuel fuel' : Nat} (h : skipValues fuel k bs = some bs')
    (hf : fuel ≤ fuel') (rest : Bytes) :
    skipValues fuel' k (bs ++ rest) = some (bs' ++ rest) := by
  induction fuel generalizing fuel' k bs with
  | zero =>
    cases k with
    | zero =>
      cases h
      exact skipValues_zero _ _
    | succ k => cases h
  | succ fuel ih =>
    obtain ⟨fuel', rfl⟩ : ∃ n, fuel' = n + 1 := ⟨fuel' - 1, by omega⟩
    cases k with
    | zero =>
      cases h
      rfl
    | succ k =>
      rw [skipValues_succ] at h ⊢
      obtain ⟨p, hp, h⟩ := bind_eq_some_iff.mp h
      exact bind_eq_some_iff.mpr ⟨_, skipHead_append_rest hp rest, ih h (by omega)⟩

lemma mpCheck_append_rest (h : mpCheck bs = some bs') (rest : Bytes) :
    mpCheck (bs ++ rest) = some (bs' ++ rest) :=
  skipValues_append_rest h (by simp) rest

def Values (n : Nat) (bs : Bytes) : Prop :=
  ∀ k rest, skipValues (bs ++ rest).length (n + k) (bs ++ rest) = skipValues rest.length k rest

lemma Values.nil : Values 0 [] := by
  intro k rest
  simp

lemma Values.append {m : Nat} {as : Bytes} (ha : Values m as) (hb : Values n bs) :
    Values (m + n) (as ++ bs) := by
  intro k rest
  rw [append_assoc, Nat.add_assoc, ha, hb]

lemma Values.payload {c : UInt8} (h : mpParserHint c = .payload bs.length) :
    Values 1 (c :: bs) := by
  intro k rest
  rw [Nat.add_comm, cons_append, length_cons]
  simp only [skipValues, h, skipBytes_append, bind_some]
  exact skipValues_fuel (by simp) (Nat.le_refl _)

lemma fixint_hint : ∀ n < 128, (UInt8.ofNat n) ≤ 0x7f := by
  decide

lemma Values.uint (n : Nat) : Values 1 (mpEncodeUint n) := by
  unfold mpEncodeUint
  split_ifs with hn
  · rw [storeBe_one]
    refine Values.payload ?_
    rw [mpParserHint, if_pos (fixint_hint n (by omega))]
    rfl
  all_goals exact Values.payload (by rw [length_storeBe]; rfl)

lemma Values.double (bits : Nat) : Values 1 (mpEncodeDouble bits) :=
  Values.payload (by rw [length_storeBe]; rfl)

lemma fixmap_hint : ∀ n < 16, ¬ UInt8.ofNat (0x80 ||| n) ≤ 0x7f ∧
    UInt8.ofNat (0x80 ||| n) ≤ 0x8f ∧ (UInt8.ofNat (0x80 ||| n) &&& 0xf).toNat = n := by
  decide

lemma Values.map (hn : n < 16) (h : Values (2 * n) bs) : Values 1 (mpEncodeMap n ++ bs) := by
  intro k rest
  obtain ⟨h₁, h₂, h₃⟩ := fixmap_hint n hn
  rw [mpEncodeMap, if_pos (by omega), storeBe_one, append_assoc, singleton_append,
    Nat.add_comm 1 k, length_cons]
  simp only [skipValues, mpParserHint, h₁, h₂, h₃, ite_true, ite_false]
  rw [Nat.add_comm k]
  exact h k rest

lemma Values.check (h : Values 1 bs) (rest : Bytes) : mpCheck (bs ++ rest) = some rest := by
  have hs := h 0 rest
  rw [mpCheck, hs]
  cases rest <;> rfl

end MsgPack
