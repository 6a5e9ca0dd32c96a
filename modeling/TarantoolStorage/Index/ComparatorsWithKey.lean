import TarantoolStorage.Index.Comparators

/-! The comparators of tuples with keys and of keys, and where they leave the reference order. -/
namespace TarantoolStorage.Index

open Compare MsgPack Option

/-- The bytes of an item are one value, nil if the item is. -/
def Encoded (item : Item Scalar) : Prop :=
  Values 1 item.raw ∧ ∀ rest, (headType (item.raw ++ rest) = some .nil ↔ item.kind = .scalar .nil) ∧
      headType (item.raw ++ rest) ≠ none

section WithKey

variable {stale : Decimal → Double → Int → Int} {keyDef : KeyDef} {t : Tuple} {part : KeyPart}
  {parts : List KeyPart} {key : Position}

abbrev keyRows (parts : List KeyPart) (t : Tuple) (key : Position) : List Row :=
  rows parts (parts.map (partItem t)) key

lemma keyRows_nil (parts : List KeyPart) (t : Tuple) : keyRows parts t [] = [] := by
  cases parts <;> simp [keyRows, rows]

lemma keyFits_length (h : KeyFits parts key) : key.length ≤ parts.length := by
  induction parts generalizing key with
  | nil =>
    cases key with
    | nil => simp
    | cons item key => exact h.elim
  | cons part parts ih =>
    cases key with
    | nil => simp
    | cons item key => simpa using ih h.2

lemma keyFits_take (n : Nat) (h : KeyFits parts key) : KeyFits (parts.take n) (key.take n) := by
  induction n generalizing parts key with
  | zero => trivial
  | succ n ih =>
    cases key with
    | nil => simp [KeyFits]
    | cons item key =>
      cases parts with
      | nil => exact h.elim
      | cons part parts => exact ⟨h.1, ih h.2⟩

lemma keyFits_drop (n : Nat) (h : KeyFits parts key) : KeyFits (parts.drop n) (key.drop n) := by
  induction n generalizing parts key with
  | zero => simpa using h
  | succ n ih =>
    cases key with
    | nil => simp [KeyFits]
    | cons item key =>
      cases parts with
      | nil => exact h.elim
      | cons part parts => exact ih h.2

lemma withKeyLoop_eq (ht : t.ValidFor keyDef) (hpr : ∀ p ∈ parts, p ∈ keyDef.parts)
    (hk : KeyFits parts key) :
    withKeyLoop stale keyDef t (parts.take key.length) key =
      some (lexicographic stale (keyRows parts t key)) := by
  induction parts generalizing key with
  | nil => cases key <;> simp [withKeyLoop, rows, lexicographic, lex]
  | cons part parts ih =>
    cases key with
    | nil => simp [withKeyLoop, rows, lexicographic, lex]
    | cons item key =>
      obtain ⟨⟨w, hw, hwb⟩, hk⟩ := hk
      have hpa := hpr part List.mem_cons_self
      have hx := fieldValue_lookup ht hpa keyDef.hasOptionalParts
        (hasOptionalParts_of_absent ht hpa)
      have hc : comparePart stale keyDef.isNullable part (itemValue (partItem t part)) w =
          compareRow stale (part, itemValue (partItem t part), w) :=
        comparePart_eq (part_compat ht hpa) hwb (isNullable_of_part hpa)
      obtain ⟨hy, hn, hi⟩ := scalarAt_cons hw key
      have hr := ih (fun p hp => hpr p (List.mem_cons_of_mem _ hp)) hk
      rw [keyRows, List.map_cons, rows, hi, lexicographic_cons]
      simp only [List.length_cons, List.take_succ_cons, withKeyLoop, hx, hy, hn,
        bind_eq_bind, bind_some, hc, hr]
      split <;> rfl

/-- A precompiled comparator may be made for more parts than the key has. -/
lemma fieldsCompareWithKey_eq {ts : Position} (rt : Position) {sig : Signature} {fldId : Nat}
    (ht : KeyFits parts ts) (hl : ts.length = parts.length) (hk : KeyFits parts key)
    (hne : key ≠ []) (hpl : ∀ p ∈ parts, Plain p)
    (hs : sig.take parts.length = parts.map fun p => (p.fieldno, p.type))
    (hcons : consecutive (sig.map Prod.fst)) :
    fieldsCompareWithKey stale t (fldId + key.length) fldId sig key (ts ++ rt) =
      some (lexicographic stale (rows parts ts key)) := by
  induction parts generalizing ts sig key fldId with
  | nil =>
    cases key with
    | nil => exact absurd rfl hne
    | cons item key => exact hk.elim
  | cons part parts ih =>
    obtain ⟨item, key, rfl⟩ := List.exists_cons_of_ne_nil hne
    obtain ⟨x, ts, rfl⟩ := List.exists_cons_of_length_eq_add_one hl
    obtain ⟨⟨v, hv, hvt⟩, ht⟩ := ht
    obtain ⟨⟨w, hw, hwk⟩, hk⟩ := hk
    obtain ⟨hn, hco⟩ := hpl part List.mem_cons_self
    have hcm : fieldCompare stale part.type _ _ = _ :=
      fieldCompare_eq hv hw hvt hwk hn hco (ts ++ rt) key
    obtain ⟨-, hnx, hi⟩ := scalarAt_cons hv (ts ++ rt)
    obtain ⟨-, hny, hiy⟩ := scalarAt_cons hw key
    rw [rows, hi, hiy, lexicographic_cons]
    cases sig with
    | nil => cases hs
    | cons entry sig =>
      simp only [List.length_cons, List.take_succ_cons, List.map_cons, List.cons.injEq] at hs
      obtain ⟨rfl, hs⟩ := hs
      cases sig with
      | nil =>
        -- no further part
        have hni : parts = [] := by
          cases parts with
          | nil => rfl
          | cons q parts => cases hs
        subst hni
        have hkn : key = [] := by
          cases key with
          | nil => rfl
          | cons i key => exact hk.elim
        subst hkn
        rw [fieldsCompareWithKey, List.cons_append, hcm]
        by_cases hrc : compareRow stale (part, v, w) = 0 <;> simp [rows, lexicographic, lex, hrc]
      | cons entry sig =>
        obtain ⟨idx, type⟩ := entry
        simp only [List.map_cons, consecutive, Bool.and_eq_true, decide_eq_true_eq] at hcons
        rw [fieldsCompareWithKey, List.cons_append, hcm]
        simp only [bind_eq_bind, bind_some, List.length_cons]
        by_cases hrc : compareRow stale (part, v, w) = 0
        · cases key with
          | nil => simp [hrc, rows, lexicographic, lex]
          | cons k key =>
            have hr := @ih (k :: key) ts ((idx, type) :: sig) (fldId + 1) ht
              (by simpa using hl) hk (by simp)
              (fun p hp => hpl p (List.mem_cons_of_mem _ hp)) hs hcons.2
            have hc : fldId + (key.length + 1 + 1) = fldId + 1 + (k :: key).length := by
              rw [List.length_cons]
              omega
            rw [if_neg (by simp [hrc])]
            simp only [hcons.1, if_true, hnx, hny, bind_some, hrc, ne_eq, not_true, if_false]
            rw [← hr, ← hc]
            rfl
        · simp [hrc]

lemma consecutive_take {fs : List Nat} (n : Nat) (h : consecutive fs) :
    consecutive (fs.take n) := by
  induction fs generalizing n with
  | nil => simp [consecutive]
  | cons f fs ih =>
    cases fs with
    | nil => cases n <;> simp [consecutive]
    | cons g fs =>
      simp only [consecutive, Bool.and_eq_true, decide_eq_true_eq] at h
      rcases n with _ | _ | n
      · rfl
      · rfl
      · simpa [consecutive, h.1] using ih (n + 1) h.2

lemma tupleCompareWithKeyPrecompiled_eq (ht : t.ValidFor keyDef)
    (hk : KeyFits keyDef.parts key) (hn : key ≠ []) {sig : Signature}
    (hs : keyDef.signatureWithKey = some sig) (tHint keyHint : Nat) :
    tupleCompareWithKeyPrecompiled stale sig tHint keyHint t key =
      hinted tHint keyHint (some (lexicographic stale (keyRows keyDef.parts t key))) := by
  unfold KeyDef.signatureWithKey at hs
  split at hs
  swap
  · cases hs
  next hf =>
  have hta : sig.take keyDef.parts.length = keyDef.signature := by
    simpa using List.find?_some hs
  have hcons := consecutive_of_cmpWkArr sig (List.mem_of_find?_eq_some hs)
  have hpl := plain_of_fast hf
  have hcons' : consecutive (keyDef.parts.map (·.fieldno)) := by
    have h := consecutive_take keyDef.parts.length hcons
    rw [← List.map_take, hta] at h
    simpa [KeyDef.signature, Function.comp_def] using h
  rw [tupleCompareWithKeyPrecompiled, if_neg (by simpa using hn)]
  congr 1
  cases hpa : keyDef.parts with
  | nil => exact absurd hpa keyDef.parts_ne_nil
  | cons part parts =>
    have hm : ∀ p ∈ part :: parts, p ∈ keyDef.parts := by simp [hpa]
    rw [hpa] at hpl hcons' hk
    obtain ⟨rest, hr⟩ := position_eq ht hm (fun p hp =>
      ⟨(hpl p hp).2, present_of_not_null ht (hm p hp) (hpl p hp).1.1⟩) hcons'
    have hpt := (hpl part List.mem_cons_self).2
    simp only [KeyDef.signature, hpa] at hta
    have hh : sig.head? = some (part.fieldno, part.type) := by
      cases sig with
      | nil => cases hta
      | cons entry sig =>
        simp only [List.length_cons, List.take_succ_cons, List.map_cons, List.cons.injEq] at hta
        rw [List.head?_cons, hta.1]
    simp only [hh, bind_eq_bind, bind_some, firstField_eq ht hpt, hr]
    have h := @fieldsCompareWithKey_eq stale t (part :: parts) key
      ((part :: parts).map (partItem t)) rest sig 0 (extract_fits ht hm) (by simp) hk hn
      (fun p hp => (hpl p hp).1) hta hcons
    rwa [Nat.zero_add] at h

lemma absentAreNil_cases (n : Nat) (bytes : Bytes) {r : Int} (h : absentAreNil n bytes = some r) :
    r = 0 ∨ r = -1 := by
  induction n generalizing bytes with
  | zero =>
    cases h
    exact .inl rfl
  | succ n ih =>
    simp only [absentAreNil, bind_eq_bind, bind_eq_some_iff] at h
    obtain ⟨type, -, h⟩ := h
    split at h
    · cases h
      exact .inr rfl
    · obtain ⟨next, -, h⟩ := bind_eq_some_iff.1 h
      exact ih next h

/-- At the right position of the key the absent parts are compared in the reference order. -/
lemma absentAreNil_eq {as : Position} (ha : ∀ item ∈ as, itemValue item = .nil)
    (hl : as.length = parts.length) (hk : KeyFits parts key)
    (he : ∀ item ∈ key, Encoded item) :
    absentAreNil key.length (key.flatMap (·.raw)) =
      some (lexicographic stale (rows parts as key)) := by
  induction key generalizing parts as with
  | nil => cases parts <;> cases as <;> simp [absentAreNil, rows, lexicographic, lex]
  | cons item key ih =>
    cases parts with
    | nil => exact hk.elim
    | cons part parts =>
      obtain ⟨x, as, rfl⟩ := List.exists_cons_of_length_eq_add_one hl
      obtain ⟨⟨w, hw, hwk⟩, hk⟩ := hk
      obtain ⟨hv, hh⟩ := he item List.mem_cons_self
      obtain ⟨hni, hs⟩ := hh (key.flatMap (·.raw))
      have hr := ih (fun i hi => ha i (List.mem_cons_of_mem _ hi)) (by simpa using hl)
        hk fun i hi => he i (List.mem_cons_of_mem _ hi)
      have hne : MsgPack.mpNext (item.raw ++ key.flatMap (·.raw)) = some (key.flatMap (·.raw)) :=
        hv.check _
      obtain ⟨type, ht⟩ := ne_none_iff_exists'.1 hs
      rw [rows, ha x List.mem_cons_self, (scalarAt_cons hw []).2.2, lexicographic_cons]
      simp only [List.length_cons, absentAreNil, List.flatMap_cons, ht, hne,
        bind_eq_bind, bind_some, hr, compareRow, compareValues, if_true]
      rw [ht] at hni
      simp only [hw, some.injEq, Kind.scalar.injEq] at hni
      by_cases hn : w = .nil
      · simp [hn, hni.2 hn]
      · simp [hn, mt hni.1 hn]

/-- Where `tuple_compare_with_key_sequential` looks for the parts a tuple does not have. -/
def skipped (t : Tuple) (key : Position) : Bytes :=
  (key.flatMap (·.raw)).drop (t.bsize - (mpEncodeArray t.count).length)

/-- The parts of a key that a tuple does not have are looked for where they are. -/
def SkipLands (stale : Decimal → Double → Int → Int) (keyDef : KeyDef) (t : Tuple)
    (key : Position) : Prop :=
  keyDef.isSequential → t.count < key.length →
    lexicographic stale ((keyRows keyDef.parts t key).take t.count) = 0 →
      absentAreNil (key.length - t.count) (skipped t key) =
        absentAreNil (key.length - t.count) ((key.drop t.count).flatMap (·.raw))

/-- The fields of a tuple in their shortest header take the bytes that the parts of the key do. -/
lemma skipLands_of_size (h : t.count < key.length → t.bsize - (mpEncodeArray t.count).length =
    ((key.take t.count).flatMap (·.raw)).length) : SkipLands stale keyDef t key := by
  intro _ hc _
  have hs : key.flatMap (·.raw) =
      (key.take t.count).flatMap (·.raw) ++ (key.drop t.count).flatMap (·.raw) := by
    rw [← List.flatMap_append, List.take_append_drop]
  rw [skipped, h hc, hs, List.drop_left]

lemma Numbered.fieldno_lt {i : Nat} (h : Numbered i parts) :
    ∀ p ∈ parts, p.fieldno < i + parts.length := by
  induction parts generalizing i with
  | nil => simp
  | cons part parts ih =>
    rintro p (⟨⟩ | ⟨_, hp⟩)
    · rw [h.1, List.length_cons]
      omega
    · have := ih h.2.2 p hp
      rw [List.length_cons]
      omega

lemma Numbered.le_fieldno {i : Nat} (h : Numbered i parts) : ∀ p ∈ parts, i ≤ p.fieldno := by
  induction parts generalizing i with
  | nil => simp
  | cons part parts ih =>
    rintro p (⟨⟩ | ⟨_, hp⟩)
    · rw [h.1]
    · have := ih h.2.2 p hp
      omega

lemma absent_iff (hp : part.path = []) : t.fieldByPart part = none ↔ t.count ≤ part.fieldno := by
  rw [Tuple.fieldByPart, hp, Tuple.fieldRaw]
  by_cases h : t.count ≤ part.fieldno
  · simp [h]
  · obtain ⟨pos, hpo, -⟩ := t.skip_lt (n := part.fieldno) (by omega)
    simp [h, hpo, tupleGoToPath]

/-- A sequential definition compares the parts that the tuple has in the reference order. -/
lemma keyCompareParts_present (ht : t.ValidFor keyDef) (hnu : Numbered 0 keyDef.parts)
    (hk : KeyFits keyDef.parts key) {n : Nat} (hn : n ≤ key.length) (hc : n ≤ t.count) :
    keyCompareParts stale keyDef.isNullable (keyDef.parts.take n) t.items key =
      some (lexicographic stale ((keyRows keyDef.parts t key).take n)) := by
  have hl := keyFits_length hk
  have hm : ∀ p ∈ keyDef.parts.take n, p ∈ keyDef.parts := fun _ h => List.mem_of_mem_take h
  have hpr : ∀ p ∈ keyDef.parts.take n, t.fieldByPart p ≠ none := by
    intro p hp
    have hlt := (hnu.take n).fieldno_lt p hp
    rw [List.length_take] at hlt
    rw [Ne, absent_iff ((hnu.take n).path p hp)]
    omega
  obtain ⟨rest, hr⟩ := position_of_at ht (hnu.take n) hm hpr (at_items t)
  have hs : key = key.take n ++ key.drop n := (List.take_append_drop n key).symm
  rw [hr, keyRows, ← rows_take, ← List.map_take]
  nth_rewrite 1 [hs]
  refine keyCompareParts_eq rest _ (extract_fits ht hm) (keyFits_take n hk) (by simp) ?_
    fun p hp => isNullable_of_part (hm p hp)
  rw [List.length_take, List.length_take]
  omega

lemma length_rows_le_min (parts : List KeyPart) (as bs : Position) :
    (rows parts as bs).length ≤ min as.length bs.length := by
  induction bs generalizing parts as with
  | nil => cases parts <;> cases as <;> simp [rows]
  | cons b bs ih =>
    cases parts <;> cases as <;> simp [rows]
    next as => simpa using ih _ as

lemma exists_absent (hn : Numbered 0 keyDef.parts) (hk : KeyFits keyDef.parts key)
    (hc : t.count < key.length) : ∃ part parts, keyDef.parts.drop t.count = part :: parts ∧
      part ∈ keyDef.parts ∧ t.fieldByPart part = none := by
  have hl := keyFits_length hk
  have hn' := hn.drop t.count
  cases hd : keyDef.parts.drop t.count with
  | nil =>
    have := List.drop_eq_nil_iff.1 hd
    omega
  | cons part parts =>
    rw [hd] at hn'
    have hp : part ∈ keyDef.parts := List.mem_of_mem_drop (hd ▸ List.mem_cons_self)
    refine ⟨part, parts, rfl, hp, (absent_iff hn'.2.1).2 ?_⟩
    rw [hn'.1]
    omega

lemma tupleCompareWithKeySequential_eq (ht : t.ValidFor keyDef) (hse : keyDef.isSequential)
    (hk : KeyFits keyDef.parts key) (tHint keyHint : Nat) :
    tupleCompareWithKeySequential stale keyDef tHint keyHint t key = hinted tHint keyHint
        (if t.count < key.length ∧
            lexicographic stale ((keyRows keyDef.parts t key).take t.count) = 0 then
          absentAreNil (key.length - t.count) (skipped t key)
        else some (lexicographic stale (keyRows keyDef.parts t key))) := by
  have hnu := numbered_of_sequential hse
  rw [tupleCompareWithKeySequential]
  congr 1
  by_cases hc : t.count < key.length
  · obtain ⟨part, parts, hd, hp, hn⟩ := exists_absent hnu hk hc
    have ho := hasOptionalParts_of_absent ht hp hn
    have hcm := @keyCompareParts_present stale keyDef t key ht hnu hk t.count hc.le le_rfl
    have hs := lexicographic_split stale t.count (keyRows keyDef.parts t key)
    simp only [ho, hc, and_self, if_true, hcm, bind_eq_bind, bind_some,
      not_true, false_or, true_and]
    by_cases hz : lexicographic stale ((keyRows keyDef.parts t key).take t.count) = 0
    · simp [hz, skipped]
    · simp [hz, hs]
  · have hcm := @keyCompareParts_present stale keyDef t key ht hnu hk key.length le_rfl (by omega)
    rw [List.take_of_length_le ((length_rows_le_min _ _ _).trans (min_le_right _ _))] at hcm
    simp only [hc, and_false, if_false, hcm, bind_eq_bind, bind_some, false_and]
    by_cases hz : lexicographic stale (keyRows keyDef.parts t key) = 0
    · simp [hz]
    · simp [hz]

lemma absentAreNil_drop (stale : Decimal → Double → Int → Int) (hnu : Numbered 0 keyDef.parts)
    (hk : KeyFits keyDef.parts key) (he : ∀ item ∈ key, Encoded item) :
    absentAreNil (key.length - t.count) ((key.drop t.count).flatMap (·.raw)) =
      some (lexicographic stale ((keyRows keyDef.parts t key).drop t.count)) := by
  rw [keyRows, ← rows_drop, ← List.map_drop, ← List.length_drop]
  refine absentAreNil_eq (fun item hi => ?_) (by simp) (keyFits_drop _ hk)
    fun item hi => he item (List.mem_of_mem_drop hi)
  obtain ⟨p, hp, rfl⟩ := List.mem_map.1 hi
  have hnu' := hnu.drop t.count
  have hn : t.fieldByPart p = none := by
    rw [absent_iff (hnu'.path p hp)]
    have := hnu'.le_fieldno p hp
    omega
  simp [partItem, hn, itemValue, nilItem]

/-- A key longer than the tuple meets a nil among the unique parts or has no others. -/
lemma settled_of_absent (ht : t.ValidFor keyDef) (hnu : Numbered 0 keyDef.parts)
    (hke : KeyFits keyDef.parts key) (hc : t.count < key.length) :
    Settled stale keyDef.uniquePartCount (keyRows keyDef.parts t key) := by
  obtain ⟨part, parts, hd, hp, hn⟩ := exists_absent hnu hke hc
  have hl : t.count < keyDef.uniquePartCount := by
    by_contra hge
    have he : part ∈ keyDef.parts.drop keyDef.uniquePartCount := by
      have h : part ∈ (keyDef.parts.drop keyDef.uniquePartCount).drop
          (t.count - keyDef.uniquePartCount) := by
        rw [List.drop_drop, Nat.add_sub_cancel' (by omega), hd]
        exact List.mem_cons_self
      exact List.mem_of_mem_drop h
    exact extended_present ht part he hn
  have hr : ∃ item rest, (keyRows keyDef.parts t key).drop t.count =
      (part, .nil, itemValue item) :: rest := by
    cases hk : key.drop t.count with
    | nil =>
      have := List.drop_eq_nil_iff.1 hk
      omega
    | cons item more =>
      refine ⟨item, rows parts (parts.map (partItem t)) more, ?_⟩
      have hv : itemValue (partItem t part) = .nil := by
        simp [partItem, hn, itemValue, nilItem]
      rw [keyRows, ← rows_drop, ← List.map_drop, hd, hk, List.map_cons, rows, hv]
  obtain ⟨item, rest, hr⟩ := hr
  have hg : (keyRows keyDef.parts t key)[t.count]? = some (part, .nil, itemValue item) := by
    rw [← List.head?_drop, hr, List.head?_cons]
  refine .inr (.inl ⟨(part, .nil, itemValue item), ?_, rfl⟩)
  rw [List.mem_iff_getElem?]
  exact ⟨t.count, by rw [List.getElem?_take_of_lt hl, hg]⟩

end WithKey

/-- Hints, made of the first part, decide only as the first part does. -/
def Truthful (stale : Decimal → Double → Int → Int) (aHint bHint : Nat) (rs : List Row) : Prop :=
  hintCmp aHint bHint ≠ 0 →
    ∃ row rest, rs = row :: rest ∧ (hintCmp aHint bHint).sign = (compareRow stale row).sign

section Agreement

variable {stale : Decimal → Double → Int → Int} {keyDef : KeyDef} {t a b : Tuple}
  {key key' : Position} {aHint bHint : Nat} {rs : List Row}

lemma Truthful.sign_eq (h : Truthful stale aHint bHint rs) (hne : hintCmp aHint bHint ≠ 0) :
    (hintCmp aHint bHint).sign = (lexicographic stale rs).sign ∧
      ∀ n, 0 < n → lexicographic stale (rs.take n) = lexicographic stale rs ∧
        lexicographic stale (rs.take n) ≠ 0 := by
  obtain ⟨row, rest, rfl, hs⟩ := h hne
  have hr : compareRow stale row ≠ 0 := by
    intro h0
    rw [h0, Int.sign_zero, Int.sign_eq_zero_iff_zero] at hs
    exact hne hs
  have hl : lexicographic stale (row :: rest) = compareRow stale row := by
    rw [lexicographic_cons, if_pos hr]
  refine ⟨by rw [hl, hs], fun n hn => ?_⟩
  obtain ⟨m, rfl⟩ := Nat.exists_eq_add_of_lt hn
  rw [Nat.zero_add, List.take_succ_cons, lexicographic_cons, if_pos hr, hl]
  exact ⟨rfl, hr⟩

lemma Truthful.hintCmp_eq_zero (h : Truthful stale aHint bHint (keyRows keyDef.parts t key))
    (hn : key = []) : hintCmp aHint bHint = 0 := by
  by_contra hne
  obtain ⟨row, rest, hr, -⟩ := h hne
  rw [hn, keyRows_nil] at hr
  cases hr

/-- What the hints decide has the sign of the comparison they stand for. -/
lemma hinted_sign {x : Int}
    (h : hintCmp aHint bHint ≠ 0 → (hintCmp aHint bHint).sign = x.sign) {s : Int} :
    (∃ r, hinted aHint bHint (some x) = some r ∧ r.sign = s) ↔ x.sign = s := by
  unfold hinted
  split
  next hn => simp [h hn]
  · simp

lemma tupleOrder_sign (h : Truthful stale aHint bHint rs) (hn : hintCmp aHint bHint ≠ 0) :
    (hintCmp aHint bHint).sign = (tupleOrder stale keyDef rs).sign := by
  obtain ⟨hs, ht⟩ := h.sign_eq hn
  unfold tupleOrder
  split
  · obtain ⟨he, hn'⟩ := ht _ keyDef.unique_pos
    rw [reference, if_pos hn', he, hs]
  · exact hs

lemma tupleCompare_iff (ha : a.ValidFor keyDef) (hb : b.ValidFor keyDef)
    (h : Truthful stale aHint bHint (partRows keyDef.parts a b)) :
    (∃ r, tupleCompare stale keyDef aHint bHint a b = some r ∧
      r.sign = (reference stale keyDef.uniquePartCount (partRows keyDef.parts a b)).sign) ↔
        keyDef.isNullable ∨ Settled stale keyDef.uniquePartCount (partRows keyDef.parts a b) := by
  rw [tupleCompare_eq ha hb, hinted_sign (tupleOrder_sign h), tupleOrder]
  cases hn : keyDef.isNullable with
  | true => simp
  | false => simp [lexicographic_eq_reference_iff]

lemma keyCompare_iff (hk : KeyFits keyDef.parts key) (hk' : KeyFits keyDef.parts key')
    (h : Truthful stale aHint bHint (rows keyDef.parts key key')) :
    (∃ r, keyCompare stale keyDef aHint bHint key key' = some r ∧
      r.sign = (reference stale keyDef.uniquePartCount (rows keyDef.parts key key')).sign) ↔
        Settled stale keyDef.uniquePartCount (rows keyDef.parts key key') := by
  have hl := keyFits_length hk
  have hl' := keyFits_length hk'
  have hc : keyCompareParts stale keyDef.isNullable
      (keyDef.parts.take (min key.length key'.length)) key key' =
        some (lexicographic stale (rows keyDef.parts key key')) := by
    have hm : (rows keyDef.parts key key').take (min key.length key'.length) =
        rows keyDef.parts key key' :=
      List.take_of_length_le (length_rows_le_min _ _ _)
    have he := @keyCompareParts_eq stale (keyDef.parts.take (min key.length key'.length))
      keyDef.isNullable _ _ (key.drop (min key.length key'.length))
      (key'.drop (min key.length key'.length)) (keyFits_take _ hk) (keyFits_take _ hk')
      (by simp; omega) (by simp; omega)
      fun p hp => isNullable_of_part (List.mem_of_mem_take hp)
    rwa [rows_take, hm, List.take_append_drop, List.take_append_drop] at he
  rw [keyCompare, hc, hinted_sign fun hn => (h.sign_eq hn).1, lexicographic_eq_reference_iff]

/-- What the comparators with keys compute. One for a sequential definition takes the parts that the
tuple does not have from where it skips to. -/
def withKeyOrder (stale : Decimal → Double → Int → Int) (keyDef : KeyDef) (t : Tuple)
    (key : Position) : Option Int :=
  if (keyDef.isSequential ∧ t.count < key.length) ∧
      lexicographic stale ((keyRows keyDef.parts t key).take t.count) = 0 then
    absentAreNil (key.length - t.count) (skipped t key)
  else some (lexicographic stale (keyRows keyDef.parts t key))

section

variable (ht : t.ValidFor keyDef) (hk : KeyFits keyDef.parts key)
include ht hk

/-- A tuple that a longer key has parts for is one of a nullable definition. -/
lemma isNullable_of_longer (h : keyDef.isSequential ∧ t.count < key.length) :
    keyDef.isNullable := by
  obtain ⟨part, parts, -, hp, hn⟩ := exists_absent (numbered_of_sequential h.1) hk h.2
  exact isNullable_of_optional (hasOptionalParts_of_absent ht hp hn)

/-- The comparator chosen for tuples and keys, of whatever family, compares them alike. -/
lemma tupleCompareWithKey_eq (hh : key = [] → hintCmp aHint bHint = 0) :
    tupleCompareWithKey stale keyDef aHint bHint t key =
      hinted aHint bHint (withKeyOrder stale keyDef t key) := by
  unfold tupleCompareWithKey
  split
  next sig hsi =>
    have hf : withKeyOrder stale keyDef t key =
        some (lexicographic stale (keyRows keyDef.parts t key)) := by
      refine if_neg fun h => ?_
      have hn := isNullable_of_longer ht hk h.1
      simp [KeyDef.signatureWithKey, KeyDef.isFast, hn] at hsi
    rw [hf]
    by_cases hne : key = []
    · subst hne
      simp [tupleCompareWithKeyPrecompiled, keyRows_nil, lexicographic, lex, hinted, hh]
    · exact tupleCompareWithKeyPrecompiled_eq ht hk hne hsi aHint bHint
  split
  next hs =>
    rw [tupleCompareWithKeySequential_eq ht hs hk]
    simp [withKeyOrder, hs]
  next hs =>
    rw [tupleCompareWithKeySlowpath, withKeyLoop_eq ht (fun _ h => h) hk]
    simp [withKeyOrder, hs]

/-- A comparison with a key is one by all its parts if the skip lands on the right one. -/
lemma tupleCompareWithKey_of_lands (he : ∀ item ∈ key, Encoded item)
    (h : Truthful stale aHint bHint (keyRows keyDef.parts t key))
    (hl : SkipLands stale keyDef t key) :
    ∃ r, tupleCompareWithKey stale keyDef aHint bHint t key = some r ∧
      r.sign = (lexicographic stale (keyRows keyDef.parts t key)).sign := by
  have hf : withKeyOrder stale keyDef t key =
      some (lexicographic stale (keyRows keyDef.parts t key)) := by
    unfold withKeyOrder
    split
    next hs =>
      have hsp := lexicographic_split stale t.count (keyRows keyDef.parts t key)
      rw [hs.2, if_neg (by simp)] at hsp
      rw [hl hs.1.1 hs.1.2 hs.2, absentAreNil_drop stale (numbered_of_sequential hs.1.1) hk he, hsp]
    · rfl
  rw [tupleCompareWithKey_eq ht hk (h.hintCmp_eq_zero), hf]
  exact (hinted_sign fun hn => (h.sign_eq hn).1).2 rfl

/-- Where the skip does not land on the right part the comparison leaves the reference order. -/
lemma tupleCompareWithKey_of_not_lands (he : ∀ item ∈ key, Encoded item)
    (h : Truthful stale aHint bHint (keyRows keyDef.parts t key))
    (hl : ¬SkipLands stale keyDef t key) {r : Int}
    (hr : tupleCompareWithKey stale keyDef aHint bHint t key = some r) :
    r.sign ≠ (reference stale keyDef.uniquePartCount (keyRows keyDef.parts t key)).sign := by
  simp only [SkipLands, Classical.not_imp] at hl
  obtain ⟨hse, hc, hz, hd⟩ := hl
  have hn := numbered_of_sequential hse
  have hh : hintCmp aHint bHint = 0 := by
    by_contra hne
    exact ((h.sign_eq hne).2 t.count ht.count_pos).2 hz
  rw [tupleCompareWithKey_eq ht hk fun _ => hh, hinted, if_neg (not_not.2 hh),
    withKeyOrder, if_pos ⟨⟨hse, hc⟩, hz⟩] at hr
  have hri := absentAreNil_drop stale (t := t) hn hk he
  rw [← (lexicographic_eq_reference_iff stale _ _).2 (settled_of_absent ht hn hk hc)]
  have hs := lexicographic_split stale t.count (keyRows keyDef.parts t key)
  rw [hz, if_neg (by simp)] at hs
  rw [hs]
  intro hsi
  -- both results are zero or minus one
  refine hd ?_
  rw [hr, hri]
  rcases absentAreNil_cases _ _ hr with rfl | rfl <;>
    rcases absentAreNil_cases _ _ hri with h' | h' <;> rw [h'] at hsi ⊢ <;>
    first | rfl | simp at hsi

end

end Agreement

def numberAndOptional : KeyDef where
  parts := [⟨0, .number, none, false, []⟩, ⟨1, .unsigned, none, true, []⟩]
  uniquePartCount := 2
  minFieldCount := 1
  unique_pos := Nat.two_pos
  unique_le := by decide
  extended_not_null := by simp

/-- The tuple `[1]`. -/
def tupleOfOne : Tuple := ⟨[0x91], 1, [uintItem 1], by decide⟩

lemma tupleOfOne_valid : tupleOfOne.ValidFor numberAndOptional where
  count_pos := by decide
  count_ge := by decide
  part := by
    rintro part (⟨⟩ | ⟨_, ⟨⟩ | ⟨_, ⟨⟩⟩⟩)
    · exact ⟨uintItem 1, _, [], rfl, rfl, rfl⟩
    · rfl

/-- The key `[1.0, nil]`. -/
def keyOfDouble : Position := [Scalar.item (.number (.double 0x3ff0000000000000#64)), nilItem]

lemma keyOfDouble_fits : KeyFits numberAndOptional.parts keyOfDouble :=
  ⟨⟨_, rfl, rfl⟩, ⟨_, rfl, rfl⟩, trivial⟩

end TarantoolStorage.Index
