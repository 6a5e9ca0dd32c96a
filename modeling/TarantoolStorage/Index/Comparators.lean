import TarantoolStorage.Index.TupleCompare

/-! The comparators agree with a reference order: lexicographic over the parts, nil least. -/
namespace TarantoolStorage.Index

open Compare MsgPack

def itemValue (item : Item Scalar) : Scalar :=
  match item.kind with
  | .scalar value => value
  | _ => .nil

abbrev Row := KeyPart × Scalar × Scalar

def rows : List KeyPart → Position → Position → List Row
  | part :: parts, a :: as, b :: bs => (part, itemValue a, itemValue b) :: rows parts as bs
  | _, _, _ => []

lemma rows_take (n : Nat) (parts : List KeyPart) (as bs : Position) :
    rows (parts.take n) (as.take n) (bs.take n) = (rows parts as bs).take n := by
  induction n generalizing parts as bs with
  | zero => simp [rows]
  | succ n ih => cases parts <;> cases as <;> cases bs <;> simp [rows, ih]

lemma rows_drop (n : Nat) (parts : List KeyPart) (as bs : Position) :
    rows (parts.drop n) (as.drop n) (bs.drop n) = (rows parts as bs).drop n := by
  induction n generalizing parts as bs with
  | zero => simp
  | succ n ih =>
    cases parts with
    | nil => simp [rows]
    | cons part parts =>
      cases as with
      | nil => cases h : (part :: parts).drop (n + 1) <;> simp [rows]
      | cons a as =>
        cases bs with
        | nil =>
          cases h : (part :: parts).drop (n + 1) <;> cases h' : (a :: as).drop (n + 1) <;>
            simp [rows]
        | cons b bs => simp [rows, ih]

section Reference

variable (stale : Decimal → Double → Int → Int)

/-- The values of a part in the order of its type, nil least. -/
def compareRow (row : Row) : Int :=
  compareValues stale row.1.type true row.1.coll row.2.1 row.2.2

def lexicographic (rs : List Row) : Int := lex (rs.map (compareRow stale))

/-- The reference order: the parts beyond the unique ones count only if a nil was met. -/
def reference (unique : Nat) (rs : List Row) : Int :=
  if lexicographic stale (rs.take unique) ≠ 0 then lexicographic stale (rs.take unique)
  else if ∃ row ∈ rs.take unique, row.2.1 = .nil then lexicographic stale (rs.drop unique)
  else 0

/-- The parts beyond the unique ones make no difference that the reference order ignores. -/
def Settled (unique : Nat) (rs : List Row) : Prop :=
  lexicographic stale (rs.take unique) ≠ 0 ∨ (∃ row ∈ rs.take unique, row.2.1 = .nil) ∨
    lexicographic stale (rs.drop unique) = 0

lemma lexicographic_cons (row : Row) (rs : List Row) : lexicographic stale (row :: rs) =
    if compareRow stale row ≠ 0 then compareRow stale row else lexicographic stale rs := rfl

lemma lexicographic_split (n : Nat) (rs : List Row) : lexicographic stale rs =
    if lexicographic stale (rs.take n) ≠ 0 then lexicographic stale (rs.take n)
    else lexicographic stale (rs.drop n) := by
  conv_lhs => rw [← rs.take_append_drop n, lexicographic, List.map_append, lex_append]
  rfl

/-- The order by all parts is the reference order exactly on settled rows. -/
lemma lexicographic_eq_reference_iff (unique : Nat) (rs : List Row) :
    (lexicographic stale rs).sign = (reference stale unique rs).sign ↔ Settled stale unique rs := by
  rw [lexicographic_split stale unique rs, reference, Settled]
  by_cases hf : lexicographic stale (rs.take unique) ≠ 0
  · simp [hf]
  · by_cases hn : ∃ row ∈ rs.take unique, row.2.1 = .nil
    · simp [hf, hn]
    · simp [hf, hn]

end Reference

/-- A key, full or partial, of scalars that its parts admit. -/
def KeyFits : List KeyPart → Position → Prop
  | _, [] => True
  | part :: parts, item :: key =>
    (∃ value, item.kind = .scalar value ∧
      fieldMpTypeIsCompatible part.type value part.isNullable) ∧ KeyFits parts key
  | [], _ :: _ => False

section Parts

variable {stale : Decimal → Double → Int → Int} {part : KeyPart} {parts : List KeyPart}
  {a b : Scalar} {isNullable : Bool}

section

variable (ha : fieldMpTypeIsCompatible part.type a part.isNullable)
include ha

lemma tupleCompareFieldWithType_eq
    (hb : fieldMpTypeIsCompatible part.type b part.isNullable) :
    tupleCompareFieldWithType stale part.type part.coll a b =
      tupleCompareField stale part.type part.coll a b := by
  unfold tupleCompareFieldWithType
  split
  next hd =>
    rw [hd] at ha hb ⊢
    rename_i x y
    cases x <;> cases y <;> simp [fieldMpTypeIsCompatible] at ha hb
    next d e =>
      simp only [mpCompareNumber, mpCompareDecimalAnyNumber, tupleCompareField, decimalCompare]
      rw [compareResult_swap]
      omega
  · rfl

/-- The comparators of nullable and other definitions compare the values of a part alike. -/
lemma comparePart_eq
    (hb : fieldMpTypeIsCompatible part.type b part.isNullable)
    (hnu : part.isNullable → isNullable) :
    comparePart stale isNullable part a b = compareRow stale (part, a, b) := by
  have hni {c : Scalar} (hc : fieldMpTypeIsCompatible part.type c part.isNullable)
      (h : isNullable = false) : c ≠ .nil := by
    rintro rfl
    have : part.isNullable = true := by
      cases ht : part.type <;> simpa [fieldMpTypeIsCompatible, ht] using hc
    simp [hnu this] at h
  unfold comparePart compareRow compareValues
  cases hn : isNullable with
  | true => simp [tupleCompareFieldWithType_eq ha hb]
  | false => simp [hni ha hn, hni hb hn]

end

lemma scalarAt_cons {item : Item Scalar} {value : Scalar} (h : item.kind = .scalar value)
    (rest : Position) : scalarAt (item :: rest) = some value ∧
      mpNext (item :: rest) = some rest ∧ itemValue item = value := by
  obtain ⟨raw, kind⟩ := item
  obtain rfl : kind = .scalar value := h
  exact ⟨rfl, by simp [mpNext, skipItems, Kind.nested], rfl⟩

/-- Whole parts are compared in the reference order, whatever follows them. -/
lemma keyCompareParts_eq {as bs : Position} (ra rb : Position) (ha : KeyFits parts as)
    (hb : KeyFits parts bs) (hl : as.length = parts.length) (hlb : bs.length = parts.length)
    (hn : ∀ p ∈ parts, p.isNullable → isNullable) :
    keyCompareParts stale isNullable parts (as ++ ra) (bs ++ rb) =
      some (lexicographic stale (rows parts as bs)) := by
  induction parts generalizing as bs with
  | nil => simp [keyCompareParts, rows, lexicographic, lex]
  | cons part parts ih =>
    obtain ⟨x, as, rfl⟩ := List.exists_cons_of_length_eq_add_one hl
    obtain ⟨y, bs, rfl⟩ := List.exists_cons_of_length_eq_add_one hlb
    obtain ⟨⟨v, hv, hva⟩, ha⟩ := ha
    obtain ⟨⟨w, hw, hwb⟩, hb⟩ := hb
    obtain ⟨hx, hnx, hi⟩ := scalarAt_cons hv (as ++ ra)
    obtain ⟨hy, hny, hiy⟩ := scalarAt_cons hw (bs ++ rb)
    have hr := ih ha hb (by simpa using hl) (by simpa using hlb)
      fun p hp => hn p (List.mem_cons_of_mem _ hp)
    have hc : comparePart stale isNullable part v w = compareRow stale (part, v, w) :=
      comparePart_eq hva hwb (hn part List.mem_cons_self)
    simp only [List.cons_append, keyCompareParts, hx, hy, hnx, hny, Option.bind_eq_bind,
      Option.bind_some, hr, hc, rows, hi, hiy, lexicographic, List.map_cons, lex]
    split <;> rfl

end Parts

section Tuples

variable {stale : Decimal → Double → Int → Int} {keyDef : KeyDef} {t a b : Tuple} {part : KeyPart}
  {parts : List KeyPart} {i : Nat} {pos : Position}

lemma extract_fits (ht : t.ValidFor keyDef) (hpa : ∀ p ∈ parts, p ∈ keyDef.parts) :
    KeyFits parts (parts.map (partItem t)) := by
  induction parts with
  | nil => trivial
  | cons part parts ih =>
    refine ⟨?_, ih fun p hp => hpa p (List.mem_cons_of_mem _ hp)⟩
    rcases ht.part_cases (hpa part List.mem_cons_self) with
      ⟨-, hi, hn⟩ | ⟨item, value, rest, -, hk, hi, hc⟩
    · refine ⟨.nil, by rw [hi]; rfl, ?_⟩
      cases part.type <;> exact hn
    · exact ⟨value, by rw [hi, hk], hc⟩

lemma fieldValue_lookup (ht : t.ValidFor keyDef) (hp : part ∈ keyDef.parts) (optional : Bool)
    (h : t.fieldByPart part = none → optional) :
    fieldValue optional (lookup keyDef t part) = some (itemValue (partItem t part)) := by
  rw [lookup_eq hp]
  rcases ht.part_cases hp with ⟨hn, hi, -⟩ | ⟨item, value, rest, hs, hk, hi, -⟩
  · rw [hn, hi]
    simp [fieldValue, h hn, itemValue, nilItem]
  · obtain ⟨ha, -, hv⟩ := scalarAt_cons hk rest
    rw [hs, hi, hv]
    exact ha

lemma part_compat (ht : t.ValidFor keyDef) (hp : part ∈ keyDef.parts) :
    fieldMpTypeIsCompatible part.type (itemValue (partItem t part)) part.isNullable := by
  have hf : KeyFits [part] ([part].map (partItem t)) := extract_fits ht (by simpa using hp)
  obtain ⟨⟨value, hk, hc⟩, -⟩ := hf
  rwa [(scalarAt_cons hk []).2.2]

lemma isNullable_of_part (hp : part ∈ keyDef.parts) (h : part.isNullable) : keyDef.isNullable :=
  List.any_eq_true.2 ⟨part, hp, h⟩

abbrev partRows (parts : List KeyPart) (a b : Tuple) : List Row :=
  rows parts (parts.map (partItem a)) (parts.map (partItem b))

/-- The loop of the slow path finds the first difference, or whether a nil was met. -/
lemma slowpathLoop_eq (ha : a.ValidFor keyDef) (hb : b.ValidFor keyDef)
    (isNullable optional : Bool) (hpr : ∀ p ∈ parts, p ∈ keyDef.parts)
    (hn : ∀ p ∈ parts, p.isNullable → isNullable)
    (ho : ∀ p ∈ parts, a.fieldByPart p = none ∨ b.fieldByPart p = none → optional)
    (wasNullMet : Bool) :
    ∃ met, slowpathLoop stale keyDef isNullable optional a b parts wasNullMet =
        some (lexicographic stale (partRows parts a b), met) ∧
      (lexicographic stale (partRows parts a b) = 0 → (met = true ↔
        wasNullMet ∨ isNullable ∧ ∃ row ∈ partRows parts a b, row.2.1 = .nil)) := by
  induction parts generalizing wasNullMet with
  | nil => exact ⟨wasNullMet, by simp [slowpathLoop, partRows, rows, lexicographic, lex]⟩
  | cons part parts ih =>
    have hpa := hpr part List.mem_cons_self
    have hx := fieldValue_lookup ha hpa optional fun h => ho part List.mem_cons_self (.inl h)
    have hy := fieldValue_lookup hb hpa optional fun h => ho part List.mem_cons_self (.inr h)
    have hc := @comparePart_eq stale part _ _ isNullable (part_compat ha hpa) (part_compat hb hpa)
      (hn part List.mem_cons_self)
    obtain ⟨met, hl, hm⟩ := ih (fun p hp => hpr p (List.mem_cons_of_mem _ hp))
      (fun p hp => hn p (List.mem_cons_of_mem _ hp))
      (fun p hp => ho p (List.mem_cons_of_mem _ hp))
      (wasNullMet || isNullable && decide (itemValue (partItem a part) = .nil))
    simp only [slowpathLoop, hx, hy, Option.bind_eq_bind, Option.bind_some, hc, partRows,
      List.map_cons, rows, lexicographic, lex]
    by_cases hr : compareRow stale (part, itemValue (partItem a part),
        itemValue (partItem b part)) = 0
    · refine ⟨met, ?_, fun hz => ?_⟩
      · simpa [hr, partRows, lexicographic] using hl
      · rw [hm (by simpa [hr, lexicographic] using hz)]
        simp only [Bool.or_eq_true, Bool.and_eq_true, decide_eq_true_eq, List.mem_cons,
          exists_eq_or_imp]
        rw [or_assoc, ← and_or_left]
    · exact ⟨wasNullMet, by simp [hr], fun hz => absurd hz (by simp [hr])⟩

/-- What the comparators of tuples compute: without nullable parts they use all of them. -/
def tupleOrder (stale : Decimal → Double → Int → Int) (keyDef : KeyDef) (rs : List Row) : Int :=
  if keyDef.isNullable then reference stale keyDef.uniquePartCount rs else lexicographic stale rs

lemma partRows_take (n : Nat) : partRows (parts.take n) a b = (partRows parts a b).take n := by
  simp [partRows, rows_take]

lemma partRows_drop (n : Nat) : partRows (parts.drop n) a b = (partRows parts a b).drop n := by
  simp [partRows, rows_drop]

section

variable (ht : t.ValidFor keyDef)
include ht

lemma present_of_not_null (hp : part ∈ keyDef.parts)
    (h : part.isNullable = false) : t.fieldByPart part ≠ none := by
  intro hno
  rcases ht.part_cases hp with ⟨-, -, hn⟩ | ⟨item, value, rest, hs, -⟩
  · rw [h] at hn
    cases hn
  · rw [hno] at hs
    cases hs

lemma extended_present :
    ∀ p ∈ keyDef.parts.drop keyDef.uniquePartCount, t.fieldByPart p ≠ none := by
  intro p hp
  exact present_of_not_null ht (List.mem_of_mem_drop hp) (keyDef.extended_not_null p hp)

lemma fieldByPart_first (hn : part.fieldno = 0) (hp : part.path = []) :
    t.fieldByPart part = some t.items := by
  have hpo := ht.count_pos
  rw [Tuple.fieldByPart, hn, hp, Tuple.fieldRaw, if_neg (by omega), skipItems_zero]
  rfl

lemma scalarAt_items (hp : part ∈ keyDef.parts)
    (hn : part.fieldno = 0) (hpa : part.path = []) :
    scalarAt t.items = some (itemValue (partItem t part)) := by
  have hf := fieldByPart_first ht hn hpa
  have hv := fieldValue_lookup ht hp false fun h => by
    rw [hf] at h
    cases h
  rwa [lookup_eq hp, hf] at hv

end

lemma lexicographic_singleton (row : Row) : lexicographic stale [row] = compareRow stale row := by
  by_cases h : compareRow stale row = 0 <;> simp [lexicographic, lex, h]

lemma tupleCompareSlowpath_eq (ha : a.ValidFor keyDef) (hb : b.ValidFor keyDef)
    (aHint bHint : Nat) :
    tupleCompareSlowpath stale keyDef aHint bHint a b =
      hinted aHint bHint (some (tupleOrder stale keyDef (partRows keyDef.parts a b))) := by
  rw [tupleCompareSlowpath]
  congr 1
  split
  next ho =>
    -- a single part in the first field
    obtain ⟨part, hpr⟩ := List.length_eq_one_iff.1 ho.1
    have hpa : part ∈ keyDef.parts := by simp [hpr]
    obtain ⟨hno, hpt⟩ := ho.2 part hpa
    have hu : keyDef.uniquePartCount = 1 := by
      have hle := keyDef.unique_le
      have hpo := keyDef.unique_pos
      omega
    have hc := @comparePart_eq stale part _ _ keyDef.isNullable (part_compat ha hpa)
      (part_compat hb hpa)
      (isNullable_of_part hpa)
    simp only [scalarAt_items ha hpa hno hpt, scalarAt_items hb hpa hno hpt, hpr,
      List.head?_cons, Option.bind_eq_bind, Option.bind_some, hc, tupleOrder, hu, reference,
      partRows, List.map_cons, List.map_nil, rows, List.take_succ_cons, List.take_zero,
      List.drop_succ_cons, List.drop_nil, lexicographic_singleton]
    split
    · split
      · rfl
      next h =>
        rw [not_not.1 h]
        simp [lexicographic, lex]
    · rfl
  next =>
    have hop (p : KeyPart) (hp : p ∈ keyDef.parts)
        (h : a.fieldByPart p = none ∨ b.fieldByPart p = none) : keyDef.hasOptionalParts := by
      rcases h with h | h
      · exact hasOptionalParts_of_absent ha hp h
      · exact hasOptionalParts_of_absent hb hp h
    cases hn : keyDef.isNullable with
    | false =>
      obtain ⟨met, hl, -⟩ := @slowpathLoop_eq stale keyDef a b keyDef.parts ha hb false
        keyDef.hasOptionalParts (fun _ h => h)
        (fun p hp h => by simp [isNullable_of_part hp h] at hn) hop false
      simp [hl, tupleOrder, hn]
    | true =>
      obtain ⟨met, hl, hme⟩ := @slowpathLoop_eq stale keyDef a b
        (keyDef.parts.take keyDef.uniquePartCount) ha hb true keyDef.hasOptionalParts
        (fun _ h => List.mem_of_mem_take h) (fun _ _ _ => rfl)
        (fun p hp => hop p (List.mem_of_mem_take hp)) false
      obtain ⟨met', hl', -⟩ := @slowpathLoop_eq stale keyDef a b
        (keyDef.parts.drop keyDef.uniquePartCount) ha hb false false
        (fun _ h => List.mem_of_mem_drop h)
        (fun p hp h => by simp [keyDef.extended_not_null p hp] at h)
        (fun p hp h => by
          rcases h with h | h
          · exact absurd h (extended_present ha p hp)
          · exact absurd h (extended_present hb p hp)) false
      rw [partRows_take] at hl hme
      rw [partRows_drop] at hl'
      simp only [hl, hl', tupleOrder, hn, reference, Option.bind_eq_bind, Option.bind_some,
        if_true, true_and, Option.map_some]
      by_cases hz : lexicographic stale
          ((partRows keyDef.parts a b).take keyDef.uniquePartCount) = 0
      · have hi := hme hz
        simp only [Bool.false_eq_true, true_and, false_or] at hi
        by_cases hm : met = true
        · simp [hz, hm, hi.1 hm]
        · simp [hz, hm, mt hi.2 hm]
      · simp [hz]

/-- Top-level parts of consecutive fields from field `i` on. -/
def Numbered : Nat → List KeyPart → Prop
  | _, [] => True
  | i, part :: parts => part.fieldno = i ∧ part.path = [] ∧ Numbered (i + 1) parts

lemma Numbered.take (n : Nat) (h : Numbered i parts) : Numbered i (parts.take n) := by
  induction parts generalizing i n with
  | nil => simpa using h
  | cons part parts ih =>
    cases n with
    | zero => trivial
    | succ n => exact ⟨h.1, h.2.1, ih n h.2.2⟩

lemma Numbered.drop (n : Nat) (h : Numbered i parts) : Numbered (i + n) (parts.drop n) := by
  induction n generalizing i parts with
  | zero => simpa using h
  | succ n ih =>
    cases parts with
    | nil => trivial
    | cons part parts =>
      rw [List.drop_succ_cons, Nat.add_comm n, ← Nat.add_assoc]
      exact ih h.2.2

lemma Numbered.consecutive (h : Numbered i parts) : consecutive (parts.map (·.fieldno)) := by
  induction parts generalizing i with
  | nil => rfl
  | cons part parts ih =>
    cases parts with
    | nil => rfl
    | cons q parts =>
      obtain ⟨hp, -, hr⟩ := h
      have hq := hr.1
      simpa [Index.consecutive, hp, hq] using ih hr

lemma Numbered.path (h : Numbered i parts) : ∀ p ∈ parts, p.path = [] := by
  induction parts generalizing i with
  | nil => simp
  | cons part parts ih =>
    rintro p (⟨⟩ | ⟨_, hp⟩)
    · exact h.2.1
    · exact ih h.2.2 p hp

lemma numbered_of_map (hpa : ∀ p ∈ parts, p.path = [])
    (hn : parts.map (·.fieldno) = List.range' i parts.length) : Numbered i parts := by
  induction parts generalizing i with
  | nil => trivial
  | cons part parts ih =>
    simp only [List.map_cons, List.length_cons, List.range'_succ, List.cons.injEq] at hn
    exact ⟨hn.1, hpa part List.mem_cons_self,
      ih (fun p hp => hpa p (List.mem_cons_of_mem _ hp)) hn.2⟩

lemma numbered_of_sequential (h : keyDef.isSequential) : Numbered 0 keyDef.parts := by
  simp only [KeyDef.isSequential, Bool.and_eq_true, Bool.not_eq_true', decide_eq_true_eq,
    KeyDef.hasJsonPaths, List.any_eq_false] at h
  exact numbered_of_map (fun p hp => by simpa using h.1 p hp)
    (by simpa [List.range_eq_range'] using h.2)

/-- A position is that of a field, if the tuple has the field. -/
def At (t : Tuple) (i : Nat) (pos : Position) : Prop :=
  i < t.count → skipItems i t.items = some pos

lemma at_items (t : Tuple) : At t 0 t.items := fun _ => skipItems_zero _

lemma fieldByPart_at (ha : At t i pos) (hn : part.fieldno = i) (hp : part.path = []) :
    t.count ≤ i ∧ t.fieldByPart part = none ∨ i < t.count ∧ t.fieldByPart part = some pos := by
  rw [Tuple.fieldByPart, hn, hp, Tuple.fieldRaw]
  by_cases h : t.count ≤ i
  · exact .inl ⟨h, by simp [h]⟩
  · exact .inr ⟨by omega, by rw [if_neg h, ha (by omega)]; rfl⟩

/-- A part of a sequential definition at its position, and the position after it. -/
lemma sequential_step (ht : t.ValidFor keyDef) (hp : part ∈ keyDef.parts) (ha : At t i pos)
    (hno : part.fieldno = i) (hpa : part.path = []) :
    sequentialValue keyDef t.count i pos = some (itemValue (partItem t part)) ∧
      ∃ next, sequentialNext keyDef t.count i pos = some next ∧ At t (i + 1) next := by
  unfold sequentialValue sequentialNext
  rcases fieldByPart_at ha hno hpa with ⟨hc, hn⟩ | ⟨hc, hs⟩
  · have ho := hasOptionalParts_of_absent ht hp hn
    rcases ht.part_cases hp with ⟨-, hi, -⟩ | ⟨item, value, rest, hs, -⟩
    · refine ⟨?_, pos, ?_, fun h => absurd h (by omega)⟩
      · simp [ho, hc, hi, itemValue, nilItem]
      · rw [if_neg (by simp [ho]; omega)]
    · rw [hn] at hs
      cases hs
  · rcases ht.part_cases hp with ⟨hn, -⟩ | ⟨item, value, rest, hs', hk, hi, -⟩
    · rw [hs] at hn
      cases hn
    obtain rfl : pos = item :: rest := Option.some.inj (hs.symm.trans hs')
    obtain ⟨hsc, hne, hv⟩ := scalarAt_cons hk rest
    refine ⟨?_, rest, ?_, fun _ => ?_⟩
    · rw [if_neg (by omega), hsc, hi, hv]
    · rw [if_pos (.inr hc), hne]
    · rw [skipItems_add, ha hc]
      exact hne

lemma sequentialLoop_eq (ha : a.ValidFor keyDef) (hb : b.ValidFor keyDef) {i : Nat}
    (hnu : Numbered i parts) (hpr : ∀ p ∈ parts, p ∈ keyDef.parts) {posA posB : Position}
    (hat : At a i posA) (hab : At b i posB) (wasNullMet : Bool) :
    ∃ met posA' posB', sequentialLoop stale keyDef a.count b.count parts i posA posB wasNullMet =
        some (lexicographic stale (partRows parts a b), met, posA', posB') ∧
      (lexicographic stale (partRows parts a b) = 0 →
        (met = true ↔ wasNullMet ∨ ∃ row ∈ partRows parts a b, row.2.1 = .nil) ∧
          At a (i + parts.length) posA' ∧ At b (i + parts.length) posB') := by
  induction parts generalizing i posA posB wasNullMet with
  | nil =>
    refine ⟨wasNullMet, posA, posB, by simp [sequentialLoop, partRows, rows, lexicographic, lex],
      fun _ => ⟨by simp [partRows, rows], hat, hab⟩⟩
  | cons part parts ih =>
    obtain ⟨hno, hpt, hnu⟩ := hnu
    have hpa := hpr part List.mem_cons_self
    obtain ⟨hx, nextA, hn, hat⟩ := sequential_step ha hpa hat hno hpt
    obtain ⟨hy, nextB, hne, hab⟩ := sequential_step hb hpa hab hno hpt
    have hc := @comparePart_eq stale part _ _ true (part_compat ha hpa) (part_compat hb hpa)
      (fun _ => rfl)
    obtain ⟨met, posA', posB', hl, hm⟩ := ih hnu
      (fun p hp => hpr p (List.mem_cons_of_mem _ hp)) hat hab
      (wasNullMet || decide (itemValue (partItem a part) = .nil))
    simp only [sequentialLoop, hx, hy, hn, hne, Option.bind_eq_bind, Option.bind_some, hc,
      partRows, List.map_cons, rows, lexicographic, lex]
    by_cases hr : compareRow stale (part, itemValue (partItem a part),
        itemValue (partItem b part)) = 0
    · refine ⟨met, posA', posB', ?_, fun hz => ?_⟩
      · simpa [hr, partRows, lexicographic] using hl
      · obtain ⟨hm, hA, hB⟩ := hm (by simpa [hr, lexicographic] using hz)
        rw [List.length_cons, Nat.add_comm parts.length, ← Nat.add_assoc]
        refine ⟨?_, hA, hB⟩
        rw [hm]
        simp only [Bool.or_eq_true, decide_eq_true_eq, List.mem_cons, exists_eq_or_imp]
        rw [or_assoc]
    · exact ⟨wasNullMet, posA, posB, by simp [hr], fun hz => absurd hz (by simp [hr])⟩

lemma position_of_at (ht : t.ValidFor keyDef) (hnu : Numbered i parts)
    (hpa : ∀ p ∈ parts, p ∈ keyDef.parts) (hpr : ∀ p ∈ parts, t.fieldByPart p ≠ none)
    (ha : At t i pos) : ∃ rest, pos = parts.map (partItem t) ++ rest := by
  cases parts with
  | nil => exact ⟨pos, rfl⟩
  | cons part parts =>
    obtain ⟨rest, hr⟩ := position_eq ht hpa (fun p hp => ⟨hnu.path p hp, hpr p hp⟩) hnu.consecutive
    rcases fieldByPart_at ha hnu.1 hnu.2.1 with ⟨-, hn⟩ | ⟨-, hs⟩
    · exact absurd hn (hpr part List.mem_cons_self)
    · exact ⟨rest, Option.some.inj (hs.symm.trans hr)⟩

lemma keyCompareParts_fields (ha : a.ValidFor keyDef) (hb : b.ValidFor keyDef) {i : Nat}
    (hnu : Numbered i parts) (hpa : ∀ p ∈ parts, p ∈ keyDef.parts)
    (hn : ∀ p ∈ parts, p.isNullable = false) {posA posB : Position} (hat : At a i posA)
    (hab : At b i posB) :
    keyCompareParts stale false parts posA posB =
      some (lexicographic stale (partRows parts a b)) := by
  obtain ⟨ra, rfl⟩ := position_of_at ha hnu hpa
    (fun p hp => present_of_not_null ha (hpa p hp) (hn p hp)) hat
  obtain ⟨rb, rfl⟩ := position_of_at hb hnu hpa
    (fun p hp => present_of_not_null hb (hpa p hp) (hn p hp)) hab
  exact keyCompareParts_eq ra rb (extract_fits ha hpa) (extract_fits hb hpa) (by simp)
    (by simp) fun p hp h => by simp [hn p hp] at h

lemma not_null_of_not (h : keyDef.isNullable = false) :
    ∀ p ∈ keyDef.parts, p.isNullable = false := by
  intro p hp
  cases hn : p.isNullable with
  | false => rfl
  | true => simp [isNullable_of_part hp hn] at h

lemma isNullable_of_optional (h : keyDef.hasOptionalParts) : keyDef.isNullable := by
  obtain ⟨p, hp, ha⟩ := List.any_eq_true.1 h
  exact isNullable_of_part hp (Bool.and_eq_true_iff.1 ha).2

lemma tupleCompareSequential_eq (ha : a.ValidFor keyDef) (hb : b.ValidFor keyDef)
    (hs : keyDef.isSequential) (aHint bHint : Nat) :
    tupleCompareSequential stale keyDef aHint bHint a b =
      hinted aHint bHint (some (tupleOrder stale keyDef (partRows keyDef.parts a b))) := by
  have hnu := numbered_of_sequential hs
  rw [tupleCompareSequential]
  congr 1
  cases hn : keyDef.isNullable with
  | false =>
    have ho : ¬keyDef.hasOptionalParts := fun h => by simp [isNullable_of_optional h] at hn
    rw [if_pos ⟨ho, by simp⟩, keyCompareParts_fields ha hb hnu (fun _ h => h)
      (not_null_of_not hn) (at_items a) (at_items b)]
    simp [tupleOrder, hn]
  | true =>
    obtain ⟨met, posA, posB, hl, hme⟩ := @sequentialLoop_eq stale keyDef a b
      (keyDef.parts.take keyDef.uniquePartCount) ha hb 0 (hnu.take _)
      (fun _ h => List.mem_of_mem_take h) a.items b.items (at_items a) (at_items b) false
    rw [partRows_take] at hl hme
    simp only [hl, tupleOrder, hn, reference, Option.bind_eq_bind, Option.bind_some, not_true,
      and_false, if_false, if_true]
    by_cases hz : lexicographic stale ((partRows keyDef.parts a b).take keyDef.uniquePartCount) = 0
    · obtain ⟨hi, hat, hab⟩ := hme hz
      have hln : 0 + (keyDef.parts.take keyDef.uniquePartCount).length =
          0 + keyDef.uniquePartCount := by
        have hle := keyDef.unique_le
        rw [List.length_take]
        omega
      rw [hln] at hat hab
      have he := @keyCompareParts_fields stale keyDef a b
        (keyDef.parts.drop keyDef.uniquePartCount) ha hb _ (hnu.drop _)
        (fun _ h => List.mem_of_mem_drop h) keyDef.extended_not_null posA posB hat hab
      rw [partRows_drop] at he
      simp only [Bool.false_eq_true, false_or] at hi
      by_cases hm : met = true
      · simp [hz, hm, hi.1 hm, he]
      · simp [hz, hm, mt hi.2 hm]
    · simp [hz]

lemma fieldCompare_eq {x y : Item Scalar} {v w : Scalar} (hx : x.kind = .scalar v)
    (hy : y.kind = .scalar w) (hv : fieldMpTypeIsCompatible part.type v part.isNullable)
    (hw : fieldMpTypeIsCompatible part.type w part.isNullable) (hn : part.isNullable = false)
    (hc : part.coll = none) (rx ry : Position) :
    fieldCompare stale part.type (x :: rx) (y :: ry) = some (compareRow stale (part, v, w)) := by
  have hcm : comparePart stale false part v w = compareRow stale (part, v, w) :=
    comparePart_eq hv hw fun h => by rw [hn] at h; cases h
  rw [fieldCompare, (scalarAt_cons hx rx).1, (scalarAt_cons hy ry).1, ← hcm]
  simp [comparePart, hc]

/-- The parts that precompiled comparators are made for. -/
def Plain (part : KeyPart) : Prop := part.isNullable = false ∧ part.coll = none

lemma plain_of_fast (h : keyDef.isFast) : ∀ p ∈ keyDef.parts, Plain p ∧ p.path = [] := by
  simp only [KeyDef.isFast, Bool.and_eq_true, Bool.not_eq_true', KeyDef.hasCollation,
    KeyDef.hasJsonPaths, List.any_eq_false] at h
  intro p hp
  exact ⟨⟨not_null_of_not h.1.2 p hp, by simpa using h.1.1 p hp⟩, by simpa using h.2 p hp⟩

lemma fieldsCompare_eq {as bs : Position} (ra rb : Position)
    (ha : KeyFits (part :: parts) as) (hb : KeyFits (part :: parts) bs)
    (hl : as.length = (part :: parts).length) (hlb : bs.length = (part :: parts).length)
    (hpl : ∀ p ∈ part :: parts, Plain p)
    (hcons : consecutive ((part :: parts).map (·.fieldno))) :
    fieldsCompare stale a b ((part :: parts).map fun p => (p.fieldno, p.type)) (as ++ ra)
        (bs ++ rb) = some (lexicographic stale (rows (part :: parts) as bs)) := by
  induction parts generalizing part as bs with
  | nil =>
    obtain ⟨x, rfl⟩ := List.length_eq_one_iff.1 hl
    obtain ⟨y, rfl⟩ := List.length_eq_one_iff.1 hlb
    obtain ⟨⟨v, hv, hva⟩, -⟩ := ha
    obtain ⟨⟨w, hw, hwb⟩, -⟩ := hb
    obtain ⟨hn, hc⟩ := hpl part List.mem_cons_self
    simp only [List.map_cons, List.map_nil, fieldsCompare, List.cons_append, rows,
      lexicographic_singleton, (scalarAt_cons hv []).2.2, (scalarAt_cons hw []).2.2]
    exact fieldCompare_eq hv hw hva hwb hn hc _ _
  | cons q parts ih =>
    obtain ⟨x, as, rfl⟩ := List.exists_cons_of_length_eq_add_one hl
    obtain ⟨y, bs, rfl⟩ := List.exists_cons_of_length_eq_add_one hlb
    obtain ⟨⟨v, hv, hva⟩, ha⟩ := ha
    obtain ⟨⟨w, hw, hwb⟩, hb⟩ := hb
    obtain ⟨hn, hc⟩ := hpl part List.mem_cons_self
    simp only [List.map_cons, consecutive, Bool.and_eq_true, decide_eq_true_eq] at hcons
    have hr := ih ha hb (by simpa using hl) (by simpa using hlb)
      (fun p hp => hpl p (List.mem_cons_of_mem _ hp)) hcons.2
    have hcm : fieldCompare stale part.type _ _ = _ :=
      fieldCompare_eq hv hw hva hwb hn hc (as ++ ra) (bs ++ rb)
    obtain ⟨-, hnx, hi⟩ := scalarAt_cons hv (as ++ ra)
    obtain ⟨-, hny, hiy⟩ := scalarAt_cons hw (bs ++ rb)
    simp only [List.map_cons] at hr
    rw [List.map_cons, List.map_cons, fieldsCompare, List.cons_append, List.cons_append, hcm]
    simp only [Option.bind_eq_bind, Option.bind_some, hcons.1, if_true, hnx, hny, hr]
    rw [rows, hi, hiy, lexicographic_cons]
    split <;> rfl

lemma firstField_eq (ht : t.ValidFor keyDef) (hp : part.path = []) :
    firstField t part.fieldno = t.fieldByPart part := by
  unfold firstField
  split
  next hn => rw [fieldByPart_first ht hn hp]
  · simp [Tuple.fieldByPart, hp, tupleGoToPath]

lemma consecutive_of_cmpArr : ∀ sig ∈ cmpArr, consecutive (sig.map Prod.fst) := by decide

lemma consecutive_of_cmpWkArr : ∀ sig ∈ cmpWkArr, consecutive (sig.map Prod.fst) := by decide

lemma tupleComparePrecompiled_eq (ha : a.ValidFor keyDef) (hb : b.ValidFor keyDef)
    (hf : keyDef.isFast) (hs : keyDef.signature ∈ cmpArr) (aHint bHint : Nat) :
    tupleComparePrecompiled stale keyDef.signature aHint bHint a b =
      hinted aHint bHint (some (tupleOrder stale keyDef (partRows keyDef.parts a b))) := by
  rw [tupleComparePrecompiled]
  congr 1
  have hpl := plain_of_fast hf
  have hcons : consecutive (keyDef.parts.map (·.fieldno)) := by
    have h := consecutive_of_cmpArr _ hs
    simpa [KeyDef.signature, Function.comp_def] using h
  have hn : keyDef.isNullable = false := by
    simp only [KeyDef.isFast, Bool.and_eq_true, Bool.not_eq_true'] at hf
    exact hf.1.2
  cases hpa : keyDef.parts with
  | nil => exact absurd hpa keyDef.parts_ne_nil
  | cons part parts =>
    have hm : ∀ p ∈ part :: parts, p ∈ keyDef.parts := by simp [hpa]
    rw [hpa] at hpl hcons
    have hpr {t : Tuple} (ht : t.ValidFor keyDef) :
        ∀ p ∈ part :: parts, p.path = [] ∧ t.fieldByPart p ≠ none := fun p hp =>
      ⟨(hpl p hp).2, present_of_not_null ht (hm p hp) (hpl p hp).1.1⟩
    obtain ⟨ra, hr⟩ := position_eq ha hm (hpr ha) hcons
    obtain ⟨rb, hrb⟩ := position_eq hb hm (hpr hb) hcons
    have hpt := (hpl part List.mem_cons_self).2
    simp only [KeyDef.signature, hpa, List.map_cons, List.head?_cons, Option.bind_eq_bind,
      Option.bind_some, firstField_eq ha hpt, firstField_eq hb hpt, hr, hrb, tupleOrder, hn,
      Bool.false_eq_true, if_false]
    exact fieldsCompare_eq ra rb (extract_fits ha hm) (extract_fits hb hm) (by simp) (by simp)
      (fun p hp => (hpl p hp).1) hcons

/-- The comparator chosen for tuples, of whatever family, compares them alike. -/
lemma tupleCompare_eq (ha : a.ValidFor keyDef) (hb : b.ValidFor keyDef) (aHint bHint : Nat) :
    tupleCompare stale keyDef aHint bHint a b =
      hinted aHint bHint (some (tupleOrder stale keyDef (partRows keyDef.parts a b))) := by
  unfold tupleCompare
  split
  next h => exact tupleComparePrecompiled_eq ha hb h.1 h.2 aHint bHint
  split
  next h => exact tupleCompareSequential_eq ha hb h aHint bHint
  · exact tupleCompareSlowpath_eq ha hb aHint bHint

end Tuples

end TarantoolStorage.Index
