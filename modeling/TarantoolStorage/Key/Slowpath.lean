import TarantoolStorage.Key.Fields

/-! The extraction of a key from a tuple, part by part, gives the reference key. -/
namespace TarantoolStorage.Key

open MsgPack TarantoolStorage.Update List Option Node

variable {keyDef : KeyDef} {tuple : Tuple} {multikeyIdx : Option Nat}
variable {part : Part} {parts : List Part}

lemma sequential_iff {hasJsonPaths : Bool} {p q : Part} : sequential hasJsonPaths p q = true ↔
      p.fieldno + 1 = q.fieldno ∧ (hasJsonPaths = true → p.path = [] ∧ q.path = []) := by
  cases hasJsonPaths <;> simp [sequential]

lemma path_of_sequential {p q : Part} (hp : p ∈ keyDef.parts) (hq : q ∈ keyDef.parts)
    (h : sequential keyDef.hasJsonPaths p q = true) : p.path = [] ∧ q.path = [] := by
  cases hj : keyDef.hasJsonPaths with
  | false => exact ⟨path_eq_nil hj hp, path_eq_nil hj hq⟩
  | true => exact (sequential_iff.mp h).2 hj

lemma next_plain (h : ValidFor tuple keyDef multikeyIdx) (hp : part ∈ keyDef.parts)
    (hpa : part.path = []) (nullCount : Nat) :
    ∃ bytes n, next keyDef (bytesAll (tuple.node.children.drop part.fieldno)) nullCount =
        some (bytesAll (tuple.node.children.drop (part.fieldno + 1)), nullCount + n) ∧
      bytesAll (tuple.node.children.drop part.fieldno) =
        bytes ++ bytesAll (tuple.node.children.drop (part.fieldno + 1)) ∧
      bytes ++ List.replicate n mpNil = (keyElement tuple multikeyIdx part).bytes ∧
      (n = 0 ∨ tuple.node.children.length ≤ part.fieldno) := by
  have hv : partValue tuple multikeyIdx part = tuple.node.children[part.fieldno]? :=
    partValue_of_plain hpa
  by_cases hl : part.fieldno < tuple.node.children.length
  · have hf := getElem?_eq_getElem hl
    rw [hf] at hv
    refine ⟨_, 0, ?_, bytesAll_split hf, ?_, .inl rfl⟩
    · have hne := bytesAll_drop_ne_nil tuple.wf.children hl
      simp [next, hne, mpNext_field tuple.wf.children hl]
    · rw [keyElement_of_some hv, replicate_zero, append_nil]
  · have hle := not_lt.mp hl
    have hn : partValue tuple multikeyIdx part = none := partValue_of_le hle
    have hpo := bytesAll_drop_eq_nil hle
    have hpo' := bytesAll_drop_eq_nil (Nat.le_succ_of_le hle)
    refine ⟨[], 1, ?_, ?_, ?_, .inr hle⟩
    · rw [hpo, hpo']
      simp [next, h.hasOptionalParts hp hn]
    · rw [hpo, hpo', nil_append]
    · rw [keyElement_of_none hn]
      rfl

lemma skipSequential_plain (h : ValidFor tuple keyDef multikeyIdx)
    (hpa : ∀ p ∈ part :: parts, p ∈ keyDef.parts) (hpt : part.path = []) (nullCount : Nat) :
    ∃ pos n taken later bytes,
      skipSequential keyDef part parts (bytesAll (tuple.node.children.drop part.fieldno))
        nullCount = some (pos, nullCount + n, later) ∧
      part :: parts = taken ++ later ∧ taken ≠ [] ∧
      bytesAll (tuple.node.children.drop part.fieldno) = bytes ++ pos ∧
      bytes ++ List.replicate n mpNil = elements tuple multikeyIdx taken := by
  induction parts generalizing part nullCount with
  | nil =>
    obtain ⟨bytes, n, hn, hpo, hb, -⟩ := next_plain h (hpa part mem_cons_self) hpt nullCount
    refine ⟨_, n, [part], [], bytes, ?_, rfl, by simp, hpo, ?_⟩
    · rw [skipSequential, hn]
      rfl
    · rw [hb, elements_cons, elements_nil, append_nil]
  | cons q parts ih =>
    obtain ⟨bytes, n, hn, hpo, hb, he⟩ := next_plain h (hpa part mem_cons_self) hpt nullCount
    have hr : ∀ p ∈ q :: parts, p ∈ keyDef.parts := fun p hp => hpa p (mem_cons_of_mem _ hp)
    by_cases hc : (containsSequentialParts keyDef.parts &&
        sequential keyDef.hasJsonPaths part q) = true
    · have hse := (Bool.and_eq_true_iff.mp hc).2
      obtain ⟨-, hq⟩ := path_of_sequential (hpa part mem_cons_self) (hr q mem_cons_self) hse
      obtain ⟨pos', n', taken, later, bytes', hs, hsp, -, hpo', hb'⟩ := ih hr hq (nullCount + n)
      rw [← (sequential_iff.mp hse).1] at hs hpo'
      refine ⟨pos', n + n', part :: taken, later, bytes ++ bytes', ?_, ?_, by simp, ?_, ?_⟩
      · rw [skipSequential, hn]
        simp [hc, hs, Nat.add_assoc]
      · rw [hsp, cons_append]
      · rw [hpo, hpo', append_assoc]
      · -- after the first nil nothing is left to copy
        rw [elements_cons, ← hb, ← hb', replicate_add]
        rcases he with rfl | hl
        · simp
        · rw [bytesAll_drop_eq_nil (Nat.le_succ_of_le hl)] at hpo'
          rw [(append_eq_nil_iff.mp hpo'.symm).1]
          simp
    · refine ⟨_, n, [part], q :: parts, bytes, ?_, rfl, by simp, hpo, ?_⟩
      · rw [skipSequential, hn]
        simp [hc]
      · rw [hb, elements_cons, elements_nil, append_nil]

lemma skipSequential_path (hpa : part ∈ keyDef.parts) (hp : part.path ≠ [])
    {value : Node} (hv : value.WF) (after : Bytes) :
    skipSequential keyDef part parts (value.bytes ++ after) 0 = some (after, 0, parts) := by
  have hne : value.bytes ++ after ≠ [] :=
    append_ne_nil_of_left_ne_nil (ne_nil_of_length_pos (length_bytes_pos hv)) _
  have hn : next keyDef (value.bytes ++ after) 0 = some (after, 0) := by
    simp [next, hne, mpNext_bytes hv]
  cases parts with
  | nil =>
    rw [skipSequential, hn]
    rfl
  | cons q parts =>
    have hs : sequential keyDef.hasJsonPaths part q = false := by
      have hj : keyDef.hasJsonPaths = true := any_eq_true.mpr ⟨part, hpa, by simpa using hp⟩
      rw [hj]
      simp [sequential, hp]
    rw [skipSequential, hn]
    simp [hs]

lemma spans_eq (h : ValidFor tuple keyDef multikeyIdx) {fuel : Nat}
    (hf : parts.length ≤ fuel) (hpa : ∀ p ∈ parts, p ∈ keyDef.parts) :
    ∃ copies, spans keyDef tuple.node.bytes multikeyIdx fuel parts = some copies ∧
      (copies.flatMap fun copy => copy.1 ++ List.replicate copy.2 mpNil) =
        elements tuple multikeyIdx parts := by
  induction fuel generalizing parts with
  | zero =>
    obtain rfl : parts = [] := eq_nil_of_length_eq_zero (Nat.le_zero.mp hf)
    exact ⟨[], rfl, rfl⟩
  | succ fuel ih =>
    cases parts with
    | nil => exact ⟨[], rfl, rfl⟩
    | cons part parts =>
      have hpr := hpa part mem_cons_self
      have hr : ∀ p ∈ parts, p ∈ keyDef.parts := fun p hp => hpa p (mem_cons_of_mem _ hp)
      have hln : parts.length ≤ fuel := Nat.le_of_succ_le_succ hf
      cases hv : partValue tuple multikeyIdx part with
      | none =>
        obtain ⟨copies, hc, hb⟩ := ih hln hr
        refine ⟨([], 1) :: copies, ?_, ?_⟩
        · simp [spans, lookup_of_none h hpr hv, h.hasOptionalParts hpr hv, hc]
        · rw [flatMap_cons, hb, elements_cons, keyElement_of_none hv]
          rfl
      | some value =>
        obtain ⟨hw, after, hlo, hpl⟩ := lookup_of_value h hpr hv
        by_cases hpt : part.path = []
        · obtain ⟨pos, n, taken, later, bytes, hsk, hs, ht, hps, hb⟩ :=
            skipSequential_plain h hpa hpt 0
          have hla : later.length ≤ fuel := by
            have hle := congrArg List.length hs
            have hpo := length_pos_of_ne_nil ht
            rw [length_cons, length_append] at hle
            omega
          obtain ⟨copies, hc, hl⟩ := ih hla fun p hp => hpa p (hs ▸ mem_append_right _ hp)
          rw [← hpl hpt] at hsk hps
          refine ⟨(bytes, n) :: copies, ?_, ?_⟩
          · simp [spans, hlo, hsk, between_eq hps, hc]
          · rw [flatMap_cons, hb, hl, hs, elements_append]
        · obtain ⟨copies, hc, hb⟩ := ih hln hr
          refine ⟨(value.bytes, 0) :: copies, ?_, ?_⟩
          · simp [spans, hlo, skipSequential_path hpr hpt hw, between_eq rfl, hc]
          · rw [flatMap_cons, hb, elements_cons, keyElement_of_some hv, replicate_zero, append_nil]

lemma referenceKey_bytes (keyDef : KeyDef) (tuple : Tuple) (multikeyIdx : Option Nat) :
    (referenceKey keyDef tuple multikeyIdx).bytes =
      mpEncodeArray keyDef.parts.length ++ elements tuple multikeyIdx keyDef.parts := by
  rw [referenceKey, bytes]
  rfl

lemma wf_nilNode : nilNode.WF := by
  refine wf_scalarNode (fun rest => ?_) rfl (by simp)
  have hn : mpNext (mpNil :: rest) = some rest :=
    mpNext_of_skipHead (skipHead_payload (n := 0) rfl (skipBytes_zero rest))
  have ht : mpTypeof mpNil = .nil := by decide
  simp [decodeHead, ht, hn]

section

variable (h : ValidFor tuple keyDef multikeyIdx)
include h

lemma wf_referenceKey :
    (referenceKey keyDef tuple multikeyIdx).WF := by
  have hc := keyDef.count_le
  refine ⟨decodeHead_encodeArray (by omega), length_map _, by simp, ?_⟩
  intro element he
  obtain ⟨part, hp, rfl⟩ := mem_map.mp he
  cases hv : partValue tuple multikeyIdx part with
  | none =>
    rw [keyElement, hv]
    exact wf_nilNode
  | some value =>
    rw [keyElement_of_some hv]
    exact (lookup_of_value h hp hv).1

/-- The slow path returns the reference key, and its length is computed modulo 2^32. -/
lemma slowpath_eq :
    slowpath keyDef tuple.node.bytes multikeyIdx =
      some (uint32 (referenceKey keyDef tuple multikeyIdx).bytes.length,
        (referenceKey keyDef tuple multikeyIdx).bytes) := by
  obtain ⟨copies, hc, hb⟩ := spans_eq h (Nat.le_refl keyDef.parts.length) fun _ hp => hp
  have hs : (copies.map fun copy => copy.1.length + copy.2).sum =
      (elements tuple multikeyIdx keyDef.parts).length := by
    rw [← hb, length_flatMap]
    simp
  rw [slowpath, hc, map_some, hb, hs, referenceKey_bytes, length_append, length_mpEncodeArray]

lemma sequentialRaw_eq (hs : keyDef.isSequential = true) :
    sequentialRaw keyDef tuple.node.bytes =
      some (uint32 (referenceKey keyDef tuple multikeyIdx).bytes.length,
        (referenceKey keyDef tuple multikeyIdx).bytes) := by
  obtain ⟨hj, hf⟩ : keyDef.hasJsonPaths = false ∧
      keyDef.parts.map Part.fieldno = List.range keyDef.parts.length := by
    simpa [KeyDef.isSequential] using hs
  have he : elements tuple multikeyIdx keyDef.parts =
      bytesAll ((tuple.node.children.drop 0).take keyDef.parts.length) ++
        List.replicate (0 + keyDef.parts.length - max 0 tuple.node.children.length) mpNil :=
    elements_range (fun p hp => path_eq_nil hj hp) (hf.trans range_eq_range')
  rw [drop_zero, Nat.zero_add, Nat.zero_max] at he
  rw [referenceKey_bytes, length_append, length_mpEncodeArray, sequentialRaw,
    mpDecodeArray_data, bind_some, he]
  dsimp only
  split_ifs with ha
  · have hl : keyDef.parts.length ≤ tuple.node.children.length := by
      by_contra hlt
      -- the part after the last field of the tuple is missing
      have hm : tuple.node.children.length ∈ keyDef.parts.map Part.fieldno := by
        rw [hf, mem_range]
        omega
      obtain ⟨p, hp, hfi⟩ := mem_map.mp hm
      have ho := h.hasOptionalParts hp (partValue_of_le hfi.ge)
      simp only [ho, Bool.not_true, Bool.false_or, decide_eq_true_eq] at ha
      omega
    have hb : between (bytesAll tuple.node.children)
        (bytesAll (tuple.node.children.drop keyDef.parts.length)) =
          some (bytesAll (tuple.node.children.take keyDef.parts.length)) :=
      between_eq (bytesAll_take_drop _ _)
    simp [mpNextTimes_fields tuple.wf.children hl, hb, Nat.sub_eq_zero_of_le hl]
  · simp only [Bool.or_eq_true, decide_eq_true_eq, not_or, not_lt] at ha
    rw [take_of_length_le ha.2, length_append, length_replicate]
    congr 2
    · rw [Nat.cast_add, Nat.cast_add]
      congr 1
      omega
    · rw [append_assoc]

end

end TarantoolStorage.Key
