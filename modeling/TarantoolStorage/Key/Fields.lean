import TarantoolStorage.Key.Extract

/-! The fields of a tuple as the extraction of keys finds them in its bytes. -/
namespace TarantoolStorage.Key

open MsgPack TarantoolStorage.Update List Option Node

variable {nodes : List Node} {node : Node} {keyDef : KeyDef} {tuple : Tuple} {i : Nat}
variable {multikeyIdx : Option Nat} {part : Part} {parts : List Part}

lemma mpDecodeArray_data (tuple : Tuple) : mpDecodeArray tuple.node.bytes =
    some (tuple.node.children.length, bytesAll tuple.node.children) := by
  have hr := tuple.wf.reads []
  rw [tuple.isArray] at hr
  simpa using hr.2

section

variable (h : ∀ node ∈ nodes, node.WF)
include h

lemma mpNextTimes_fields {n : Nat} (hn : n ≤ nodes.length) :
    mpNextTimes n (bytesAll nodes) = some (bytesAll (nodes.drop n)) := by
  simpa using mpNextTimes_bytesAll h hn []

lemma mpNext_field (hi : i < nodes.length) :
    mpNext (bytesAll (nodes.drop i)) = some (bytesAll (nodes.drop (i + 1))) := by
  have hn := getElem?_eq_getElem hi
  rw [bytesAll_split hn, mpNext_bytes (h _ (getElem_mem hi))]

lemma bytesAll_drop_ne_nil (hi : i < nodes.length) :
    bytesAll (nodes.drop i) ≠ [] := by
  have hn := getElem?_eq_getElem hi
  rw [bytesAll_split hn]
  exact append_ne_nil_of_left_ne_nil
    (ne_nil_of_length_pos (length_bytes_pos (h _ (getElem_mem hi)))) _

end

lemma bytesAll_drop_eq_nil (hi : nodes.length ≤ i) : bytesAll (nodes.drop i) = [] := by
  rw [drop_eq_nil_of_le hi]
  rfl

lemma between_fields {j : Nat} (hi : i ≤ j) :
    between (bytesAll (nodes.drop i)) (bytesAll (nodes.drop j)) =
      some (bytesAll ((nodes.drop i).take (j - i))) := by
  refine between_eq ?_
  have hd : nodes.drop j = (nodes.drop i).drop (j - i) := by
    rw [drop_drop, Nat.add_sub_cancel' hi]
  rw [hd, ← bytesAll_take_drop]

lemma tupleGoToPath_bytes {path : List Token}
    (hp : ∀ token ∈ path, (resolve multikeyIdx token).isSome) (h : node.WF) (rest : Bytes) :
    (∀ value, pathValue multikeyIdx path node = some value → value.WF ∧
      ∃ after, tupleGoToPath multikeyIdx path (node.bytes ++ rest) =
        some (.at (value.bytes ++ after))) ∧
    (pathValue multikeyIdx path node = none →
      tupleGoToPath multikeyIdx path (node.bytes ++ rest) = some .missing) := by
  induction path generalizing node rest with
  | nil =>
    refine ⟨fun value hv => ?_, fun hn => by cases hn⟩
    obtain rfl : node = value := some.inj hv
    exact ⟨h, rest, rfl⟩
  | cons token path ih =>
    obtain ⟨token', hto⟩ := isSome_iff_exists.mp (hp token mem_cons_self)
    have hr : ∀ t ∈ path, (resolve multikeyIdx t).isSome := fun t ht => hp t (mem_cons_of_mem _ ht)
    simp only [pathValue, tupleGoToPath, hto, goTo_bytes h, bind_eq_bind, bind_some]
    cases hi : nodeShape.index token' node with
    | none => simp
    | some i =>
      have hc := getElem?_eq_getElem (index_lt h hi)
      have hw := h.children _ (getElem_mem (index_lt h hi))
      simp only [map_some, bind_some, hc, bytesAll_split hc, append_assoc]
      exact ih hr hw _

lemma resolve_isSome (hp : part ∈ keyDef.parts) (hm : keyDef.isMultikey → multikeyIdx.isSome) :
    ∀ token ∈ part.path, (resolve multikeyIdx token).isSome := by
  intro token ht
  cases token with
  | num index | str key => rfl
  | bad position => exact absurd ht (keyDef.lexed part hp position)
  | any position =>
    have ha : keyDef.isMultikey := any_eq_true.mpr ⟨part, hp, any_eq_true.mpr ⟨_, ht, rfl⟩⟩
    simpa [resolve] using hm ha

lemma resolve_congr (h : keyDef.isMultikey = false) (hp : part ∈ keyDef.parts) :
    ∀ token ∈ part.path, resolve multikeyIdx token = resolve none token := by
  intro token ht
  cases token with
  | num index | str key | bad position => rfl
  | any position =>
    have ha : keyDef.isMultikey := any_eq_true.mpr ⟨part, hp, any_eq_true.mpr ⟨_, ht, rfl⟩⟩
    rw [h] at ha
    cases ha

lemma tupleGoToPath_congr {path : List Token} {idx idx' : Option Nat}
    (h : ∀ token ∈ path, resolve idx token = resolve idx' token) (pos : Bytes) :
    tupleGoToPath idx path pos = tupleGoToPath idx' path pos := by
  induction path generalizing pos with
  | nil => rfl
  | cons token path ih =>
    have hr := ih fun t ht => h t (mem_cons_of_mem _ ht)
    simp [tupleGoToPath, h token mem_cons_self, hr]

lemma path_eq_nil (hj : keyDef.hasJsonPaths = false) (hp : part ∈ keyDef.parts) :
    part.path = [] := by
  by_contra hn
  have ha : keyDef.hasJsonPaths := any_eq_true.mpr ⟨part, hp, by simpa using hn⟩
  rw [hj] at ha
  cases ha

lemma partValue_of_plain (hp : part.path = []) :
    partValue tuple multikeyIdx part = tuple.node.children[part.fieldno]? := by
  rw [partValue, hp]
  cases tuple.node.children[part.fieldno]? <;> rfl

lemma partValue_of_le (h : tuple.node.children.length ≤ part.fieldno) :
    partValue tuple multikeyIdx part = none := by
  rw [partValue, getElem?_eq_none h, bind_none]

lemma ValidFor.hasOptionalParts (h : ValidFor tuple keyDef multikeyIdx)
    (hp : part ∈ keyDef.parts) (hno : partValue tuple multikeyIdx part = none) :
    keyDef.hasOptionalParts = true := by
  have hn : part.isNullable = true := by
    by_contra hne
    have hs := h.part part hp (by simpa using hne)
    rw [hno] at hs
    cases hs
  refine any_eq_true.mpr ⟨part, hp, ?_⟩
  by_cases hpa : part.path = []
  · rw [partValue_of_plain hpa] at hno
    have hle := getElem?_eq_none_iff.mp hno
    have hg := h.count_ge
    have hl : keyDef.minFieldCount < part.fieldno + 1 := by omega
    simp [hl, hn]
  · simp [hpa, hn]

lemma tupleFieldRaw_data (tuple : Tuple) (fieldno : Nat) : tupleFieldRaw tuple.node.bytes fieldno =
      some (if tuple.node.children.length ≤ fieldno then none
        else some (bytesAll (tuple.node.children.drop fieldno))) := by
  rw [tupleFieldRaw, mpDecodeArray_data, bind_some]
  dsimp only
  split_ifs with hl
  · rfl
  · rw [mpNextTimes_fields tuple.wf.children (not_le.mp hl).le, map_some]

lemma lookup_eq_byPart (hp : part ∈ keyDef.parts) (data : Bytes) :
    lookup keyDef data multikeyIdx part = tupleFieldRawByPart data part multikeyIdx := by
  unfold lookup
  cases hj : keyDef.hasJsonPaths with
  | false =>
    rw [Bool.not_false, if_pos rfl, tupleFieldRawByPart, path_eq_nil hj hp]
    cases tupleFieldRaw data part.fieldno with
    | none => rfl
    | some field => cases field <;> rfl
  | true =>
    cases hm : keyDef.isMultikey with
    | false =>
      have hr : ∀ token ∈ part.path, resolve multikeyIdx token = resolve none token :=
        resolve_congr hm hp
      have hc := tupleGoToPath_congr hr
      simp only [tupleFieldRawByPart, hc]
      rfl
    | true => rfl

lemma lookup_of_value (h : ValidFor tuple keyDef multikeyIdx) (hp : part ∈ keyDef.parts)
    {value : Node} (hva : partValue tuple multikeyIdx part = some value) :
    value.WF ∧ ∃ after, lookup keyDef tuple.node.bytes multikeyIdx part =
      some (some (value.bytes ++ after)) ∧ (part.path = [] →
        value.bytes ++ after = bytesAll (tuple.node.children.drop part.fieldno)) := by
  obtain ⟨field, hf, hpa⟩ := bind_eq_some_iff.mp hva
  obtain ⟨hl, -⟩ := List.getElem?_eq_some_iff.mp hf
  have hw := tuple.wf.children field (mem_of_getElem? hf)
  have hb := bytesAll_split hf
  obtain ⟨hv, after, hg⟩ := (tupleGoToPath_bytes (resolve_isSome hp h.multikey) hw
      (bytesAll (tuple.node.children.drop (part.fieldno + 1)))).1 value hpa
  rw [← hb] at hg
  refine ⟨hv, after, ?_, fun hpl => ?_⟩
  · rw [lookup_eq_byPart hp, tupleFieldRawByPart, tupleFieldRaw_data, if_neg (not_le.mpr hl)]
    simp [hg]
  · rw [hpl] at hg
    exact (Found.at.inj (some.inj hg)).symm

lemma lookup_of_none (h : ValidFor tuple keyDef multikeyIdx) (hp : part ∈ keyDef.parts)
    (hn : partValue tuple multikeyIdx part = none) :
    lookup keyDef tuple.node.bytes multikeyIdx part = some none := by
  rw [lookup_eq_byPart hp, tupleFieldRawByPart, tupleFieldRaw_data]
  split_ifs with hl
  · rfl
  · have hf := getElem?_eq_getElem (not_le.mp hl)
    rw [partValue, hf, bind_some] at hn
    have hg := (tupleGoToPath_bytes (resolve_isSome hp h.multikey)
      (tuple.wf.children _ (mem_of_getElem? hf))
      (bytesAll (tuple.node.children.drop (part.fieldno + 1)))).2 hn
    rw [← bytesAll_split hf] at hg
    simp [hg]

def elements (tuple : Tuple) (multikeyIdx : Option Nat) (parts : List Part) : Bytes :=
  bytesAll (parts.map (keyElement tuple multikeyIdx))

lemma elements_nil : elements tuple multikeyIdx [] = [] := rfl

lemma elements_cons : elements tuple multikeyIdx (part :: parts) =
    (keyElement tuple multikeyIdx part).bytes ++ elements tuple multikeyIdx parts := rfl

lemma elements_append (later : List Part) : elements tuple multikeyIdx (parts ++ later) =
    elements tuple multikeyIdx parts ++ elements tuple multikeyIdx later := by
  rw [elements, map_append, bytesAll_append]
  rfl

lemma keyElement_of_none (h : partValue tuple multikeyIdx part = none) :
    (keyElement tuple multikeyIdx part).bytes = [mpNil] := by
  rw [keyElement, h]
  rfl

lemma keyElement_of_some {value : Node} (h : partValue tuple multikeyIdx part = some value) :
    keyElement tuple multikeyIdx part = value := by
  rw [keyElement, h]
  rfl

lemma elements_range {f : Nat} (hp : ∀ p ∈ parts, p.path = [])
    (hf : parts.map Part.fieldno = List.range' f parts.length) :
    elements tuple multikeyIdx parts = bytesAll ((tuple.node.children.drop f).take parts.length) ++
        List.replicate (f + parts.length - max f tuple.node.children.length) mpNil := by
  induction parts generalizing f with
  | nil => simp [elements_nil, bytesAll]
  | cons p parts ih =>
    rw [map_cons, length_cons, List.range'_succ] at hf
    obtain ⟨rfl, hr⟩ := cons_eq_cons.mp hf
    have hv : partValue tuple multikeyIdx p = tuple.node.children[p.fieldno]? :=
      partValue_of_plain (hp p mem_cons_self)
    have ih := ih (fun q hq => hp q (mem_cons_of_mem _ hq)) hr
    rw [elements_cons, ih, length_cons]
    by_cases hl : p.fieldno < tuple.node.children.length
    · rw [getElem?_eq_getElem hl] at hv
      rw [keyElement_of_some hv, drop_eq_getElem_cons hl, take_succ_cons, bytesAll, append_assoc]
      congr 3
      omega
    · have hle := not_lt.mp hl
      rw [keyElement_of_none (partValue_of_le hle), drop_eq_nil_of_le hle,
        drop_eq_nil_of_le (by omega : tuple.node.children.length ≤ p.fieldno + 1),
        take_nil, take_nil, bytesAll, nil_append, nil_append,
        ← replicate_one, replicate_append_replicate]
      congr 1
      omega

end TarantoolStorage.Key
