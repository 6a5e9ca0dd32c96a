import TarantoolStorage.Key.Slowpath

/-! The extraction of a key from raw data copies runs of parts. -/
namespace TarantoolStorage.Key

open MsgPack TarantoolStorage.Update List Option Node

variable {keyDef : KeyDef} {tuple : Tuple} {multikeyIdx : Option Nat} {cursor : Cursor}
variable {part : Part} {parts later : List Part} {run : Run} {nodes : List Node}

/-- Every part of a run has the field after the one before. -/
def Run.IsChain (hasJsonPaths : Bool) (run : Run) : Prop :=
  run.parts.IsChain fun p q => sequential hasJsonPaths p q = true

lemma runs_flatMap (hasJsonPaths : Bool) (parts : List Part) :
    (runs hasJsonPaths parts).flatMap Run.parts = parts := by
  induction parts with
  | nil => rfl
  | cons p parts ih =>
    rw [runs]
    cases hr : runs hasJsonPaths parts with
    | nil =>
      rw [hr] at ih
      rw [← ih]
      rfl
    | cons run later =>
      rw [hr] at ih
      dsimp only
      split_ifs <;> rw [← ih] <;> rfl

lemma runs_isChain (hasJsonPaths : Bool) (parts : List Part) :
    ∀ run ∈ runs hasJsonPaths parts, run.IsChain hasJsonPaths := by
  induction parts with
  | nil => simp [runs]
  | cons p parts ih =>
    have hs : Run.IsChain hasJsonPaths ⟨p, []⟩ := List.IsChain.singleton p
    rw [runs]
    cases hr : runs hasJsonPaths parts with
    | nil => simpa using hs
    | cons run later =>
      rw [hr] at ih
      obtain ⟨hru, hl⟩ := forall_mem_cons.mp ih
      dsimp only
      split_ifs with hse
      · exact forall_mem_cons.mpr ⟨isChain_cons_cons.mpr ⟨hse, hru⟩, hl⟩
      · exact forall_mem_cons.mpr ⟨hs, ih⟩

lemma fieldno_of_isChain {hasJsonPaths : Bool} {p : Part} (h : (p :: parts).IsChain fun p q =>
    sequential hasJsonPaths p q = true) :
    (p :: parts).map Part.fieldno = List.range' p.fieldno (parts.length + 1) := by
  induction parts generalizing p with
  | nil => rfl
  | cons q parts ih =>
    obtain ⟨hs, hr⟩ := isChain_cons_cons.mp h
    rw [map_cons, ih hr, ← (sequential_iff.mp hs).1, length_cons]
    rfl

lemma plain_of_isChain {p q : Part} (h : (p :: q :: parts).IsChain fun p q =>
    sequential keyDef.hasJsonPaths p q = true) (hparts : ∀ r ∈ p :: q :: parts, r ∈ keyDef.parts) :
    ∀ r ∈ p :: q :: parts, r.path = [] := by
  induction parts generalizing p q with
  | nil =>
    obtain ⟨hse, -⟩ := isChain_cons_cons.mp h
    have hp := path_of_sequential (hparts p (by simp)) (hparts q (by simp)) hse
    simpa using hp
  | cons r parts ih =>
    obtain ⟨hse, hr⟩ := isChain_cons_cons.mp h
    have hp := path_of_sequential (hparts p (by simp)) (hparts q (by simp)) hse
    exact forall_mem_cons.mpr ⟨hp.1, ih hr fun s hs => hparts s (mem_cons_of_mem _ hs)⟩

lemma Run.last_mem (run : Run) : run.last ∈ run.parts := by
  rw [Run.last, Run.parts]
  cases hm : run.more with
  | nil => exact mem_cons_self
  | cons q more =>
    rw [getLastD_eq_getLast?, getLast?_eq_some_getLast (by simp), getD_some]
    exact mem_cons_of_mem _ (getLast_mem _)

section

variable (hchain : run.IsChain keyDef.hasJsonPaths) (hparts : ∀ p ∈ run.parts, p ∈ keyDef.parts)

include hchain

lemma Run.fieldno_last : run.last.fieldno = run.first.fieldno + run.more.length := by
  have hf := fieldno_of_isChain hchain
  have hl : (run.parts.map Part.fieldno).getLast? = some run.last.fieldno := by
    rw [Run.parts, getLast?_map, getLast?_cons, map_some, Run.last, getLastD_eq_getLast?]
  rw [Run.parts, hf, getLast?_range'] at hl
  simpa using hl.symm

include hparts

lemma Run.plain (hm : run.more ≠ []) : ∀ p ∈ run.parts, p.path = [] := by
  obtain ⟨first, more⟩ := run
  cases more with
  | nil => exact absurd rfl hm
  | cons q more => exact plain_of_isChain hchain hparts

end

/-- Where the cursor stands, as far as it matters to the parts that are left. -/
structure Cursor.At (nodes : List Node) (later : List Part) (cursor : Cursor) : Prop where
  lt : cursor.current < nodes.length
  field : ∀ p ∈ later, p.fieldno = cursor.current →
    cursor.field = bytesAll (nodes.drop cursor.current)
  /-- The end was moved to that of the tuple only if no other field is needed. -/
  fieldEnd : cursor.fieldEnd = bytesAll (nodes.drop (cursor.current + 1)) ∨
    ∀ p ∈ later, cursor.current ≤ p.fieldno → nodes.length ≤ p.fieldno

lemma Cursor.At.mono {parts' : List Part} (h : cursor.At nodes parts) (hs : parts' ⊆ parts) :
    cursor.At nodes parts' where
  lt := h.lt
  field := fun p hp => h.field p (hs hp)
  fieldEnd := h.fieldEnd.imp id fun hn p hp => hn p (hs hp)

def fieldCursor (nodes : List Node) (i : Nat) : Cursor :=
  ⟨bytesAll (nodes.drop i), bytesAll (nodes.drop (i + 1)), i⟩

lemma fieldCursor_at {i : Nat} (hi : i < nodes.length) (later : List Part) :
    (fieldCursor nodes i).At nodes later :=
  ⟨hi, fun _ _ _ => rfl, .inl rfl⟩

lemma forward_fieldCursor (h : ∀ node ∈ nodes, node.WF) {i n : Nat} (hi : i + n < nodes.length) :
    (fieldCursor nodes i).forward n = some (fieldCursor nodes (i + n)) := by
  induction n generalizing i with
  | zero => rfl
  | succ n ih =>
    have hn : (fieldCursor nodes i).forward (n + 1) = (fieldCursor nodes (i + 1)).forward n := by
      rw [Cursor.forward]
      simp only [fieldCursor]
      rw [mpNext_field h (by omega), bind_some]
    rw [hn, ih (by omega), Nat.add_right_comm, Nat.add_assoc]

/-- The search finds the first field of a run that begins in the tuple. -/
lemma Cursor.At.forward (h : cursor.At nodes parts) (hw : ∀ node ∈ nodes, node.WF)
    (hp : part ∈ parts) (hlt : part.fieldno < nodes.length) (hl : cursor.current ≤
    part.fieldno) :
    cursor.forward (part.fieldno - cursor.current) = some (fieldCursor nodes part.fieldno) := by
  have he : cursor.fieldEnd = bytesAll (nodes.drop (cursor.current + 1)) := by
    rcases h.fieldEnd with he | hno
    · exact he
    · exact absurd (hno part hp hl) (not_le.mpr hlt)
  obtain ⟨n, hn⟩ := Nat.exists_eq_add_of_le hl
  cases n with
  | zero =>
    have hc : cursor.current = part.fieldno := by omega
    have hf := h.field part hp hc.symm
    have hcu : cursor = fieldCursor nodes part.fieldno := by
      rw [hc] at he hf
      cases cursor
      simp_all [fieldCursor]
    rw [hc, Nat.sub_self, hcu]
    rfl
  | succ n =>
    have hfi : cursor.forward (n + 1) = (fieldCursor nodes (cursor.current + 1)).forward n := by
      rw [Cursor.forward, he, mpNext_field hw (by omega), bind_some]
      rfl
    have hs : part.fieldno - cursor.current = n + 1 := by omega
    rw [hs, hfi, forward_fieldCursor hw (by omega)]
    congr 2
    omega

def runBytes (tuple : Tuple) (multikeyIdx : Option Nat) (run : Run) : Bytes :=
  if tuple.node.children.length ≤ run.first.fieldno then
    List.replicate (uint32 (run.first.fieldno - run.last.fieldno + 1)) mpNil
  else elements tuple multikeyIdx run.parts

section

variable (h : ValidFor tuple keyDef multikeyIdx) (hchain : run.IsChain keyDef.hasJsonPaths)
variable (hparts : ∀ p ∈ run.parts, p ∈ keyDef.parts)
variable (hlt : run.first.fieldno < tuple.node.children.length)

include h hparts hlt in
lemma copyRun_path (hm : run.more = []) (hpt : run.first.path ≠ []) :
    copyRun keyDef multikeyIdx run.last (fieldCursor tuple.node.children run.first.fieldno) 0 =
        some (elements tuple multikeyIdx run.parts) := by
  have hpa := hparts run.first mem_cons_self
  have hl : run.last = run.first := by rw [Run.last, hm]; rfl
  have hj : keyDef.hasJsonPaths = true := any_eq_true.mpr ⟨run.first, hpa, by simpa using hpt⟩
  have hf := getElem?_eq_getElem hlt
  have hw := tuple.wf.children _ (mem_of_getElem? hf)
  have hv : partValue tuple multikeyIdx run.first =
      pathValue multikeyIdx run.first.path (tuple.node.children.get ⟨_, hlt⟩) := by
    rw [partValue, hf, bind_some]
    rfl
  have hg := tupleGoToPath_bytes (resolve_isSome hpa h.multikey) hw
    (bytesAll (tuple.node.children.drop (run.first.fieldno + 1)))
  rw [← bytesAll_split hf] at hg
  rw [Run.parts, hm, elements_cons, elements_nil, append_nil, copyRun, hl, hj]
  simp only [Bool.true_and, decide_eq_true_eq, ne_eq, hpt, not_false_eq_true, if_true, fieldCursor]
  cases hp : partValue tuple multikeyIdx run.first with
  | none =>
    rw [hg.2 (hv.symm.trans hp), bind_some, h.hasOptionalParts hpa hp, keyElement_of_none hp]
    rfl
  | some value =>
    obtain ⟨hva, after, ha⟩ := hg.1 value (hv.symm.trans hp)
    rw [ha, bind_some, keyElement_of_some hp]
    simp [mpNext_bytes hva, between_eq rfl]

lemma copyRun_plain {last : Part} (hp : last.path = []) (cursor : Cursor) (nullCount : Nat) :
    copyRun keyDef multikeyIdx last cursor nullCount =
      (between cursor.field cursor.fieldEnd).map (· ++ List.replicate nullCount mpNil) := by
  simp [copyRun, hp]

include hchain in
lemma elements_run (hp : ∀ p ∈ run.parts, p.path = []) : elements tuple multikeyIdx run.parts =
      bytesAll ((tuple.node.children.drop run.first.fieldno).take (run.more.length + 1)) ++
        List.replicate (run.first.fieldno + (run.more.length + 1) -
          max run.first.fieldno tuple.node.children.length) mpNil :=
  elements_range hp (fieldno_of_isChain hchain)

include h hchain hparts hlt

lemma finishRun_copyRun : ∃ cursor nullCount, finishRun keyDef tuple.node.children.length run.last
        (fieldCursor tuple.node.children run.first.fieldno) = some (cursor, nullCount) ∧
      copyRun keyDef multikeyIdx run.last cursor nullCount =
        some (elements tuple multikeyIdx run.parts) ∧
      cursor.field = bytesAll (tuple.node.children.drop run.first.fieldno) ∧
      ((run.last.fieldno < tuple.node.children.length ∧ cursor.current = run.last.fieldno ∧
          cursor.fieldEnd = bytesAll (tuple.node.children.drop (run.last.fieldno + 1))) ∨
        (tuple.node.children.length ≤ run.last.fieldno ∧ cursor.current = run.first.fieldno)) := by
  have hl := Run.fieldno_last hchain
  by_cases hen : run.last.fieldno < tuple.node.children.length
  · -- the whole run is in the tuple
    have hnt : ¬ (keyDef.hasOptionalParts &&
        decide (tuple.node.children.length ≤ run.last.fieldno)) = true := by
      simp [hen]
    have hn : mpNextTimes (run.last.fieldno - run.first.fieldno)
        (bytesAll (tuple.node.children.drop (run.first.fieldno + 1))) =
          some (bytesAll (tuple.node.children.drop (run.last.fieldno + 1))) := by
      rw [mpNextTimes_fields (fun node hno => tuple.wf.children node (mem_of_mem_drop hno))
        (by rw [length_drop]; omega), drop_drop]
      congr 3
      omega
    have hf : finishRun keyDef tuple.node.children.length run.last
        (fieldCursor tuple.node.children run.first.fieldno) =
          some (⟨bytesAll (tuple.node.children.drop run.first.fieldno),
            bytesAll (tuple.node.children.drop (run.last.fieldno + 1)),
            run.last.fieldno⟩, 0) := by
      rw [finishRun, if_neg hnt]
      simp only [fieldCursor, hn, map_some]
      congr 3
      omega
    refine ⟨_, _, hf, ?_, rfl, .inl ⟨hen, rfl, rfl⟩⟩
    by_cases hpa : run.first.path = []
    · have hp : ∀ p ∈ run.parts, p.path = [] := by
        by_cases hm : run.more = []
        · simpa [Run.parts, hm] using hpa
        · exact Run.plain hchain hparts hm
      have ht : run.last.fieldno + 1 - run.first.fieldno = run.more.length + 1 := by omega
      have hni : run.first.fieldno + (run.more.length + 1) -
          max run.first.fieldno tuple.node.children.length = 0 := by omega
      rw [copyRun_plain (hp _ run.last_mem), between_fields (by omega), map_some,
        elements_run hchain hp, ht, hni]
    · have hm : run.more = [] := by
        by_contra hm
        exact hpa (Run.plain hchain hparts hm _ mem_cons_self)
      have hs : run.last.fieldno = run.first.fieldno := by rw [hl, hm]; rfl
      have hc := copyRun_path h hparts hlt hm hpa
      rw [fieldCursor] at hc
      rw [hs]
      exact hc
  · -- the run goes on after the end of the tuple
    have hle := not_lt.mp hen
    have hm : run.more ≠ [] := by
      rintro hnl
      rw [hnl, length_nil] at hl
      omega
    have hp := Run.plain hchain hparts hm
    have ho : keyDef.hasOptionalParts = true :=
      h.hasOptionalParts (hparts _ run.last_mem) (partValue_of_le hle)
    refine ⟨_, _, by rw [finishRun, if_pos (by simp [ho, hle])], ?_, rfl, .inr ⟨hle, rfl⟩⟩
    have he : between (bytesAll (tuple.node.children.drop run.first.fieldno)) [] =
        some (bytesAll (tuple.node.children.drop run.first.fieldno)) :=
      between_eq (append_nil _).symm
    rw [copyRun_plain (hp _ run.last_mem)]
    simp only [fieldCursor, he, map_some]
    rw [elements_run hchain hp, take_of_length_le (by rw [length_drop]; omega)]
    congr 3
    omega

end

/-- A run of several parts has none of the fields that come after it. -/
def Run.Apart (run : Run) (later : List Part) : Prop :=
  run.more ≠ [] → ∀ p ∈ run.parts, ∀ q ∈ later, p.fieldno ≠ q.fieldno

/-- No part goes back to a field of a run of several parts. -/
def KeyDef.ReadsOn (keyDef : KeyDef) : Prop :=
  (runs keyDef.hasJsonPaths keyDef.parts).Pairwise fun run later => run.Apart later.parts

section

variable (h : ValidFor tuple keyDef multikeyIdx)
include h

lemma extractRun_eq
    (hchain : run.IsChain keyDef.hasJsonPaths) (hparts : ∀ p ∈ run.parts, p ∈ keyDef.parts)
    (ha : run.Apart later) (hat : cursor.At tuple.node.children (run.parts ++ later)) :
    ∃ cursor', extractRun keyDef multikeyIdx tuple.node.children.length
        (fieldCursor tuple.node.children 0) run cursor =
          some (cursor', runBytes tuple multikeyIdx run) ∧
      cursor'.At tuple.node.children later := by
  have hfr : run.first ∈ run.parts ++ later := by simp [Run.parts]
  -- the cursor is not after the run
  obtain ⟨cursor₁, hcursor₁, hat₁, hle₁⟩ : ∃ cursor₁,
      (if run.first.fieldno < cursor.current then fieldCursor tuple.node.children 0 else cursor) =
        cursor₁ ∧ cursor₁.At tuple.node.children (run.parts ++ later) ∧
      cursor₁.current ≤ run.first.fieldno := by
    split_ifs with hr
    · exact ⟨_, rfl, fieldCursor_at h.count_pos _, Nat.zero_le _⟩
    · exact ⟨_, rfl, hat, not_lt.mp hr⟩
  rw [extractRun, hcursor₁]
  by_cases hlt : run.first.fieldno < tuple.node.children.length
  · have hn : ¬ (keyDef.hasOptionalParts &&
        decide (tuple.node.children.length ≤ run.first.fieldno)) = true := by
      simp [hlt]
    obtain ⟨cursor', nullCount, hfn, hco, hf, hc⟩ := finishRun_copyRun h hchain hparts hlt
    refine ⟨cursor', ?_, ?_⟩
    · dsimp only
      rw [if_neg hn, hat₁.forward tuple.wf.children hfr hlt hle₁]
      simp [hfn, hco, runBytes, hlt]
    · have hl := Run.fieldno_last hchain
      rcases hc with ⟨he, hc, hfi⟩ | ⟨he, hc⟩
      · refine ⟨hc ▸ he, fun q hq hqf => ?_, .inl (hc ▸ hfi)⟩
        -- only a single part is followed by another one of its field
        have hm : run.more = [] := by
          by_contra hm
          exact ha hm _ run.last_mem q hq (hc ▸ hqf).symm
        rw [hf, hc, hl, hm]
        rfl
      · refine ⟨hc ▸ hlt, fun q hq hqf => ?_, .inr fun q hq hql => ?_⟩
        · rw [hf, hc]
        · by_contra hqlt
          have hm : run.more ≠ [] := by
            rintro hni
            rw [hni, length_nil] at hl
            omega
          -- the run has all the fields from its first one to the end of the tuple
          have hme : q.fieldno ∈ run.parts.map Part.fieldno := by
            rw [Run.parts, fieldno_of_isChain hchain, mem_range'_1]
            omega
          obtain ⟨p, hp, hpf⟩ := mem_map.mp hme
          exact ha hm p hp q hq hpf
  · have hle := not_lt.mp hlt
    have ho : keyDef.hasOptionalParts = true :=
      h.hasOptionalParts (hparts _ mem_cons_self) (partValue_of_le hle)
    refine ⟨cursor₁, ?_, hat₁.mono (subset_append_right _ _)⟩
    dsimp only
    rw [if_pos (by simp [ho, hle]), runBytes, if_pos hle]

lemma extractRuns_eq {runs : List Run}
    (hchain : ∀ run ∈ runs, run.IsChain keyDef.hasJsonPaths)
    (hparts : ∀ p ∈ runs.flatMap Run.parts, p ∈ keyDef.parts)
    (hd : runs.Pairwise fun run later => run.Apart later.parts)
    (hat : cursor.At tuple.node.children (runs.flatMap Run.parts)) :
    extractRuns keyDef multikeyIdx tuple.node.children.length
      (fieldCursor tuple.node.children 0) runs cursor =
        some (runs.flatMap (runBytes tuple multikeyIdx)) := by
  induction runs generalizing cursor with
  | nil => rfl
  | cons run runs ih =>
    obtain ⟨hru, hr⟩ := forall_mem_cons.mp hchain
    rw [flatMap_cons] at hparts hat
    obtain ⟨hrl, hl⟩ := pairwise_cons.mp hd
    have ha : run.Apart (runs.flatMap Run.parts) := by
      intro hm p hp q hq
      obtain ⟨other, ho, hq⟩ := mem_flatMap.mp hq
      exact hrl other ho hm p hp q hq
    obtain ⟨cursor', he, hat'⟩ := extractRun_eq h hru
      (fun p hp => hparts p (mem_append_left _ hp)) ha hat
    have hre := ih hr (fun p hp => hparts p (mem_append_right _ hp)) hl hat'
    simp [extractRuns, he, hre]

lemma slowpathRaw_eq (hd : keyDef.ReadsOn) :
    slowpathRaw keyDef tuple.node.bytes multikeyIdx =
      some (tuple.node.bytes.length, mpEncodeArray keyDef.parts.length ++
        (runs keyDef.hasJsonPaths keyDef.parts).flatMap (runBytes tuple multikeyIdx)) := by
  have hf := runs_flatMap keyDef.hasJsonPaths keyDef.parts
  have he := extractRuns_eq h (runs_isChain keyDef.hasJsonPaths keyDef.parts)
    (hf.symm ▸ fun _ hp => hp) hd (fieldCursor_at h.count_pos _)
  have hn : mpNext (bytesAll tuple.node.children) = some (bytesAll (tuple.node.children.drop 1)) :=
    mpNext_field tuple.wf.children h.count_pos
  rw [slowpathRaw, mpDecodeArray_data]
  simp only [bind_eq_bind, bind_some, hn]
  rw [fieldCursor, drop_zero] at he
  rw [he]
  rfl

end

/-- A run that begins after the end of the tuple is one part. -/
def SingleMissing (keyDef : KeyDef) (tuple : Tuple) : Prop :=
  ∀ run ∈ runs keyDef.hasJsonPaths keyDef.parts,
    tuple.node.children.length ≤ run.first.fieldno → run.more = []

lemma elements_missing (hm : ∀ p ∈ parts, tuple.node.children.length ≤ p.fieldno) :
    elements tuple multikeyIdx parts = List.replicate parts.length mpNil := by
  induction parts with
  | nil => rfl
  | cons p parts ih =>
    obtain ⟨hp, hr⟩ := forall_mem_cons.mp hm
    rw [elements_cons, keyElement_of_none (partValue_of_le hp), ih hr]
    rfl

lemma Run.missing (hchain : run.IsChain keyDef.hasJsonPaths)
    (hl : tuple.node.children.length ≤ run.first.fieldno) :
    ∀ p ∈ run.parts, tuple.node.children.length ≤ p.fieldno := by
  intro p hp
  have hm := mem_map_of_mem (f := Part.fieldno) hp
  rw [Run.parts, fieldno_of_isChain hchain, mem_range'_1] at hm
  omega

lemma runBytes_eq (hchain : run.IsChain keyDef.hasJsonPaths)
    (hs : tuple.node.children.length ≤ run.first.fieldno → run.more = []) :
    runBytes tuple multikeyIdx run = elements tuple multikeyIdx run.parts := by
  unfold runBytes
  split_ifs with hle
  · have hl := Run.fieldno_last hchain
    rw [hs hle] at hl
    rw [elements_missing (Run.missing hchain hle), hl, Run.parts, hs hle]
    simp [uint32]
  · rfl

def Run.excess (tuple : Tuple) (run : Run) : Nat :=
  if tuple.node.children.length ≤ run.first.fieldno then run.more.length else 0

/-- The computed number of nils is wrong by twice the excess, modulo 2^32. -/
lemma length_runBytes (hchain : run.IsChain keyDef.hasJsonPaths) (hs : run.more.length ≤ 510) :
    ∃ wraps, (runBytes tuple multikeyIdx run).length + 2 * run.excess tuple =
      (elements tuple multikeyIdx run.parts).length + 2 ^ 32 * wraps := by
  unfold runBytes Run.excess
  split_ifs with hle
  · have hl := Run.fieldno_last hchain
    rw [elements_missing (Run.missing hchain hle), length_replicate, length_replicate,
      hl, Run.parts, length_cons]
    have hc : uint32 (run.first.fieldno - (run.first.fieldno + run.more.length : Nat) + 1) =
        ((1 - run.more.length : Int) % 2 ^ 32).toNat := by
      unfold uint32
      congr 2
      omega
    rw [hc]
    by_cases ho : run.more.length ≤ 1
    · exact ⟨0, by omega⟩
    · exact ⟨1, by omega⟩
  · exact ⟨0, by omega⟩

lemma length_runsBytes {runs : List Run} (hchain : ∀ run ∈ runs, run.IsChain keyDef.hasJsonPaths)
    (hs : (runs.flatMap Run.parts).length ≤ 510) :
    ∃ wraps, (runs.flatMap (runBytes tuple multikeyIdx)).length +
        2 * (runs.map (Run.excess tuple)).sum =
      (elements tuple multikeyIdx (runs.flatMap Run.parts)).length + 2 ^ 32 * wraps := by
  induction runs with
  | nil => exact ⟨0, rfl⟩
  | cons run runs ih =>
    obtain ⟨hru, hr⟩ := forall_mem_cons.mp hchain
    rw [flatMap_cons, length_append, Run.parts, length_cons] at hs
    obtain ⟨wraps, hl⟩ : ∃ wraps, (runBytes tuple multikeyIdx run).length +
        2 * run.excess tuple = (elements tuple multikeyIdx run.parts).length + 2 ^ 32 * wraps :=
      length_runBytes hru (by omega)
    obtain ⟨wraps', hl'⟩ := ih hr (by omega)
    refine ⟨wraps + wraps', ?_⟩
    rw [flatMap_cons, flatMap_cons, elements_append, length_append,
      length_append, map_cons, sum_cons]
    omega

lemma excess_le (tuple : Tuple) (runs : List Run) :
    (runs.map (Run.excess tuple)).sum ≤ (runs.flatMap Run.parts).length := by
  induction runs with
  | nil => exact Nat.le_refl 0
  | cons run runs ih =>
    have hr : run.excess tuple ≤ run.parts.length := by
      unfold Run.excess
      split_ifs <;> simp [Run.parts]
    rw [map_cons, sum_cons, flatMap_cons, length_append]
    omega

/-- The runs are the reference key if and only if no missing one is longer than one part. -/
lemma runsBytes_eq_iff (keyDef : KeyDef) (tuple : Tuple) (multikeyIdx : Option Nat) :
    (runs keyDef.hasJsonPaths keyDef.parts).flatMap (runBytes tuple multikeyIdx) =
      elements tuple multikeyIdx keyDef.parts ↔ SingleMissing keyDef tuple := by
  have hchain := runs_isChain keyDef.hasJsonPaths keyDef.parts
  have hf := runs_flatMap keyDef.hasJsonPaths keyDef.parts
  constructor
  · intro heq run hru hle
    obtain ⟨wraps, hl⟩ : ∃ wraps,
        ((runs keyDef.hasJsonPaths keyDef.parts).flatMap (runBytes tuple multikeyIdx)).length +
          2 * ((runs keyDef.hasJsonPaths keyDef.parts).map (Run.excess tuple)).sum =
        (elements tuple multikeyIdx
          ((runs keyDef.hasJsonPaths keyDef.parts).flatMap Run.parts)).length + 2 ^ 32 * wraps :=
      length_runsBytes hchain (hf.symm ▸ keyDef.count_le)
    have he := excess_le tuple (runs keyDef.hasJsonPaths keyDef.parts)
    have hm : run.excess tuple ≤
        ((runs keyDef.hasJsonPaths keyDef.parts).map (Run.excess tuple)).sum :=
      le_sum_of_mem (mem_map_of_mem hru)
    have hc := keyDef.count_le
    rw [hf] at he hl
    rw [heq] at hl
    have hz : run.excess tuple = 0 := by omega
    rw [Run.excess, if_pos hle] at hz
    exact eq_nil_of_length_eq_zero hz
  · intro hs
    have hr : ∀ rs : List Run, (∀ run ∈ rs, run ∈ runs keyDef.hasJsonPaths keyDef.parts) →
        rs.flatMap (runBytes tuple multikeyIdx) =
          elements tuple multikeyIdx (rs.flatMap Run.parts) := by
      intro rs hrs
      induction rs with
      | nil => rfl
      | cons run rs ih =>
        obtain ⟨hru, hre⟩ := forall_mem_cons.mp hrs
        rw [flatMap_cons, flatMap_cons, elements_append, ih hre,
          runBytes_eq (hchain run hru) (hs run hru)]
    rw [hr _ fun _ hru => hru, hf]

/-- The length of the values of all parts as an array, with one byte for a part without a value. -/
def keySize (keyDef : KeyDef) (tuple : Tuple) (multikeyIdx : Option Nat) : Nat :=
  mpSizeofArray keyDef.parts.length +
    (keyDef.parts.map fun part => (partValue tuple multikeyIdx part).elim 1 (·.bytes.length)).sum

lemma length_elements (parts : List Part) : (elements tuple multikeyIdx parts).length =
    (parts.map fun part => (partValue tuple multikeyIdx part).elim 1 (·.bytes.length)).sum := by
  induction parts with
  | nil => rfl
  | cons part parts ih =>
    rw [elements_cons, length_append, ih, map_cons, sum_cons]
    congr 1
    cases hv : partValue tuple multikeyIdx part with
    | none =>
      rw [keyElement_of_none hv]
      rfl
    | some value =>
      rw [keyElement_of_some hv]
      rfl

lemma length_referenceKey (keyDef : KeyDef) (tuple : Tuple) (multikeyIdx : Option Nat) :
    (referenceKey keyDef tuple multikeyIdx).bytes.length = keySize keyDef tuple multikeyIdx := by
  rw [referenceKey_bytes, length_append, length_mpEncodeArray, length_elements, keySize]

/-- The key is shorter than 2^32 bytes. Unless the parts are the first fields in order, it is not
longer than the tuple, and no two neighbouring parts begin after its end. -/
def Fits (keyDef : KeyDef) (tuple : Tuple) (multikeyIdx : Option Nat) : Prop :=
  if keyDef.isSequential then keySize keyDef tuple multikeyIdx < 2 ^ 32
  else SingleMissing keyDef tuple ∧ keySize keyDef tuple multikeyIdx ≤ tuple.node.bytes.length

/-- The third and the fourth field, which may be missing, and the primary key. -/
def nullableDef : KeyDef where
  parts := [⟨2, [], true⟩, ⟨3, [], true⟩, ⟨0, [], false⟩]
  minFieldCount := 1
  parts_ne := by simp
  count_le := by decide
  lexed := by simp

lemma wf_array {n : Nat} {raw : Bytes} {children : List Node}
    (hr : ∀ rest, decodeHead (raw ++ rest) = some (.array n, rest))
    (hl : children.length = n) (hc : ∀ child ∈ children, child.WF) :
    (Node.mk raw (.array n) children).WF :=
  ⟨hr, hl, by simp, hc⟩

def oneNode : Node := scalarNode [1] (.uint 1)

def textNode : Node := scalarNode [0xa3, 0x61, 0x62, 0x63] (.str [0x61, 0x62, 0x63])

lemma wf_oneNode : oneNode.WF := wf_scalarNode (fun _ => rfl) rfl (by simp)

lemma wf_textNode : textNode.WF := wf_scalarNode (fun _ => rfl) rfl (by simp)

/-- The tuple `[1, "abc"]`. -/
def pairTuple : Tuple where
  node := .mk [0x92] (.array 2) [oneNode, textNode]
  wf := wf_array (fun _ => rfl) rfl (by simp [wf_oneNode, wf_textNode])
  isArray := rfl
  size_lt := by decide

lemma valid_pairTuple : ValidFor pairTuple nullableDef none where
  count_pos := by decide
  count_ge := by decide
  multikey := by decide
  part := by
    intro part hp
    simp only [nullableDef, mem_cons, not_mem_nil, or_false] at hp
    rcases hp with rfl | rfl | rfl <;> simp [partValue, pathValue, pairTuple, children]

/-- The tuple `[1, "abc", 1]`. -/
def tripleTuple : Tuple where
  node := .mk [0x93] (.array 3) [oneNode, textNode, oneNode]
  wf := wf_array (fun _ => rfl) rfl (by simp [wf_oneNode, wf_textNode])
  isArray := rfl
  size_lt := by decide

lemma valid_tripleTuple : ValidFor tripleTuple nullableDef none where
  count_pos := by decide
  count_ge := by decide
  multikey := by decide
  part := by
    intro part hp
    simp only [nullableDef, mem_cons, not_mem_nil, or_false] at hp
    rcases hp with rfl | rfl | rfl <;> simp [partValue, pathValue, tripleTuple, children]

end TarantoolStorage.Key
