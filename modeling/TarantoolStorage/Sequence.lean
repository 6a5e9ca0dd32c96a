import TarantoolStorage.Lib.Checked
import TarantoolStorage.Lib.Run

/-! Sequences, and the keys that the requests to a space take from one. -/
namespace TarantoolStorage.Sequence

open Checked Transition Option

abbrev IsInt64 (n : Int) : Prop := -2 ^ 63 ≤ n ∧ n < 2 ^ 63

/-- A definition that passes the checks of `sequence_def_new_from_tuple`. -/
structure SequenceDef where
  (step min max start : Int)
  cycle : Bool
  step_ne : step ≠ 0
  start_mem : min ≤ start ∧ start ≤ max
  isInt64 : IsInt64 step ∧ IsInt64 min ∧ IsInt64 max

inductive SequenceError where
  | overflow
  | outOfMemory

/-- Signed addition is undefined where it overflows. -/
def addInt64 (a b : Int) : Option Int := do
  assertThat (IsInt64 (a + b))
  return a + b

/-- The value after a given one in `sequence_next`; no value is the jump to `overflow`. -/
def SequenceDef.after (d : SequenceDef) (value : Int) : Option (Option Int) :=
  if 0 < d.step then
    if value < d.min then some (some d.min)
    else if 0 ≤ value ∧ 2 ^ 63 - 1 - value < d.step then some none
    else do
      let value ← addInt64 value d.step
      return if d.max < value then none else some value
  else do
    assertThat (d.step < 0)
    if d.max < value then return some d.max
    else if value < 0 ∧ d.step < -2 ^ 63 - value then return none
    else
      let value ← addInt64 value d.step
      return if value < d.min then none else some value

/-- `sequence_next`: what it returns is the new value of the sequence as well. -/
def sequenceNext (d : SequenceDef) (isOom : Bool) : Option Int → Option (Except SequenceError Int)
  | none => some (if isOom then .error .outOfMemory else .ok d.start)
  | some value => do
    let next ← d.after value
    match next.or (if d.cycle then some (if 0 < d.step then d.min else d.max) else none) with
    | none => return .error .overflow
    | some value =>
      assertThat (d.min ≤ value ∧ value ≤ d.max)
      assertThat (isOom = false) -- `unreachable` after `light_sequence_replace`
      return .ok value

/-- `sequence_update`. -/
def sequenceUpdate (d : SequenceDef) (isOom : Bool) (value : Int) :
    Option Int → Option (Except SequenceError Int)
  | some old =>
    if 0 < d.step ∧ old < value ∨ d.step < 0 ∧ value < old then do
      assertThat (isOom = false)
      return .ok value
    else some (.ok old)
  | none => some (if isOom then .error .outOfMemory else .ok value)

/-- An INSERT or REPLACE by its auto-increment field, and which of its allocations fail. That of
the hash table fails for a value that is there only while a snapshot is taken. -/
inductive Request where
  | nil (dataOom tupleOom : Bool)
  | int (dataOom : Bool) (value : Int64)
  | other

/-- The value of the sequence, and the integer keys of the requests so far. -/
structure Space where
  value : Option Int := none
  keys : List Int := []

def requestHandleSequence (d : SequenceDef) (s : Space) : Request → Option Space
  | .nil dataOom tupleOom => (sequenceNext d dataOom s.value).map fun
    | .ok value => ⟨some value, if tupleOom then s.keys else s.keys ++ [value]⟩
    | .error _ => s
  | .int dataOom value => (sequenceUpdate d dataOom value.toInt s.value).map fun
    | .ok new => ⟨some new, s.keys ++ [value.toInt]⟩
    | .error _ => s
  | .other => some s

/-- The hash table gets memory to replace a value. -/
def Request.Fits (s : Space) : Request → Prop
  | .nil dataOom _ | .int dataOom _ => dataOom = true → s.value = none
  | .other => True

/-- The place of a value in the direction of the sequence. -/
def SequenceDef.place (d : SequenceDef) (a : Int) : Int := if 0 < d.step then a else -a

/-- There is a value to go on with. -/
def SequenceDef.HasNext (d : SequenceDef) (value : Int) : Prop :=
  d.min ≤ value + d.step ∧ value + d.step ≤ d.max

structure Space.Inv (d : SequenceDef) (s : Space) : Prop where
  isInt64 : ∀ value, s.value = some value → IsInt64 value
  keys_le : d.cycle = false → ∀ value, s.value = some value → ∀ key ∈ s.keys,
    d.place key ≤ d.place value
  keys_nil : s.value = none → s.keys = []

variable {d : SequenceDef} {value : Int} {s : Space}

lemma addInt64_eq {a b : Int} (h : IsInt64 (a + b)) : addInt64 a b = some (a + b) := by
  rw [addInt64, assertThat_of h]
  rfl

/-- The checks rule out an overflow, and a new value lies beyond the old one. -/
lemma after_spec (h : IsInt64 value) : Ensures (d.after value) fun next =>
    (next = none → ¬ d.HasNext value) ∧ ∀ new, next = some new →
      (d.min ≤ new ∧ new ≤ d.max) ∧ d.place value < d.place new := by
  obtain ⟨hs, hmi, hma⟩ := d.isInt64
  have hn := d.step_ne
  have hst := d.start_mem
  unfold SequenceDef.after SequenceDef.HasNext SequenceDef.place
  split
  · split
    · exact ensures_some ⟨by simp, by rintro _ ⟨⟩; omega⟩
    · split
      · exact ensures_some ⟨by omega, by simp⟩
      · rw [addInt64_eq (by omega)]
        exact ensures_some (by split <;> simp <;> omega)
  · refine ensures_assert (by omega) ?_
    split
    · exact ensures_some ⟨by simp, by rintro _ ⟨⟩; omega⟩
    · split
      · exact ensures_some ⟨by omega, by simp⟩
      · rw [addInt64_eq (by omega)]
        exact ensures_some (by split <;> simp <;> omega)

lemma sequenceNext_spec {isOom : Bool} (h : s.Inv d) (ho : isOom = true → s.value = none) :
    Ensures (sequenceNext d isOom s.value) fun result => (∀ e, result = .error e → isOom = true ∨
        d.cycle = false ∧ ∃ value, s.value = some value ∧ ¬ d.HasNext value) ∧
      ∀ new, result = .ok new → (d.min ≤ new ∧ new ≤ d.max) ∧
        (d.cycle = false → ∀ value, s.value = some value → d.place value < d.place new) := by
  have hst := d.start_mem
  cases hv : s.value with
  | none =>
    cases isOom with
    | true => exact ensures_some (by simp)
    | false =>
      refine ensures_some ⟨by simp, ?_⟩
      rintro _ ⟨⟩
      exact ⟨hst, by simp⟩
  | some value =>
    obtain rfl : isOom = false := by simpa [hv] using ho
    refine ensures_bind (after_spec (h.isInt64 value hv)) fun next hn => ?_
    cases next with
    | some new =>
      obtain ⟨hm, hl⟩ := hn.2 new rfl
      refine ensures_assert hm (ensures_assert rfl (ensures_some ⟨by simp, ?_⟩))
      rintro _ ⟨⟩
      exact ⟨hm, fun _ _ hv => some.inj hv ▸ hl⟩
    | none =>
      cases hc : d.cycle with
      | false => exact ensures_some ⟨fun _ _ => .inr ⟨rfl, value, rfl, hn.1 rfl⟩, by simp⟩
      | true =>
        have hm : d.min ≤ (if 0 < d.step then d.min else d.max) ∧
            (if 0 < d.step then d.min else d.max) ≤ d.max := by
          split <;> omega
        refine ensures_assert hm (ensures_assert rfl (ensures_some ⟨by simp, ?_⟩))
        rintro _ ⟨⟩
        exact ⟨hm, by simp⟩

/-- The sequence moves on to a value that the new key, if there is one, does not come after. -/
lemma Space.Inv.move {key new : Int} {keys : List Int} (h : s.Inv d) (hn : IsInt64 new)
    (hv : d.cycle = false → ∀ value, s.value = some value → d.place value ≤ d.place new)
    (hk : d.place key ≤ d.place new) (hs : keys ⊆ s.keys ++ [key]) :
    Space.Inv d ⟨some new, keys⟩ where
  isInt64 := by
    rintro _ ⟨⟩
    exact hn
  keys_le := by
    rintro hc _ ⟨⟩ k hm
    rcases List.mem_append.mp (hs hm) with hm | hm
    · cases ho : s.value with
      | none => simp [h.keys_nil ho] at hm
      | some old => exact (h.keys_le hc old ho k hm).trans (hv hc old ho)
    · rwa [List.mem_singleton.mp hm]
  keys_nil := by simp

/-- A key is taken that is within the bounds and, unless the sequence starts over, was in no request
before; or an allocation fails, or there is no value left. -/
def Space.TakesNew (d : SequenceDef) (s : Space) (isOom : Bool) (t : Space) : Prop :=
  (∃ key, t.keys = s.keys ++ [key] ∧ d.min ≤ key ∧ key ≤ d.max ∧
    (d.cycle = false → key ∉ s.keys)) ∨
  t.keys = s.keys ∧ (isOom = true ∨
    d.cycle = false ∧ ∃ value, s.value = some value ∧ ¬ d.HasNext value)

lemma Space.Inv.nil {dataOom tupleOom : Bool} (h : s.Inv d)
    (hf : (Request.nil dataOom tupleOom).Fits s) :
    ∃ t, requestHandleSequence d s (.nil dataOom tupleOom) = some t ∧ t.Inv d ∧
      s.TakesNew d (dataOom || tupleOom) t := by
  have hb := d.isInt64
  obtain ⟨result, hr, he, hn⟩ := sequenceNext_spec h hf
  rw [requestHandleSequence, hr]
  cases result with
  | error e => exact ⟨s, rfl, h, .inr ⟨rfl, (he e rfl).imp_left (by simp [·])⟩⟩
  | ok new =>
    obtain ⟨hm, hl⟩ := hn new rfl
    have hi : IsInt64 new := by omega
    refine ⟨_, rfl, h.move hi (fun hc value hv => (hl hc value hv).le) le_rfl
      (by split <;> simp), ?_⟩
    cases tupleOom with
    | true => exact .inr ⟨rfl, .inl (by simp)⟩
    | false =>
      refine .inl ⟨new, rfl, hm.1, hm.2, fun hc hk => ?_⟩
      cases ho : s.value with
      | none => simp [h.keys_nil ho] at hk
      | some old => exact (h.keys_le hc old ho new hk).not_gt (hl hc old ho)

lemma Space.Inv.step {request : Request} (hf : request.Fits s) (h : s.Inv d) :
    ∃ t, requestHandleSequence d s request = some t ∧ t.Inv d := by
  cases request with
  | nil dataOom tupleOom => exact (h.nil hf).imp fun t ht => ⟨ht.1, ht.2.1⟩
  | int dataOom value =>
    have hi : IsInt64 value.toInt := ⟨value.le_toInt, value.toInt_lt⟩
    unfold requestHandleSequence
    cases ho : s.value with
    | none =>
      cases dataOom with
      | true => exact ⟨s, rfl, h⟩
      | false => exact ⟨_, rfl, h.move hi (by simp [ho]) le_rfl (by simp)⟩
    | some old =>
      obtain rfl : dataOom = false := by simpa [Request.Fits, ho] using hf
      dsimp only [sequenceUpdate]
      split_ifs
      · refine ⟨_, rfl, h.move hi ?_ le_rfl (List.Subset.refl _)⟩
        grind [SequenceDef.place]
      · refine ⟨_, rfl, h.move (h.isInt64 old ho) ?_ ?_ (List.Subset.refl _)⟩
        · simp [ho]
        · grind [SequenceDef.place, d.step_ne]
  | other => exact ⟨s, rfl, h⟩

/-- No assertion fails and nothing overflows while the hash table gets memory to replace values, and
whatever keys were given or generated before, the next one that is generated is new. -/
theorem generated_key_is_new {d : SequenceDef} {requests : List Request}
    (h : Along (requestHandleSequence d) (fun s request => request.Fits s) {} requests) :
    ∃ s, run (requestHandleSequence d) {} requests = some s ∧
      ∀ dataOom tupleOom, (Request.nil dataOom tupleOom).Fits s →
        ∃ t, requestHandleSequence d s (.nil dataOom tupleOom) = some t ∧
          s.TakesNew d (dataOom || tupleOom) t := by
  obtain ⟨s, hr, hi⟩ := run_total (P := Space.Inv d) (fun hf hs => hs.step hf) h
    ⟨by simp, by simp, by simp⟩
  refine ⟨s, hr, fun dataOom tupleOom hf => ?_⟩
  obtain ⟨t, ht, -, hk⟩ := hi.nil hf
  exact ⟨t, ht, hk⟩

/-- Every second number up to 9. -/
def oddNumbers : SequenceDef where
  step := 2
  min := 1
  max := 9
  start := 1
  cycle := false
  step_ne := by decide
  start_mem := by decide
  isInt64 := by decide

/-- The first allocation fails; a key that is given moves the sequence on. -/
theorem generated_key_after_given : ∃ s t, run (requestHandleSequence oddNumbers) {}
      [.nil true false, .nil false false, .int false 4] = some s ∧ s.keys = [1, 4] ∧
    requestHandleSequence oddNumbers s (.nil false false) = some t ∧ t.keys = [1, 4, 6] ∧
    s.TakesNew oddNumbers false t := by
  have hf : Along (requestHandleSequence oddNumbers) (fun s request => request.Fits s) {}
      [.nil true false, .nil false false, .int false 4] := by
    simp [Along, Request.Fits]
  obtain ⟨s, hr, hn⟩ := generated_key_is_new hf
  obtain ⟨t, ht, hk⟩ := hn false false (by simp [Request.Fits])
  cases hr
  cases ht
  exact ⟨_, _, rfl, rfl, rfl, rfl, hk⟩

end TarantoolStorage.Sequence
