import TarantoolStorage.Binding.Executor

/-! What the client learns about a batch: it looks only at the error of the message. -/
namespace TarantoolStorage.Binding

variable {ι ω β δ : Type}

/-- The results of the elements' functions, called in order from this fiber. -/
def batchResults (f : Fiber β) : List (BatchElement ι ω β) → List (CallResult ω β)
  | [] => []
  | e :: es => e.function e.input f.box :: batchResults (batchElementHandle f e).1 es

/-- `sendBatch` fails exactly when an element fails; else `readBatch` reads the output of every
element's function. -/
def BatchReported (followUp : Except StorageException Unit) (decode : ω → δ) (empty : δ)
    (f : Fiber β) (m : Message ι ω β) : Prop :=
  ((∃ exception,
      sendBatch .delivered followUp (tarantoolMessageHandleBatch f m).2 = .error exception) ↔
      batchFails f m.batch = true) ∧
    ∀ value, sendBatch .delivered followUp (tarantoolMessageHandleBatch f m).2 = .ok value →
      List.Forall₂ (fun r x => r.failure = none ∧ x = read decode empty r.output)
        (batchResults f m.batch) (readBatch decode empty value)

/-- The element keeps the output of its function, failed or not. -/
lemma batchElementHandle_output (f : Fiber β) (e : BatchElement ι ω β) :
    (batchElementHandle f e).2.output = (e.function e.input f.box).output := by
  unfold batchElementHandle
  dsimp only
  split <;> rfl

/-- When no element fails, the batch is read back as the outputs of the functions. -/
lemma batchLoop_read {decode : ω → δ} {empty : δ} {f : Fiber β}
    {es : List (BatchElement ι ω β)} (h : batchFails f es = false) :
    List.Forall₂ (fun r x => r.failure = none ∧ x = read decode empty r.output)
      (batchResults f es) ((batchLoop f es).2.map fun e => read decode empty e.output) := by
  induction es generalizing f with
  | nil => exact .nil
  | cons e es ih =>
    obtain ⟨ho, hr⟩ : (e.function e.input f.box).failure = none ∧
        batchFails (batchElementHandle f e).1 es = false := by
      simpa [batchFails] using h
    exact .cons ⟨ho, congrArg (read decode empty) (batchElementHandle_output f e)⟩ (ih hr)

/-- The batch handler never writes the error of the message. -/
lemma sendBatch_completes {followUp : Except StorageException Unit} {f : Fiber β}
    {m : Message ι ω β} (hm : m.error = none) :
    sendBatch .delivered followUp (tarantoolMessageHandleBatch f m).2 =
      .ok (tarantoolMessageHandleBatch f m).2 := by
  have he : (tarantoolMessageHandleBatch f m).2.error = none := hm
  simp [sendBatch, awaitMessage, Sent.delivered, Except.bind, he]

/-- A batch is reported as it went exactly when none of its elements fails. -/
theorem batch_reported_iff {followUp : Except StorageException Unit} {decode : ω → δ} {empty : δ}
    {f : Fiber β} {m : Message ι ω β} (hm : m.error = none) :
    BatchReported followUp decode empty f m ↔ batchFails f m.batch = false := by
  have ho : sendBatch .delivered followUp (tarantoolMessageHandleBatch f m).2 =
      .ok (tarantoolMessageHandleBatch f m).2 := sendBatch_completes hm
  constructor
  · rintro ⟨hi, -⟩
    by_contra hf
    obtain ⟨exception, he⟩ := hi.mpr (by simpa using hf)
    exact nomatch ho.symm.trans he
  · intro h
    refine ⟨?_, ?_⟩
    · constructor
      · rintro ⟨exception, he⟩
        exact nomatch ho.symm.trans he
      · intro hf
        simp [h] at hf
    · intro value hv
      obtain rfl := Except.ok.inj (ho.symm.trans hv)
      exact batchLoop_read h

/-- A batch of functions given by their outputs and failures. -/
def sampleBatch (results : List (Option Nat × Option String)) : Message Unit Nat Unit where
  id := 1
  type := .batch
  function _ _ := ⟨none, none, .keep 0, ()⟩
  input := ()
  output := none
  callbackSendPort := 1
  callbackHandle := none
  batch := results.map fun (output, failure) =>
    ⟨fun _ _ => ⟨output, failure, .keep 0, ()⟩, (), none, none, .limit⟩
  error := none
  errorType := .limit
  owner := 1

def sampleFiber : Fiber Unit := ⟨none, 0, none, ()⟩

theorem batch_reported_two :
    BatchReported (.ok ()) some none sampleFiber (sampleBatch [(some 5, none), (none, none)]) :=
  (batch_reported_iff rfl).mpr rfl

def partlyFailing : Message Unit Nat Unit :=
  sampleBatch [(some 5, none), (none, some "fail"), (some 7, none)]

/-- The batch completes all the same, and the failed element reads like an empty result. -/
theorem failed_element_unreported : batchFails sampleFiber partlyFailing.batch = true ∧
      (sendBatch .delivered (.ok ()) (tarantoolMessageHandleBatch sampleFiber partlyFailing).2).map
        (readBatch some none) = .ok [some 5, none, some 7] ∧
      ¬ BatchReported (.ok ()) some none sampleFiber partlyFailing := by
  refine ⟨rfl, rfl, ?_⟩
  intro h
  obtain ⟨exception, he⟩ := h.1.mpr rfl
  exact nomatch he

end TarantoolStorage.Binding
