import TarantoolStorage.Binding.Delivery

/-!
Errors and the messages that caused them. Only CALL and BATCH read and clear the diagnostics area.
-/
namespace TarantoolStorage.Binding

open Transition List Option Event

variable {ι ω β : Type} {c : Configuration} {E : Engine β} {box : β}
  {log events : List (Event ι ω β)} {f : Fiber β} {m : Message ι ω β} {s t : Loop ι ω β}
  {a : Action ι ω β}

/-- The operation at this address ran and failed, or was answered without running. -/
def OperationFailed (log : List (Event ι ω β)) (id : Nat) : Prop :=
  (∃ m txn, executed m txn true ∈ log ∧ m.id = id) ∨ id ∉ executedIds log

/-- The error field of every posted CALL, BEGIN, COMMIT or ROLLBACK tells its own outcome. -/
def ErrorsDelivered (log : List (Event ι ω β)) : Prop :=
  ∀ port m, posted port m ∈ log → m.type ∈ [.call, .begin, .commit, .rollback] →
    (m.error ≠ none ↔ OperationFailed log m.id)

/-- Every BEGIN, COMMIT and ROLLBACK of the log succeeded. -/
def TransactionOpsSucceed (log : List (Event ι ω β)) : Prop :=
  ∀ m txn, executed m txn true ∈ log → m.type = .call ∨ m.type = .batch

/-- A failed BEGIN, COMMIT or ROLLBACK. -/
def Event.isSilentFailure : Event ι ω β → Bool
  | .executed m _ true => m.type != .call && m.type != .batch
  | _ => false

lemma transactionOpsSucceed_iff :
    TransactionOpsSucceed log ↔ ∀ e ∈ log, e.isSilentFailure = false := by
  constructor
  · intro h e he
    match e, he with
    | .executed m txn true, he => rcases h m txn he with ht | ht <;> simp [isSilentFailure, ht]
    | .executed _ _ false, _ => rfl
    | .accepted _, _ => rfl
    | .posted _ _, _ => rfl
  · intro h m txn hm
    have hf := h _ hm
    simp only [isSilentFailure] at hf
    cases ht : m.type <;> simp_all

instance (log : List (Event ι ω β)) : Decidable (TransactionOpsSucceed log) :=
  decidable_of_iff _ transactionOpsSucceed_iff.symm

@[simp] lemma handleCall_diag (f : Fiber β) (m : Message ι ω β) :
    (tarantoolMessageHandleCall f m).1.diag = none := by
  unfold tarantoolMessageHandleCall
  dsimp only
  split
  · rfl
  · assumption

/-- On a clean diagnostics area CALL reports exactly its own failure. -/
lemma handleCall_error (hd : f.diag = none) (hm : m.error = none) :
    (tarantoolMessageHandleCall f m).2.error = (m.function m.input f.box).failure := by
  unfold tarantoolMessageHandleCall
  dsimp only
  split
  · rename_i error he
    simpa [CallResult.apply, hd] using he.symm
  · rename_i he
    simpa [CallResult.apply, hd, hm] using he.symm

@[simp] lemma batchElementHandle_diag (f : Fiber β) (e : BatchElement ι ω β) :
    (batchElementHandle f e).1.diag = none := by
  unfold batchElementHandle
  dsimp only
  split
  · rfl
  · assumption

lemma batchLoop_diag (hd : f.diag = none) (es : List (BatchElement ι ω β)) :
    (batchLoop f es).1.diag = none := by
  induction es generalizing f with
  | nil => exact hd
  | cons e es ih => exact ih (batchElementHandle_diag f e)

lemma begin_diag {owner : Nat} (hr : (tarantoolBegin E owner f).2 = 0) :
    (tarantoolBegin E owner f).1.diag = f.diag := by
  unfold tarantoolBegin boxTxnBegin at hr ⊢
  split at hr
  · simp at hr
  · split at hr
    · simp at hr
    · rfl

lemma commit_diag (hr : (tarantoolCommit E f).2 = 0) : (tarantoolCommit E f).1.diag = f.diag := by
  unfold tarantoolCommit boxTxnCommit at hr ⊢
  split at hr
  · rfl
  · rename_i txn _
    by_cases hs : txn.inSubStmt = 0
    · simp only [hs, ne_eq, not_true_eq_false, ite_false] at hr ⊢
      split at hr
      · simp at hr
      · rfl
    · simp [hs] at hr

lemma rollback_diag (hr : (tarantoolRollback E f).2 = 0) :
    (tarantoolRollback E f).1.diag = f.diag := by
  unfold tarantoolRollback boxTxnRollback at hr ⊢
  split at hr
  · rfl
  · rename_i txn _
    by_cases hs : txn.inSubStmt = 0
    · simp [hs]
    · simp [hs] at hr

/-- BEGIN, COMMIT and ROLLBACK post the message exactly as it came. -/
lemma messageSwitch_silent {m' : Message ι ω β} (h : (messageSwitch E f m).2 = some m')
    (hc : m.type ≠ .call) (hb : m.type ≠ .batch) : m' = m := by
  cases ht : m.type with
  | call => exact (hc ht).elim
  | batch => exact (hb ht).elim
  | stop => simp [messageSwitch, ht] at h
  | begin => simpa [messageSwitch, ht] using h.symm
  | commit => simpa [messageSwitch, ht] using h.symm
  | rollback => simpa [messageSwitch, ht] using h.symm

/-- With clean diagnostics, and unless a transaction operation fails, the switch leaves them clean
and the posted message tells its own outcome. -/
lemma messageSwitch_outcome (hd : f.diag = none) (hm : m.error = none)
    (ho : operationFails E f m = true → m.type = .call ∨ m.type = .batch) :
    (messageSwitch E f m).1.diag = none ∧
      ∀ m', (messageSwitch E f m).2 = some m' → m.type ≠ .batch →
        (m'.error ≠ none ↔ operationFails E f m = true) := by
  cases ht : m.type with
  | call =>
    simp only [messageSwitch, operationFails, ht]
    refine ⟨handleCall_diag f m, ?_⟩
    intro m' hm' _
    rw [← some.inj hm', handleCall_error hd hm, ← isSome_iff_ne_none]
  | batch =>
    simp only [messageSwitch, ht]
    exact ⟨batchLoop_diag hd m.batch, fun _ _ hb => (hb rfl).elim⟩
  | begin =>
    have hr : (tarantoolBegin E m.owner { f with transactionOwner := m.owner }).2 = 0 := by
      simpa [operationFails, ht] using ho
    simp only [messageSwitch, operationFails, ht, hr]
    exact ⟨(begin_diag hr).trans hd, fun m' hm' _ => by simp [← some.inj hm', hm]⟩
  | commit =>
    have hr : (tarantoolCommit E f).2 = 0 := by simpa [operationFails, ht] using ho
    simp only [messageSwitch, operationFails, ht, hr]
    exact ⟨(commit_diag hr).trans hd, fun m' hm' _ => by simp [← some.inj hm', hm]⟩
  | rollback =>
    have hr : (tarantoolRollback E f).2 = 0 := by simpa [operationFails, ht] using ho
    simp only [messageSwitch, operationFails, ht, hr]
    exact ⟨(rollback_diag hr).trans hd, fun m' hm' _ => by simp [← some.inj hm', hm]⟩
  | stop =>
    simp only [messageSwitch, ht]
    exact ⟨hd, fun m' hm' => nomatch hm'⟩

/-- What the log and the diagnostics area look like while no transaction operation fails. -/
def CleanIfSucceeding (s : Loop ι ω β) : Prop :=
  TransactionOpsSucceed s.log → s.fiber.diag = none ∧ ErrorsDelivered s.log

/-- Every execution is followed by its post, and a transaction operation's post is silent. -/
def PostsSilently (log : List (Event ι ω β)) : Prop :=
  ∀ m txn failed, executed m txn failed ∈ log → m.type ≠ .call → m.type ≠ .batch →
    ∃ port m', posted port m' ∈ log ∧ m'.type ∈ [.call, .begin, .commit, .rollback] ∧
      m'.id = m.id ∧ m'.error = none

lemma transactionOpsSucceed_of_append (h : TransactionOpsSucceed (log ++ events)) :
    TransactionOpsSucceed log ∧ TransactionOpsSucceed events :=
  ⟨fun m txn hm => h m txn (mem_append_left _ hm), fun m txn hm => h m txn (mem_append_right _ hm)⟩

/-- New events about other messages do not change what is known about a posted one. -/
lemma operationFailed_append {id : Nat} (h : id ∉ executedIds events) :
    OperationFailed (log ++ events) id ↔ OperationFailed log id := by
  have hne (m : Message ι ω β) (txn : Option Txn) (hm : executed m txn true ∈ events) :
      m.id ≠ id := by
    intro he
    exact h (mem_filterMap.mpr ⟨_, hm, by simp [he]⟩)
  constructor
  · rintro (⟨m, txn, hm, hi⟩ | hn)
    · rcases mem_append.mp hm with hm | hm
      · exact .inl ⟨m, txn, hm, hi⟩
      · exact (hne m txn hm hi).elim
    · exact .inr fun he => hn (by simp [he])
  · rintro (⟨m, txn, hm, hi⟩ | hn)
    · exact .inl ⟨m, txn, mem_append_left _ hm, hi⟩
    · exact .inr (by simp [hn, h])

lemma errorsDelivered_append (hl : ErrorsDelivered log)
    (ho : ∀ port m, posted port m ∈ log → m.type ≠ .stop → m.id ∉ executedIds events)
    (hn : ∀ port m, posted port m ∈ events → m.type ≠ .batch → (m.error ≠ none ↔
      OperationFailed (log ++ events) m.id)) : ErrorsDelivered (log ++ events) := by
  intro port m hm ht
  rcases mem_append.mp hm with hm | hm
  · rw [operationFailed_append (ho port m hm (by rintro he; simp [he] at ht))]
    exact hl port m hm ht
  · exact hn port m hm (by rintro he; simp [he] at ht)

lemma operationFailed_executed (hd : Delivered s) {m' : Message ι ω β} (hm : m ∈ s.control.inHand)
    (ht : m.type ≠ .stop) {txn : Option Txn} {failed : Bool} {port : Nat} :
    OperationFailed (s.log ++ [.executed m txn failed, .posted port m']) m.id ↔ failed = true := by
  have hf := (hd.not_answered (mem_clientKeys hm ht)).2
  constructor
  · rintro (⟨m₀, txn₀, h₀, hi⟩ | hn)
    · rcases mem_append.mp h₀ with h₀ | h₀
      · exact (hf (mem_filterMap.mpr ⟨_, h₀, by simp [hi]⟩)).elim
      · simp_all
    · simp [executedIds] at hn
  · rintro rfl
    exact .inl ⟨m, txn, by simp, rfl⟩

lemma clean_step (h : step c E s a = some t) (hd : Delivered s)
    (hh : Held (fun m => m.error = none) s) (hs : CleanIfSucceeding s) :
    CleanIfSucceeding t := by
  cases step_cases h with
  | accept k sender _ =>
    intro hok
    obtain ⟨hdi, hl⟩ := hs (transactionOpsSucceed_of_append hok).1
    exact ⟨hdi, errorsDelivered_append hl (by simp [executedIds]) (by simp)⟩
  | execute m drain hc _ =>
    have hme : m ∈ s.control.inHand := by simp [hc]
    intro hok
    obtain ⟨hp, hno⟩ := transactionOpsSucceed_of_append hok
    obtain ⟨hdi, hl⟩ := hs hp
    by_cases hst : m.type = .stop
    · simpa [messageSwitch, executionEvents, hst] using And.intro hdi hl
    have her : m.error = none := hh.1 m (by simp [Loop.pending, hc]) hst
    obtain ⟨m', hm'⟩ : ∃ m', (messageSwitch E s.fiber m).2 = some m' :=
      ne_none_iff_exists'.mp fun hn => hst (messageSwitch_posts_iff.mp hn)
    obtain ⟨hi, hty⟩ := messageSwitch_posted hm'
    have hev : executionEvents E s.fiber m =
        [.executed m s.fiber.txn (operationFails E s.fiber m), .posted m.callbackSendPort m'] := by
      simp [executionEvents, hm']
    obtain ⟨hdi', ho⟩ := messageSwitch_outcome (E := E) hdi her fun hf =>
      hno m s.fiber.txn (by simp [hev, hf])
    refine ⟨hdi', ?_⟩
    simp only [hev]
    refine errorsDelivered_append hl ?_ ?_
    · intro port x hx htx he
      obtain heq : x.id = m.id := by simpa [executedIds] using he
      exact (hd.not_answered (mem_clientKeys hme hst)).1 (heq ▸ mem_postedKeys hx htx)
    · intro port x hx hb
      obtain ⟨-, rfl⟩ : port = m.callbackSendPort ∧ x = m' := by simpa using hx
      rw [hi, operationFailed_executed hd hme hst]
      exact ho x hm' (hty ▸ hb)
  | reject m count drain hc =>
    intro hok
    obtain ⟨hdi, hl⟩ := hs (transactionOpsSucceed_of_append hok).1
    refine ⟨hdi, ?_⟩
    intro port x hx ht
    have hne : x.type ≠ .stop := by rintro he; simp [he] at ht
    rw [operationFailed_append (by simp [executedIds])]
    rcases mem_append.mp hx with hx | hx
    · exact hl port x hx ht
    · obtain ⟨-, rfl⟩ : port = m.callbackSendPort ∧ x = rejected m := by simpa using hx
      have hme : m ∈ s.control.inHand := by simp [hc]
      exact iff_of_true (by simp [rejected]) (.inr (hd.not_answered (mem_clientKeys hme hne)).2)
  | _ => exact hs

lemma postsSilently_append (hl : PostsSilently log) (he : PostsSilently events) :
    PostsSilently (log ++ events) := by
  intro m txn failed hm hc hb
  rcases mem_append.mp hm with hm | hm
  · obtain ⟨port, m', hp, hr⟩ := hl m txn failed hm hc hb
    exact ⟨port, m', mem_append_left _ hp, hr⟩
  · obtain ⟨port, m', hp, hr⟩ := he m txn failed hm hc hb
    exact ⟨port, m', mem_append_right _ hp, hr⟩

lemma postsSilently_step (h : step c E s a = some t) (hh : Held (fun m => m.error = none) s)
    (hs : PostsSilently s.log) : PostsSilently t.log := by
  cases step_cases h with
  | accept k sender _ => exact postsSilently_append hs (by simp [PostsSilently])
  | reject m count drain _ => exact postsSilently_append hs (by simp [PostsSilently])
  | execute m drain hc _ =>
    refine postsSilently_append hs ?_
    intro x txn failed hx hca hb
    unfold executionEvents at hx ⊢
    split at hx
    · rename_i m' hm'
      obtain ⟨rfl, -, -⟩ : x = m ∧ txn = s.fiber.txn ∧ failed = operationFails E s.fiber m := by
        simpa using hx
      obtain rfl := messageSwitch_silent hm' hca hb
      have hst : m'.type ≠ .stop := by
        intro he
        simp [messageSwitch_posts_iff.mpr he] at hm'
      have hl : m'.type ∈ [MessageType.call, .begin, .commit, .rollback] := by
        cases ht : m'.type <;> simp_all
      exact ⟨m'.callbackSendPort, m', by simp, hl, rfl, hh.1 m' (by simp [Loop.pending, hc]) hst⟩
    · simp at hx
  | _ => exact hs

lemma held_error_step (h : step c E s a = some t) (hs : Held (fun m => m.error = none) s) :
    Held (fun m => m.error = none) t :=
  held_step (fun _ _ hm => hm) h (fun m _ _ hm => by simp_all [Message.zeroed]) hs

/-- Errors reach the message that caused them exactly in the runs in which no BEGIN,
COMMIT or ROLLBACK fails. -/
theorem errors_delivered_iff {s : Loop ι ω β} (h : Reachable c E box s) :
    ErrorsDelivered s.log ↔ TransactionOpsSucceed s.log := by
  obtain ⟨actions, hr⟩ := h
  have hi : (Delivered s ∧ Held (fun m => m.error = none) s) ∧
      CleanIfSucceeding s ∧ PostsSilently s.log := by
    refine run_invariant (P := fun s => (Delivered s ∧ Held (fun m => m.error = none) s) ∧
      CleanIfSucceeding s ∧ PostsSilently s.log) ?_ hr ?_
    · rintro u a v hu ⟨⟨hd, hh⟩, hc, hp⟩
      exact ⟨⟨delivered_step hu hd, held_error_step hu hh⟩, clean_step hu hd hh hc,
        postsSilently_step hu hh hp⟩
    · refine ⟨⟨delivered_initial, held_initial⟩, ?_, ?_⟩
      · exact fun _ => ⟨rfl, by simp [ErrorsDelivered, initial]⟩
      · simp [PostsSilently, initial]
  obtain ⟨-, hcl, hs⟩ := hi
  refine ⟨?_, fun ho => (hcl ho).2⟩
  intro hde m txn hm
  by_contra hother
  obtain ⟨hca, hb⟩ := not_or.mp hother
  obtain ⟨port, m', hp, ht, hid, he⟩ := hs m txn true hm hca hb
  exact (hde port m' hp ht).mpr (.inl ⟨m, txn, hm, hid.symm⟩) he

/-- Owner 1 opens and commits a transaction, then owner 2 calls a function. -/
def commitActions : List (Action Unit Unit Unit) :=
  submit (sample 1 .begin 1) ++ submit (sample 2 .commit 1) ++ submit (sample 3 .call 2) ++
    [.dequeue, .handle, .dequeue, .handle, .dequeue, .handle]

theorem errors_delivered_commit : ∃ s,
    run (step sampleConfiguration sampleEngine) (initial sampleConfiguration ())
      commitActions = some s ∧
      s.fiber.txn = none ∧ ErrorsDelivered s.log := by
  have key (s : Loop Unit Unit Unit)
      (hs : run (step sampleConfiguration sampleEngine) (initial sampleConfiguration ())
        commitActions = some s) : s.fiber.txn = none ∧ ErrorsDelivered s.log := by
    have hi := errors_delivered_iff ⟨_, hs⟩
    cases hs
    exact ⟨rfl, hi.mpr (by decide)⟩
  exact ⟨_, rfl, key _ rfl⟩

def failingEngine : Engine Unit :=
  { sampleEngine with txnCommit := fun _ => (some "Failed to write to disk", ()) }

/-- The failed COMMIT is posted without an error and the next CALL, which succeeds, gets it. -/
theorem failed_commit_misreported : ∃ s,
    run (step sampleConfiguration failingEngine) (initial sampleConfiguration ())
      commitActions = some s ∧
      ¬ ErrorsDelivered s.log ∧
      (∃ m txn, executed m txn true ∈ s.log ∧ m.id = 2 ∧ m.type = .commit) ∧
      (∃ port m, posted port m ∈ s.log ∧ m.id = 2 ∧ m.error = none) ∧
      (∃ m txn, executed m txn false ∈ s.log ∧ m.id = 3 ∧ m.type = .call) ∧
      ∃ port m, posted port m ∈ s.log ∧ m.id = 3 ∧ m.error = some "Failed to write to disk" := by
  refine ⟨_, rfl, ?_, ⟨_, _, mem_of_getElem? (i := 5) rfl, rfl, rfl⟩,
    ⟨_, _, mem_of_getElem? (i := 6) rfl, rfl, rfl⟩,
    ⟨_, _, mem_of_getElem? (i := 7) rfl, rfl, rfl⟩,
    ⟨_, _, mem_of_getElem? (i := 8) rfl, rfl, rfl⟩⟩
  intro h
  exact (h _ _ (mem_of_getElem? (i := 6) rfl) (by decide)).mpr
    (.inl ⟨_, _, mem_of_getElem? (i := 5) rfl, rfl⟩) rfl

end TarantoolStorage.Binding
