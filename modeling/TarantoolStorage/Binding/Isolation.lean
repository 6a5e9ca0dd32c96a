import TarantoolStorage.Binding.Delivery

/-! Transaction isolation: only the owner of the BEGIN executes inside its transaction. -/
namespace TarantoolStorage.Binding

open Transition

variable {ι ω β : Type} {c : Configuration} {E : Engine β} {box : β} {f g : Fiber β}
  {m : Message ι ω β}

/-- `transaction_owner` names the owner whose BEGIN opened the open transaction. -/
def Fiber.Owned (f : Fiber β) : Prop :=
  ∀ t o, f.txn = some t → t.opener = some o → f.transactionOwner = o

/-- No operation of the log ran inside a transaction opened by somebody else's BEGIN. -/
def Isolated (log : List (Event ι ω β)) : Prop :=
  ∀ m t failed o, Event.executed m (some t) failed ∈ log → t.opener = some o → m.owner = o

/-- A message whose functions never leave a transaction of their own open. -/
def Message.OpensNoTransaction (m : Message ι ω β) : Prop :=
  (∀ b n, (m.function m.input b).txn ≠ .start n) ∧
    ∀ e ∈ m.batch, ∀ b n, (e.function e.input b).txn ≠ .start n

/-- Every open transaction was opened by a BEGIN message. -/
def Fiber.Begun (f : Fiber β) : Prop := ∀ t, f.txn = some t → ∃ o, t.opener = some o

lemma opener_of_keep {n : Nat} {t : Txn} {old : Option Txn}
    (h : (TxnEffect.keep n).apply old = some t) :
    ∃ t₀, old = some t₀ ∧ t₀.opener = t.opener := by
  cases old with
  | none => exact nomatch h
  | some t₀ =>
    obtain rfl : { t₀ with inSubStmt := n } = t := by simpa [TxnEffect.apply] using h
    exact ⟨t₀, rfl, rfl⟩

/-- A called function can end the transaction or replace it, never give it another opener. -/
lemma owned_apply (hf : f.Owned) (r : CallResult ω β) : (r.apply f).Owned := by
  intro t o ht ho
  change r.txn.apply f.txn = some t at ht
  cases he : r.txn with
  | keep n =>
    rw [he] at ht
    obtain ⟨t₀, h₀, heq⟩ := opener_of_keep ht
    exact hf t₀ o h₀ (heq.trans ho)
  | finish => simp [he, TxnEffect.apply] at ht
  | start n =>
    rw [he] at ht
    obtain rfl : (⟨none, n⟩ : Txn) = t := by simpa [TxnEffect.apply] using ht
    exact nomatch ho

lemma begun_apply (hf : f.Begun) {r : CallResult ω β} (hr : ∀ n, r.txn ≠ .start n) :
    (r.apply f).Begun := by
  intro t ht
  change r.txn.apply f.txn = some t at ht
  cases he : r.txn with
  | keep n =>
    rw [he] at ht
    obtain ⟨t₀, h₀, heq⟩ := opener_of_keep ht
    obtain ⟨o, ho⟩ := hf t₀ h₀
    exact ⟨o, heq ▸ ho⟩
  | finish => simp [he, TxnEffect.apply] at ht
  | start n => exact (hr n he).elim

@[simp] lemma handleCall_txn (f : Fiber β) (m : Message ι ω β) :
    (tarantoolMessageHandleCall f m).1.txn = ((m.function m.input f.box).apply f).txn := by
  unfold tarantoolMessageHandleCall
  dsimp only
  split <;> rfl

@[simp] lemma handleCall_transactionOwner (f : Fiber β) (m : Message ι ω β) :
    (tarantoolMessageHandleCall f m).1.transactionOwner = f.transactionOwner := by
  unfold tarantoolMessageHandleCall
  dsimp only
  split <;> rfl

@[simp] lemma batchElementHandle_txn (f : Fiber β) (e : BatchElement ι ω β) :
    (batchElementHandle f e).1.txn = ((e.function e.input f.box).apply f).txn := by
  unfold batchElementHandle
  dsimp only
  split <;> rfl

@[simp] lemma batchElementHandle_transactionOwner (f : Fiber β) (e : BatchElement ι ω β) :
    (batchElementHandle f e).1.transactionOwner = f.transactionOwner := by
  unfold batchElementHandle
  dsimp only
  split <;> rfl

lemma owned_congr (ht : g.txn = f.txn) (ho : g.transactionOwner = f.transactionOwner)
    (hf : f.Owned) : g.Owned := by
  intro t o h
  rw [ht] at h
  rw [ho]
  exact hf t o h

lemma begun_congr (ht : g.txn = f.txn) (hf : f.Begun) : g.Begun := by
  intro t h
  rw [ht] at h
  exact hf t h

lemma owned_batchLoop (hf : f.Owned) (es : List (BatchElement ι ω β)) :
    (batchLoop f es).1.Owned := by
  induction es generalizing f with
  | nil => exact hf
  | cons e es ih =>
    exact ih (owned_congr (batchElementHandle_txn f e) (batchElementHandle_transactionOwner f e)
      (owned_apply hf (e.function e.input f.box)))

lemma begun_batchLoop (hf : f.Begun) (es : List (BatchElement ι ω β))
    (hes : ∀ e ∈ es, ∀ b n, (e.function e.input b).txn ≠ .start n) : (batchLoop f es).1.Begun := by
  induction es generalizing f with
  | nil => exact hf
  | cons e es ih =>
    apply ih
    · exact begun_congr (batchElementHandle_txn f e)
        (begun_apply hf (hes e List.mem_cons_self f.box))
    · intro e' he'
      exact hes e' (List.mem_cons_of_mem e he')

lemma owner_of_not_foreign {t : Txn} (hf : isForeign f m = false) (ht : f.txn = some t) :
    m.owner = f.transactionOwner := by
  simpa [isForeign, ht] using hf

lemma begin_txn (f : Fiber β) (owner : Nat) :
    ((tarantoolBegin E owner { f with transactionOwner := owner }).1.txn = f.txn ∨
      f.txn = none ∧ (tarantoolBegin E owner { f with transactionOwner := owner }).1.txn =
        some ⟨some owner, 0⟩) ∧
      (tarantoolBegin E owner { f with transactionOwner := owner }).1.transactionOwner = owner := by
  unfold tarantoolBegin boxTxnBegin
  dsimp only
  split
  · exact ⟨.inl rfl, rfl⟩
  · rename_i ht
    split
    · exact ⟨.inl rfl, rfl⟩
    · exact ⟨.inr ⟨ht, rfl⟩, rfl⟩

lemma owned_begin (hf : f.Owned) (hm : isForeign f m = false) :
    (tarantoolBegin E m.owner { f with transactionOwner := m.owner }).1.Owned := by
  intro t o ht ho
  obtain ⟨hk | ⟨_, hn⟩, hw⟩ := begin_txn (E := E) f m.owner
  · rw [hk] at ht
    rw [hw, owner_of_not_foreign hm ht]
    exact hf t o ht ho
  · obtain rfl : (⟨some m.owner, 0⟩ : Txn) = t := by simpa [hn] using ht
    rw [hw]
    exact Option.some.inj ho

lemma begun_begin (hf : f.Begun) (owner : Nat) :
    (tarantoolBegin E owner { f with transactionOwner := owner }).1.Begun := by
  intro t ht
  obtain ⟨hk | ⟨_, hn⟩, -⟩ := begin_txn (E := E) f owner
  · exact hf t (hk ▸ ht)
  · obtain rfl : (⟨some owner, 0⟩ : Txn) = t := by simpa [hn] using ht
    exact ⟨owner, rfl⟩

lemma commit_txn (f : Fiber β) :
    ((tarantoolCommit E f).1.txn = f.txn ∨ (tarantoolCommit E f).1.txn = none) ∧
      (tarantoolCommit E f).1.transactionOwner = f.transactionOwner := by
  unfold tarantoolCommit boxTxnCommit
  split
  · exact ⟨.inl rfl, rfl⟩
  · split
    · exact ⟨.inl rfl, rfl⟩
    · split <;> exact ⟨.inr rfl, rfl⟩

lemma rollback_txn (f : Fiber β) :
    ((tarantoolRollback E f).1.txn = f.txn ∨ (tarantoolRollback E f).1.txn = none) ∧
      (tarantoolRollback E f).1.transactionOwner = f.transactionOwner := by
  unfold tarantoolRollback boxTxnRollback
  split
  · exact ⟨.inl rfl, rfl⟩
  · split
    · exact ⟨.inl rfl, rfl⟩
    · exact ⟨.inr rfl, rfl⟩

lemma owned_of_kept_or_ended (hf : f.Owned)
    (hg : (g.txn = f.txn ∨ g.txn = none) ∧ g.transactionOwner = f.transactionOwner) : g.Owned := by
  obtain ⟨ht | ht, ho⟩ := hg
  · exact owned_congr ht ho hf
  · intro t o h
    simp [ht] at h

lemma begun_of_kept_or_ended (hf : f.Begun) (hg : g.txn = f.txn ∨ g.txn = none) : g.Begun := by
  rcases hg with ht | ht
  · exact begun_congr ht hf
  · intro t h
    simp [ht] at h

lemma owned_messageSwitch (hf : f.Owned) (hm : isForeign f m = false) :
    (messageSwitch E f m).1.Owned := by
  unfold messageSwitch
  split
  · exact owned_congr (handleCall_txn f m) (handleCall_transactionOwner f m)
      (owned_apply hf (m.function m.input f.box))
  · exact owned_batchLoop hf m.batch
  · exact owned_begin hf hm
  · exact owned_of_kept_or_ended hf (rollback_txn f)
  · exact owned_of_kept_or_ended hf (commit_txn f)
  · exact hf

lemma begun_messageSwitch (hf : f.Begun) (hm : m.OpensNoTransaction) :
    (messageSwitch E f m).1.Begun := by
  unfold messageSwitch
  split
  · exact begun_congr (handleCall_txn f m) (begun_apply hf (hm.1 f.box))
  · exact begun_batchLoop hf m.batch hm.2
  · exact begun_begin hf m.owner
  · exact begun_of_kept_or_ended hf (rollback_txn f).1
  · exact begun_of_kept_or_ended hf (commit_txn f).1
  · exact hf

lemma isolated_append {log events : List (Event ι ω β)} (hl : Isolated log)
    (he : Isolated events) : Isolated (log ++ events) := by
  intro m t failed o h
  rcases List.mem_append.mp h with h | h
  · exact hl m t failed o h
  · exact he m t failed o h

lemma isolated_executionEvents (hf : f.Owned) (hm : isForeign f m = false) :
    Isolated (executionEvents E f m) := by
  intro m' t failed o h ho
  unfold executionEvents at h
  split at h
  · obtain ⟨rfl, ht, -⟩ : m' = m ∧ some t = f.txn ∧ failed = operationFails E f m := by
      simpa using h
    exact (owner_of_not_foreign hm ht.symm).trans (hf t o ht.symm ho)
  · exact nomatch h

lemma isolated_step {s t : Loop ι ω β} {a : Action ι ω β} (h : step c E s a = some t)
    (hs : s.fiber.Owned ∧ Isolated s.log) : t.fiber.Owned ∧ Isolated t.log := by
  obtain ⟨hf, hl⟩ := hs
  cases step_cases h with
  | accept k sender _ => exact ⟨hf, isolated_append hl (by simp [Isolated])⟩
  | execute m drain _ hm =>
    exact ⟨owned_messageSwitch hf hm, isolated_append hl (isolated_executionEvents hf hm)⟩
  | reject m count drain _ => exact ⟨hf, isolated_append hl (by simp [Isolated])⟩
  | _ => exact ⟨hf, hl⟩

lemma begun_step {s t : Loop ι ω β} {a : Action ι ω β} (h : step c E s a = some t)
    (ha : ∀ m callback, a = .sendMessage m callback → m.OpensNoTransaction)
    (hs : s.fiber.Begun ∧ Held Message.OpensNoTransaction s) :
    t.fiber.Begun ∧ Held Message.OpensNoTransaction t := by
  obtain ⟨hf, hh⟩ := hs
  refine ⟨?_, held_step (fun m _ hm => hm) h (fun m cb he _ => ha m cb he) hh⟩
  cases step_cases h with
  | execute m drain hc _ =>
    by_cases hm : m.type = .stop
    · simpa [messageSwitch, hm] using hf
    · exact begun_messageSwitch hf (hh.1 m (by simp [Loop.pending, hc]) hm)
  | _ => exact hf

/-- Isolation along every run, for functions that may do anything to the transaction slot: a
BEGIN's transaction admits only operations of its owner, whom `transaction_owner` names while it is
open. If no function opens a transaction, every one is a BEGIN's. -/
theorem transaction_isolation {actions : List (Action ι ω β)} {s : Loop ι ω β}
    (h : run (step c E) (initial c box) actions = some s) :
    (∀ t o, s.fiber.txn = some t → t.opener = some o → s.fiber.transactionOwner = o) ∧
      (∀ m t failed o, Event.executed m (some t) failed ∈ s.log → t.opener = some o → m.owner = o) ∧
      ((∀ m callback, Action.sendMessage m callback ∈ actions → m.OpensNoTransaction) →
        ∀ t, s.fiber.txn = some t → ∃ o, t.opener = some o) := by
  have hi : s.fiber.Owned ∧ Isolated s.log :=
    run_invariant (P := fun s => s.fiber.Owned ∧ Isolated s.log) isolated_step h
      ⟨by simp [Fiber.Owned, initial], by simp [Isolated, initial]⟩
  refine ⟨hi.1, hi.2, ?_⟩
  intro hs
  have hb : s.fiber.Begun ∧ Held Message.OpensNoTransaction s := by
    refine run_invariant_along (P := fun s => s.fiber.Begun ∧ Held Message.OpensNoTransaction s)
      (C := fun _ a => ∀ m callback, a = .sendMessage m callback → m.OpensNoTransaction)
      begun_step h (along_of_forall_mem ?_) ⟨by simp [Fiber.Begun, initial], held_initial⟩
    intro a ha _ m callback he
    exact hs m callback (he ▸ ha)
  exact hb.1

/-- Owner 1 opens a transaction, owner 2's CALL is put back, owner 1's CALL runs inside. -/
def interleavedActions : List (Action Unit Unit Unit) :=
  submit (sample 1 .begin 1) ++ submit (sample 2 .call 2) ++ submit (sample 3 .call 1) ++
    [.dequeue, .handle, .dequeue, .handle, .resendTry, .dequeue, .handle]

theorem transaction_isolation_interleaved : ∃ s,
    run (step sampleConfiguration sampleEngine) (initial sampleConfiguration ())
      interleavedActions = some s ∧
      s.fiber.txn = some ⟨some 1, 0⟩ ∧ s.fiber.transactionOwner = 1 := by
  have key (s : Loop Unit Unit Unit)
      (hs : run (step sampleConfiguration sampleEngine) (initial sampleConfiguration ())
        interleavedActions = some s) :
      s.fiber.txn = some ⟨some 1, 0⟩ ∧ s.fiber.transactionOwner = 1 := by
    have hi := transaction_isolation hs
    cases hs
    exact ⟨rfl, hi.1 _ 1 rfl rfl⟩
  exact ⟨_, rfl, key _ rfl⟩

end TarantoolStorage.Binding
