import TarantoolStorage.Limbo.Effects

/-! Every step of an instance is a sequence of effects. -/
namespace TarantoolStorage

open Checked Relation Transition List Option LimboNode ReflTransGen LimboEntry

variable {s s' : LimboNode} {l l' : TxnLimbo} {e : LimboEntry} {txn : Nat} {lsn : Int}
  {f : LimboEntry → LimboEntry} {queue : List LimboEntry} {waiter : Option Nat} {waitAck : Bool}
  {kept : List JournalEntry} {a : NodeAction}

lemma entry?_none (h : l.entry? txn = none) : ∀ e ∈ l.queue, e.txn ≠ txn := by
  intro e he heq
  simpa [heq] using find?_eq_none.mp h e he

lemma entry?_some (h : l.entry? txn = some e) : e ∈ l.queue ∧ e.txn = txn :=
  ⟨mem_of_find?_eq_some h, by simpa using find?_some h⟩

lemma update_eq_self (h : ∀ e ∈ l.queue, e.txn ≠ txn) : l.update txn f = l := by
  have hm : (l.queue.map fun e => if e.txn = txn then f e else e) = l.queue := by
    conv_rhs => rw [← map_id l.queue]
    exact map_congr_left fun e he => by simp [h e he]
  simp [TxnLimbo.update, hm]

lemma LimboNode.Ordered.queue_ids (h : s.Ordered) :
    s.limbo.queue.Pairwise fun a b => a.txn < b.txn :=
  (pairwise_map (f := slot)).mp h.ids

lemma LimboNode.Ordered.unique (h : s.Ordered) {d : LimboEntry} (hd : d ∈ s.limbo.queue)
    (he : e ∈ s.limbo.queue) (ht : d.txn = e.txn) : d = e := by
  have hn : (s.limbo.queue.map txn).Nodup := by
    rw [List.Nodup, pairwise_map]
    exact h.queue_ids.imp fun hl => Nat.ne_of_lt hl
  exact inj_on_of_nodup_map hn hd he ht

lemma abort_some (h : txnLimboAbort l txn = some l') :
    ∃ queue e, l.queue = queue ++ [e] ∧ e.txn = txn ∧
      l' = (txnLimboPop l queue).complete { e with isRollback := true } := by
  unfold txnLimboAbort at h
  split at h
  · cases h
  · rename_i e earlier hr
    obtain ⟨ht, h⟩ := assert_bind_eq_some.mp h
    refine ⟨earlier.reverse, e, ?_, ht, (some.inj h).symm⟩
    rw [← reverse_reverse l.queue, hr, reverse_cons]

lemma abort_pushed (h : txnLimboAbort
      { l with queue := l.queue ++ [e], len := l.len + 1 } txn = some l') :
    e.txn = txn ∧ l' = { l with
      completed := l.completed ++ [{ e with isRollback := true }]
      rollbackCount := l.rollbackCount + 1 } := by
  obtain ⟨queue, d, hq, ht, rfl⟩ := abort_some h
  obtain ⟨rfl, hl⟩ := append_inj' hq rfl
  obtain rfl : e = d := by simpa using hl
  exact ⟨ht, by simp [txnLimboPop, TxnLimbo.complete]⟩

lemma quorumTimeoutLoop_some (hq : l.queue = queue)
    (h : quorumTimeoutLoop txn queue.reverse l = some l') :
    ∃ kept back, queue = kept ++ back ∧ (∀ e ∈ back, e.isDone = false) ∧
      (kept = [] ∨ ∃ e ∈ back.head?, e.txn = txn) ∧
      l' = l.rollBackEnd txnSignatureQuorumTimeout kept back := by
  induction queue using List.reverseRecOn generalizing l with
  | nil =>
    obtain rfl : l = l' := some.inj h
    have hs : l.rollBackEnd txnSignatureQuorumTimeout l.queue [] = l := by
      simp [TxnLimbo.rollBackEnd]
    exact ⟨[], [], rfl, by simp, .inl rfl, (hq ▸ hs).symm⟩
  | append_singleton queue e ih =>
    rw [reverse_append, reverse_singleton, singleton_append] at h
    simp only [quorumTimeoutLoop, reverse_reverse] at h
    obtain ⟨hdo, h⟩ := assert_bind_eq_some.mp h
    split at h
    · rename_i ht
      refine ⟨queue, [e], rfl, by simpa using hdo, .inr ⟨e, rfl, ht⟩, ?_⟩
      rw [← some.inj h]
      simp [TxnLimbo.rollBackEnd, txnLimboPop, TxnLimbo.complete, rolledBack]
    · obtain ⟨kept, back, rfl, hb, hk, rfl⟩ := ih rfl h
      refine ⟨kept, back ++ [e], by simp, ?_, ?_, ?_⟩
      · rw [forall_mem_append, forall_mem_singleton]
        exact ⟨hb, hdo⟩
      · rcases hk with hk | ⟨d, hd, ht⟩
        · exact .inl hk
        · refine .inr ⟨d, ?_, ht⟩
          rw [head?_append, mem_def.mp hd]
          rfl
      · simp only [TxnLimbo.rollBackEnd, txnLimboPop, TxnLimbo.complete, rolledBack,
          length_append, length_singleton, reverse_append, reverse_singleton,
          map_cons, append_assoc, cons_append, nil_append, TxnLimbo.mk.injEq,
          true_and, and_true]
        push_cast
        omega

/-- Counts only grow, and an LSN is confirmed when the count of its entry is a quorum. -/
lemma ackLoop_some {quorum prevLsn confirmLsn : Int} {counts counts' : Nat → Int} {start : Int}
    (h : ackLoop quorum prevLsn lsn queue counts start = some (counts', confirmLsn)) :
    (∀ t, counts t ≤ counts' t) ∧ (confirmLsn = start ∨ ∃ e ∈ queue, e.waitAck = true ∧
      e.lsn = confirmLsn ∧ quorum ≤ counts' e.txn) := by
  induction queue generalizing counts start with
  | nil =>
    cases h
    exact ⟨fun _ => Int.le_refl _, .inl rfl⟩
  | cons e rest ih =>
    simp only [ackLoop] at h
    obtain ⟨-, h⟩ := assert_bind_eq_some.mp h
    split at h
    · cases h
      exact ⟨fun _ => Int.le_refl _, .inl rfl⟩
    · split at h
      · obtain ⟨-, h⟩ := assert_bind_eq_some.mp h
        exact (ih h).imp id (Or.imp_right exists_mem_cons_of_exists)
      · rename_i ha
        split at h
        · exact (ih h).imp id (Or.imp_right exists_mem_cons_of_exists)
        · obtain ⟨hl, hr⟩ := ih h
          have hc := hl e.txn
          rw [Function.update_self] at hc
          refine ⟨fun t => ?_, ?_⟩
          · have ht := hl t
            by_cases he : t = e.txn
            · subst he
              omega
            · rwa [Function.update_of_ne he] at ht
          · rcases hr with hr | hr
            · split at hr
              · exact .inl hr
              · refine .inr ⟨e, mem_cons_self, by simpa using ha, hr.symm, ?_⟩
                omega
            · exact .inr (exists_mem_cons_of_exists hr)

lemma parametersLoop_some {quorum confirmLsn start : Int} {counts : Nat → Int}
    (h : parametersLoop quorum counts queue start = some confirmLsn) :
    confirmLsn = start ∨ ∃ e ∈ queue, e.waitAck = true ∧ e.lsn = confirmLsn ∧
      quorum ≤ counts e.txn := by
  induction queue generalizing start with
  | nil => exact .inl (some.inj h).symm
  | cons e rest ih =>
    simp only [parametersLoop] at h
    obtain ⟨-, h⟩ := assert_bind_eq_some.mp h
    split at h
    · obtain ⟨-, h⟩ := assert_bind_eq_some.mp h
      exact (ih h).imp_right exists_mem_cons_of_exists
    · rename_i ha
      split at h
      · exact (ih h).imp_right exists_mem_cons_of_exists
      · rename_i hc
        obtain ⟨-, h⟩ := assert_bind_eq_some.mp h
        rcases ih h with hr | hr
        · exact .inr ⟨e, mem_cons_self, by simpa using ha, hr.symm, by omega⟩
        · exact .inr (exists_mem_cons_of_exists hr)

abbrev LimboNode.Effects : LimboNode → LimboNode → Prop := ReflTransGen Effect

lemma LimboNode.Effects.ordered (he : s.Effects s') (h : s.Ordered) : s'.Ordered := by
  induction he with
  | refl => exact h
  | tail _ he ih => exact he.ordered ih

lemma LimboNode.Ordered.hear (h : s.Ordered) (acked : List (Nat × Int)) :
    Ordered { s with acked := acked } :=
  h.shrink {}

lemma LimboNode.Fibered.hear (h : s.Fibered) (acked : List (Nat × Int)) :
    Fibered { s with acked := acked } :=
  ⟨h.nodup, h.lt, h.foreign, h.instance_ne, h.instance_lt, h.sent⟩

lemma waitComplete_effects (ho : s.Ordered) (hf : s.Local txn)
    (h : txnLimboWaitComplete s txn = some s') : s.Effects s' := by
  unfold txnLimboWaitComplete at h
  split at h
  · obtain rfl : s = s' := some.inj h
    exact ReflTransGen.refl
  · rename_i e he
    obtain ⟨hm, ht⟩ := entry?_some he
    obtain ⟨hl, h⟩ := assert_bind_eq_some.mp h
    obtain ⟨-, h⟩ := assert_bind_eq_some.mp h
    cases h
    refine single (.wait hf fun d hd hdt => ?_)
    obtain rfl : d = e := ho.unique hd hm (hdt.trans ht.symm)
    exact hl

lemma resume_effects (ho : s.Ordered) (hf : ∀ t ∈ waiter, s.Local t)
    (h : s.resume waiter = some s') : s.Effects s' := by
  cases waiter with
  | none =>
    obtain rfl : s = s' := some.inj h
    exact ReflTransGen.refl
  | some t => exact waitComplete_effects ho (hf t rfl) h

lemma writeConfirm_effects (hf : ∀ t ∈ waiter, s.Local t)
    (hq : ∃ e ∈ s.limbo.queue, e.waitAck = true ∧ e.lsn = lsn ∧ s.quorum ≤ s.ackCount e.txn)
    (h : txnLimboWriteConfirm s lsn waiter = some s') : s.Effects s' := by
  unfold txnLimboWriteConfirm at h
  obtain ⟨hg, h⟩ := assert_bind_eq_some.mp h
  obtain ⟨hi, h⟩ := assert_bind_eq_some.mp h
  obtain ⟨-, h⟩ := assert_bind_eq_some.mp h
  cases h
  exact single (.writeConfirm hg hi hf hq)

lemma ack_effects {replicaId : Nat} (ho : s.Ordered) (how : s.limbo.ownerId = s.instanceId)
    (hfr : ∀ t ∈ waiter, s.Local t) (h : txnLimboAck s replicaId lsn waiter = some s') :
    Effects { s with acked := s.acked ++ [(replicaId, lsn)] } s' := by
  have ho₁ : Ordered { s with acked := s.acked ++ [(replicaId, lsn)] } := ho.hear _
  simp only [txnLimboAck] at h
  split at h
  · exact resume_effects ho₁ hfr h
  split at h
  · exact resume_effects ho₁ hfr h
  rename_i hi
  have hi : s.isInRollback = false := by simpa using hi
  obtain ⟨-, h⟩ := assert_bind_eq_some.mp h
  split at h
  · exact resume_effects ho₁ hfr h
  rename_i hne
  obtain ⟨vclock, hf, h⟩ := bind_eq_some_iff.mp h
  obtain ⟨⟨counts, confirmLsn⟩, hl, h⟩ := bind_eq_some_iff.mp h
  have hc : Effect { s with acked := s.acked ++ [(replicaId, lsn)] } _ :=
    .count how (by simp) hi hne hf hl
  refine head hc ?_
  split at h
  · exact resume_effects (hc.ordered ho₁) hfr h
  · rename_i hco
    refine writeConfirm_effects hfr ?_ h
    exact (ackLoop_some hl).2.resolve_left fun hn => hco (.inl hn)

lemma parameters_effects (ho : s.Ordered) (h : txnLimboOnParametersChange s = some s') :
    s.Effects s' := by
  unfold txnLimboOnParametersChange at h
  split at h
  · obtain rfl : s = s' := some.inj h
    exact ReflTransGen.refl
  obtain ⟨confirmLsn, hl, h⟩ := bind_eq_some_iff.mp h
  split at h
  · rename_i hc
    refine writeConfirm_effects (by simp) ?_ h
    refine (parametersLoop_some hl).resolve_left fun hno => ?_
    have hn := ho.confirmed_nonneg
    omega
  · obtain rfl : s = s' := some.inj h
    exact ReflTransGen.refl

lemma append_ok {id : Nat} {s₁ : LimboNode} (h : txnLimboAppend s id txn waitAck = .ok s₁) :
    s.isInRollback = false ∧ s.limbo.ownerId ≠ replicaIdNil ∧
      s.limbo.ownerId = (if id = 0 then s.instanceId else id) ∧
      s₁ = { s with
        limbo := { s.limbo with
          queue := s.limbo.queue ++ [new txn waitAck]
          len := s.limbo.len + 1 }
        ackCount := Function.update s.ackCount txn 0 } := by
  unfold txnLimboAppend at h
  split at h
  · cases h
  rename_i hi
  extract_lets owner at h
  split at h
  · cases h
  rename_i hn
  split at h
  · split at h <;> cases h
  · rename_i ho
    cases h
    exact ⟨by simpa using hi, hn, not_not.mp ho, rfl⟩

lemma commit_input {accepted : Bool} (h : s.commit waitAck accepted = some s') :
    s.Input s' ∧ s'.nextTxn = s.nextTxn + 1 := by
  simp only [commit] at h
  split at h
  · cases h
    exact ⟨.skip, rfl⟩
  rename_i hp
  have hh : waitAck = true ∨ s.limbo.queue ≠ [] := by
    cases waitAck <;> simp_all
  split at h
  · cases h
    exact ⟨.skip, rfl⟩
  · rename_i s₁ ha
    obtain ⟨hi, hn, ho, rfl⟩ := append_ok ha
    have ho : s.limbo.ownerId = s.instanceId := ho
    split at h
    · cases h
      exact ⟨.push hi ho hn hh, rfl⟩
    · obtain ⟨limbo, hab, h⟩ := bind_eq_some_iff.mp h
      cases h
      obtain ⟨ht, hl⟩ := abort_pushed hab
      exact ⟨.reject ht rfl (.inl rfl) hl, rfl⟩

lemma applyTx_input {originId : Nat} {accepted : Bool}
    (hv : s.Valid (.applyTx originId waitAck lsn accepted)) (ho : s.Ordered)
    (h : s.applyTx originId waitAck lsn accepted = some s') :
    s.Input s' ∧ s'.nextTxn = s.nextTxn + 1 ∧
      (s.limbo.ownerId = s.instanceId → s'.limbo = s.limbo) := by
  obtain ⟨hor, hi, hpo, hl, hls⟩ := hv
  simp only [applyTx] at h
  split at h
  · cases h
    exact ⟨.skip, rfl, fun _ => rfl⟩
  rename_i hp
  have hh : waitAck = true ∨ s.limbo.queue ≠ [] := by
    cases waitAck <;> simp_all
  split at h
  · cases h
    exact ⟨.skip, rfl, fun _ => rfl⟩
  · rename_i s₁ hap
    obtain ⟨hin, hni, how, rfl⟩ := append_ok hap
    have how : s.limbo.ownerId = originId := by
      have hor : originId ≠ 0 := hor
      simpa [hor] using how
    have hr : s.limbo.ownerId ≠ s.instanceId := how ▸ hi
    suffices hb : s.Input s' ∧ s'.nextTxn = s.nextTxn + 1 from
      ⟨hb.1, hb.2, fun hlo => absurd hlo hr⟩
    obtain ⟨s₂, ha, h⟩ := bind_eq_some_iff.mp h
    -- the LSN is there from the beginning, unless the transaction does not need one
    obtain ⟨lsn', hls', rfl⟩ : ∃ lsn',
        (waitAck = true ∧ 0 < lsn' ∧ (∀ e ∈ s.limbo.queue, e.lsn < lsn') ∨
          waitAck = false ∧ lsn' = -1) ∧
        s₂ = { s with
          nextTxn := s.nextTxn + 1
          limbo := { s.limbo with
            queue := s.limbo.queue ++ [(new s.nextTxn waitAck).assign lsn']
            len := s.limbo.len + 1 }
          ackCount := Function.update s.ackCount s.nextTxn 0 } := by
      split at ha
      · rename_i hac
        refine ⟨lsn, .inl ⟨hac, hpo, hls how.symm⟩, ?_⟩
        rw [txnLimboAssignLsn, if_neg hr] at ha
        obtain ⟨_, -, ha⟩ := bind_eq_some_iff.mp ha
        simp only [assert_bind_eq_some] at ha
        obtain ⟨-, -, -, -, -, ha⟩ := ha
        have hol : ∀ e ∈ s.limbo.queue, e.txn ≠ s.nextTxn := fun e he =>
          Nat.ne_of_lt (ho.id_lt e.slot (mem_map_of_mem he))
        have hm : (s.limbo.queue.map fun e =>
            if e.txn = s.nextTxn then { e with lsn := lsn } else e) = s.limbo.queue :=
          congrArg TxnLimbo.queue (update_eq_self hol)
        rw [← some.inj ha]
        simp [TxnLimbo.update, hm, assign, new]
      · rename_i hac
        refine ⟨-1, .inr ⟨by simpa using hac, rfl⟩, ?_⟩
        rw [← some.inj ha]
        simp [assign, new]
    split at h
    · cases h
      exact ⟨.pushRemote hin hr hni hh (how ▸ hl) hls', rfl⟩
    · obtain ⟨limbo, hab, h⟩ := bind_eq_some_iff.mp h
      cases h
      obtain ⟨ht, hli⟩ := abort_pushed hab
      refine ⟨.reject ht rfl ?_ hli, rfl⟩
      rcases hls' with ⟨-, hpo', -⟩ | ⟨-, hn⟩
      · exact .inr ⟨hr, hpo'⟩
      · exact .inl hn

lemma journalWrite_some (h : txnOnJournalWrite l txn f = some l') : l' = l.update txn f := by
  unfold txnOnJournalWrite at h
  split at h
  · obtain ⟨-, h⟩ := assert_bind_eq_some.mp h
    exact (some.inj h).symm
  · rename_i hn
    obtain ⟨-, h⟩ := assert_bind_eq_some.mp h
    rw [update_eq_self (entry?_none hn)]
    exact (some.inj h).symm

lemma walDone_effects {signature : Int} (hv : s.Valid (.walDone lsn signature))
    (hf : s.Fibered) (h : s.walDone lsn signature = some s') :
    s.Input s' ∧ s'.nextTxn = s.nextTxn ∨ s.Effects s' := by
  obtain ⟨hl, hs⟩ := hv
  unfold walDone at h
  split at h
  · cases h
    exact .inr ReflTransGen.refl
  · rename_i hj
    obtain ⟨limbo, hw, h⟩ := bind_eq_some_iff.mp h
    rw [journalWrite_some hw] at h
    cases h
    exact .inr (single (.written hj hl hs))
  · rename_i req rest hj
    obtain ⟨limbo, hp, h⟩ := bind_eq_some_iff.mp h
    cases h
    exact .inl ⟨.process hj (hf.sent req (by simp [hj])) hf.instance_ne hp, rfl⟩
  · rename_i hj
    cases h
    exact .inr (single (.confirmDone hj hl))
  · rename_i hj
    cases h
    exact .inr (single (.rollbackDone hj hl))

lemma walFailOne_effects {res : Int} {w : JournalEntry}
    (hr : res = journalEntryErrIo ∨ res = journalEntryErrCascade) (ho : s.Ordered)
    (hj : s.journal = kept ++ [w])
    (h : walFailOne { s with journal := kept } res w = some s') : s.Effects s' := by
  cases w with
  | txn id blocking =>
    obtain ⟨limbo, hw, h⟩ := bind_eq_some_iff.mp h
    rw [journalWrite_some hw] at h
    cases blocking with
    | true =>
      cases h
      exact single (.fail hj hr)
    | false =>
      simp only [Bool.false_eq_true, if_false] at h
      split at h
      · obtain ⟨limbo', hab, h⟩ := bind_eq_some_iff.mp h
        cases h
        obtain ⟨queue, d, hq, ht, rfl⟩ := abort_some hab
        obtain ⟨front, back, hs, hf, hb⟩ := map_eq_append_iff.mp hq
        obtain ⟨e, rfl, hd⟩ := map_eq_singleton_iff.mp hb
        have he : e.txn = id := by
          by_cases he : e.txn = id
          · exact he
          · rw [if_neg he] at hd
            exact (congrArg txn hd).trans ht
        -- the other entries have smaller numbers, so only the last one has changed
        have hsa : front = queue := by
          rw [← hf]
          conv_lhs => rw [← map_id front]
          refine map_congr_left fun a ha => ?_
          have hi := ho.queue_ids
          rw [hs] at hi
          have hl := (pairwise_append.mp hi).2.2 a ha e (by simp)
          simp [show a.txn ≠ id by omega]
        rw [if_pos he] at hd
        subst hd hsa
        exact single (.failRemote hj hs he)
      · rename_i hou
        cases h
        have hp : ∀ e ∈ s.limbo.queue, e.txn ≠ id := by
          have hn := entry?_none (not_isSome_iff_eq_none.mp hou)
          intro e he ht
          refine hn _ (mem_map_of_mem he) ?_
          rw [if_pos ht]
          exact ht
        rw [update_eq_self hp]
        exact single (.failPlain hj hp)
  | synchro req =>
    cases h
    exact single (.failSynchro hj)
  | confirm _ _ => cases h
  | rollback _ _ => cases h

lemma walFailOne_journal {res : Int} {w : JournalEntry} {j : List JournalEntry}
    (j' : List JournalEntry) (h : walFailOne { s with journal := j } res w = some s') :
    s'.journal = j ∧
      walFailOne { s with journal := j' } res w = some { s' with journal := j' } := by
  cases w with
  | txn id blocking =>
    obtain ⟨limbo, hw, h⟩ := bind_eq_some_iff.mp h
    simp only [walFailOne, hw]
    cases blocking with
    | true =>
      cases h
      exact ⟨rfl, rfl⟩
    | false =>
      simp only [Bool.false_eq_true, if_false] at h
      split at h
      · rename_i hi
        obtain ⟨limbo', ha, h⟩ := bind_eq_some_iff.mp h
        cases h
        refine ⟨rfl, ?_⟩
        simp [hi, ha]
      · rename_i ho
        cases h
        refine ⟨rfl, ?_⟩
        simp [ho]
  | synchro req =>
    cases h
    exact ⟨rfl, rfl⟩
  | confirm _ _ => cases h
  | rollback _ _ => cases h

lemma walFailAll_effects {res : Int} {ws : List JournalEntry}
    (hr : res = journalEntryErrIo ∨ res = journalEntryErrCascade) (ho : s.Ordered)
    (hj : s.journal = kept ++ ws)
    (h : walFailAll res ws.reverse { s with journal := kept } = some s') :
    s.Effects s' := by
  induction ws using List.reverseRecOn generalizing s with
  | nil =>
    rw [append_nil] at hj
    cases h
    rw [← hj]
  | append_singleton ws w ih =>
    rw [reverse_append, reverse_singleton, singleton_append] at h
    obtain ⟨s₁, hon, ha⟩ := bind_eq_some_iff.mp h
    obtain ⟨hk, hon⟩ := walFailOne_journal (kept ++ ws) hon
    rw [← append_assoc] at hj
    have he := walFailOne_effects hr ho hj hon
    refine he.trans (ih (he.ordered ho) rfl ?_)
    rw [← ha, ← hk]

lemma fibers_pop {fiber : Fiber} {rest : List Fiber} (hf : s.Fibered)
    (hr : s.ready = fiber :: rest) :
    ∀ t ∈ fiber.txn?, Local { s with ready := rest } t := by
  intro t ht
  have hfi : s.fibers = t :: fibers { s with ready := rest } := by
    simp [fibers, hr, mem_def.mp ht]
  have hm : t ∈ s.fibers := by simp [hfi]
  have hn := hf.nodup
  rw [hfi] at hn
  refine ⟨(nodup_cons.mp hn).1, hf.lt t hm, fun p hp he => ?_⟩
  by_contra hother
  exact hf.foreign hother p hp (he ▸ hm)

lemma runReady_effects (ho : s.Ordered) (hf : s.Fibered) (h : s.runReady = some s') :
    s.Effects s' := by
  unfold runReady at h
  split at h
  · cases h
    exact ReflTransGen.refl
  rename_i fiber rest hr
  have hfr := fibers_pop hf hr
  cases fiber with
  | written t lsn =>
    have hl := hfr t rfl
    simp only [runFiber] at h
    split at h
    · rename_i hn
      cases h
      exact single (.pop hr (.inl ⟨⟨lsn, rfl⟩, fun e he htx => absurd htx (entry?_none hn e he)⟩))
    · rename_i e he
      obtain ⟨hm, htx⟩ := entry?_some he
      split at h
      · rename_i hac
        obtain ⟨s₁, ha, h⟩ := bind_eq_some_iff.mp h
        obtain ⟨_, -, ha⟩ := bind_eq_some_iff.mp ha
        simp only [assert_bind_eq_some] at ha
        obtain ⟨-, how, -, -, -, -, ⟨⟩⟩ := ha
        have ha : s.Effect _ := .assign hr how ⟨e, hm, htx, hac⟩
        refine head ha (ack_effects ((ha.ordered ho).hear s.acked) how ?_ h)
        rintro u hu
        obtain rfl : t = u := some.inj hu
        exact ⟨hl.1, hl.2.1, fun _ _ _ => how⟩
      · rename_i hac
        have hpo : s.Effect { s with ready := rest } := by
          refine .pop hr (.inl ⟨⟨lsn, rfl⟩, fun d hd hdt => ?_⟩)
          obtain rfl : d = e := ho.unique hd hm (hdt.trans htx.symm)
          simpa using hac
        exact head hpo (waitComplete_effects (hpo.ordered ho) hl h)
  | failed t =>
    simp only [runFiber] at h
    split at h
    · obtain ⟨limbo, hab, h⟩ := bind_eq_some_iff.mp h
      cases h
      obtain ⟨queue, e, hq, htx, rfl⟩ := abort_some hab
      exact single (.abort hr hq htx)
    · rename_i hn
      cases h
      refine single (.pop hr (.inr ⟨rfl, entry?_none ?_⟩))
      simpa using hn
  | confirmed lsn waiter =>
    obtain ⟨limbo, hc, h⟩ := bind_eq_some_iff.mp h
    have hef : s.Effect { s with ready := rest, limbo := limbo } := .confirm hr hc
    refine head hef (resume_effects (hef.ordered ho) (fun t ht => ?_) h)
    obtain ⟨hru, hlt, how⟩ := hfr t ht
    obtain ⟨front, kept, hq, -, -, -, rfl⟩ := readConfirm_some hc
    refine ⟨hru, hlt, fun p hp heq => how p ?_ heq⟩
    obtain ⟨d, hd, rfl⟩ := mem_map.mp hp
    refine mem_map_of_mem (f := slot) ?_
    change d ∈ s.limbo.queue
    rw [hq]
    exact mem_append_right _ hd
  | rolledBack t =>
    obtain ⟨limbo, hlo, h⟩ := bind_eq_some_iff.mp h
    cases h
    obtain ⟨kept, back, hq, hdo, hk, rfl⟩ := quorumTimeoutLoop_some rfl hlo
    exact single (.rollBack hr hq hdo hk)

lemma timeout_effects (hf : s.Fibered) (h : s.timeout txn = some s') : s.Effects s' := by
  unfold timeout at h
  split at h
  · cases h
    exact ReflTransGen.refl
  rename_i hm
  have hm : txn ∈ s.waiting := not_not.mp hm
  have hu : s.Effects { s with waiting := s.waiting.erase txn } := single .unwait
  simp only at h
  split at h
  · cases h
    exact hu
  · cases h
  · rename_i e first rest he hq
    split at h
    · cases h
      exact hu
    rename_i hfr
    obtain ⟨hpo, h⟩ := assert_bind_eq_some.mp h
    split at h
    · cases h
      exact hu
    · unfold txnLimboWriteRollback at h
      obtain ⟨hg, h⟩ := assert_bind_eq_some.mp h
      obtain ⟨hi, h⟩ := assert_bind_eq_some.mp h
      obtain ⟨-, h⟩ := assert_bind_eq_some.mp h
      have hfr : first.txn = txn := not_not.mp hfr
      obtain rfl : first = e := by simpa [TxnLimbo.entry?, hq, hfr] using he
      cases h
      have hs : s.fibers.Nodup := hf.nodup
      have hl : txn < s.nextTxn := hf.lt txn (mem_append_right _ hm)
      obtain ⟨-, hw, hd⟩ := nodup_append.mp hs
      refine hu.tail (.writeRollback hq hfr hg hpo hi ⟨?_, hl, fun p hp heq => ?_⟩)
      · intro hfi
        rcases mem_append.mp hfi with hfi | hfi
        · exact hd txn hfi txn hm rfl
        · exact hw.not_mem_erase hfi
      · by_contra hother
        exact hf.foreign hother p hp (heq ▸ mem_append_right _ hm)

def NodeAction.acks : NodeAction → List (Nat × Int)
  | .ack replicaId lsn => [(replicaId, lsn)]
  | _ => []

/-- The acknowledgement of a replica is recorded before anything else happens. -/
def LimboNode.hearing (s : LimboNode) (a : NodeAction) : LimboNode :=
  { s with acked := s.acked ++ if s.limbo.ownerId = s.instanceId then a.acks else [] }

lemma hearing_of_nil (h : a.acks = []) : s.hearing a = s := by
  simp [hearing, h]

/-- Which actions bring an input, and what they say about it. -/
def LimboNode.Takes (s s' : LimboNode) : NodeAction → Prop
  | .commit _ _ => s'.nextTxn = s.nextTxn + 1
  | .applyTx _ _ _ _ => s'.nextTxn = s.nextTxn + 1 ∧
      (s.limbo.ownerId = s.instanceId → s'.limbo = s.limbo)
  | .walDone _ _ => s'.nextTxn = s.nextTxn
  | _ => False

/-- A step takes an input, or it is a sequence of effects. -/
lemma step_effects (hv : s.Valid a) (ho : s.Ordered) (hf : s.Fibered) (h : s.step a = some s') :
    s.Input s' ∧ s.Takes s' a ∨ (s.hearing a).Effects s' := by
  cases a with
  | commit waitAck accepted => exact .inl (commit_input h)
  | applyTx originId waitAck lsn accepted => exact .inl (applyTx_input hv ho h)
  | request req =>
    cases h
    rw [hearing_of_nil rfl]
    exact .inr (single (.request hv.1))
  | walDone lsn signature =>
    rw [hearing_of_nil rfl]
    exact walDone_effects hv hf h
  | walFail n res =>
    rw [hearing_of_nil rfl]
    exact .inr (walFailAll_effects hv.1 ho (take_append_drop _ _).symm h)
  | run =>
    rw [hearing_of_nil rfl]
    exact .inr (runReady_effects ho hf h)
  | ack replicaId lsn =>
    simp only [step] at h
    refine .inr ?_
    split at h
    · rename_i how
      simpa [hearing, how, NodeAction.acks] using ack_effects ho how (by simp) h
    · rename_i how
      cases h
      simpa [hearing, how] using ReflTransGen.refl
  | setQuorum quorum =>
    rw [hearing_of_nil rfl]
    have ht : s.Effect { s with quorum := quorum } := .tune hv.1
    exact .inr (head ht (parameters_effects (ht.ordered ho) h))
  | timeout t =>
    rw [hearing_of_nil rfl]
    exact .inr (timeout_effects hf h)

lemma LimboNode.Fresh.ordered (h : s.Fresh) : s.Ordered := by
  have hs : s.slots = [] := slots_nil_iff.mpr h.queue_eq
  have hw : s.written = [] := by simp [written, h.ready_eq]
  have hf : s.inFlight = [] := by simp [inFlight, hw, h.journal_eq]
  constructor <;> simp [hs, hw, hf, h.confirmed_eq, h.wal_nonneg]

lemma LimboNode.Fresh.fibered (h : s.Fresh) : s.Fibered := by
  have hf : s.fibers = [] := by
    simp [fibers, h.ready_eq, h.journal_eq, h.waiting_eq]
  exact ⟨by simp [hf], by simp [hf], by simp [hf], h.instance_ne, h.instance_lt,
    by simp [h.journal_eq]⟩

/-- What an input and the effects of a step preserve, the step preserves. -/
lemma step_invariant {P : LimboNode → Prop} (hi : s.Input s' → s.Takes s' a → P s')
    (hec : ∀ {u u'}, u.Effect u' → u.Ordered → u.Fibered → P u → P u') (hv : s.Valid a)
    (hstep : s.step a = some s') (ho : s.Ordered) (hf : s.Fibered) (hP : P (s.hearing a)) :
    s'.Ordered ∧ s'.Fibered ∧ P s' := by
  rcases step_effects hv ho hf hstep with ⟨hin, ht⟩ | hef
  · exact ⟨hin.ordered ho, hin.fibered hf, hi hin ht⟩
  · clear hstep hi
    induction hef with
    | refl => exact ⟨ho.hear _, hf.hear _, hP⟩
    | tail _ he ih => exact ⟨he.ordered ih.1, he.fibered ih.2.1, hec he ih.1 ih.2.1 ih.2.2⟩

/-- What inputs and effects preserve in an ordered state, every run of a fresh instance
preserves. -/
lemma run_effects_invariant {P : LimboNode → Prop} {start : LimboNode} {actions : List NodeAction}
    (hi : ∀ {u u'}, u.Input u' → u.Ordered → u.Fibered → P u → P u')
    (he : ∀ {u u'}, u.Effect u' → u.Ordered → u.Fibered → P u → P u')
    (hh : ∀ {u a}, u.Valid a → P u → P (u.hearing a)) (hfr : start.Fresh)
    (hva : Along step Valid start actions)
    (hr : run step start actions = some s) (hP : P start) :
    s.Ordered ∧ s.Fibered ∧ P s := by
  refine run_invariant_along (P := fun s => s.Ordered ∧ s.Fibered ∧ P s) ?_ hr hva
    ⟨hfr.ordered, hfr.fibered, hP⟩
  rintro u a u' hstep hv ⟨ho, hf, hp⟩
  exact step_invariant (fun hin _ => hi hin ho hf hp) he hv hstep ho hf (hh hv hp)

end TarantoolStorage
