import TarantoolStorage.Limbo.Ownership

/-!
What a confirmation takes from the front of the queue, a rollback from its end and a request from
both.
-/
namespace TarantoolStorage

open Checked List Option TxnLimbo

/-- Confirming up to the LSN does not stop at this entry. -/
def LimboEntry.Passes (lsn : Int) (e : LimboEntry) : Prop :=
  ¬ (e.waitAck = true ∧ (e.lsn > lsn ∨ e.lsn = -1))

/-- An asynchronous transaction that is not written; confirming makes a plain one of it. -/
def LimboEntry.Unwritten (e : LimboEntry) : Prop :=
  e.waitAck = false ∧ e.signature = txnSignatureUnknown

instance (lsn : Int) (e : LimboEntry) : Decidable (e.Passes lsn) :=
  inferInstanceAs (Decidable (¬ _))

instance (e : LimboEntry) : Decidable e.Unwritten := inferInstanceAs (Decidable (_ ∧ _))

def LimboEntry.Confirmable (e : LimboEntry) : Prop :=
  (e.Unwritten → e.isPrepared = true) ∧ (¬ e.Unwritten → 0 ≤ e.signature)

instance (e : LimboEntry) : Decidable e.Confirmable := inferInstanceAs (Decidable (_ ∧ _))

def LimboEntry.committed (e : LimboEntry) : LimboEntry :=
  { e with isCommit := true, waitAck := false }

def LimboEntry.rolledBack (signature : Int) (e : LimboEntry) : LimboEntry :=
  { e with isRollback := true, waitAck := false, signature := signature }

/-- The entries of a confirmed front whose transactions are committed by that. -/
def decided (front : List LimboEntry) : List LimboEntry := front.filter fun e => ¬ e.Unwritten

def TxnLimbo.confirmFront (l : TxnLimbo) (front rest : List LimboEntry) : TxnLimbo :=
  { l with
    queue := rest
    len := l.len - front.length
    completed := l.completed ++ (decided front).map LimboEntry.committed }

/-- The entries of `back` leave the queue from its end on. -/
def TxnLimbo.rollBackEnd (l : TxnLimbo) (signature : Int) (kept back : List LimboEntry) :
    TxnLimbo :=
  { l with
    queue := kept
    len := l.len - back.length
    rollbackCount := l.rollbackCount + back.length
    completed := l.completed ++ back.reverse.map (LimboEntry.rolledBack signature) }

variable {l l' : TxnLimbo} {e : LimboEntry} {queue front rest kept back : List LimboEntry}
  {lsn : Int}

lemma exists_front (lsn : Int) (queue : List LimboEntry) :
    ∃ front rest, queue = front ++ rest ∧ (∀ e ∈ front, e.Passes lsn) ∧
      ∀ e ∈ rest.head?, ¬ e.Passes lsn := by
  induction queue with
  | nil => exact ⟨[], [], rfl, by simp, by simp⟩
  | cons d queue ih =>
    by_cases hd : d.Passes lsn
    · obtain ⟨front, rest, rfl, hf, hr⟩ := ih
      exact ⟨d :: front, rest, rfl, by simpa using ⟨hd, hf⟩, hr⟩
    · exact ⟨[], d :: queue, rfl, by simp, by simpa using hd⟩

lemma readConfirmLoop_stop (hs : ∀ e ∈ rest.head?, ¬ e.Passes lsn) :
    readConfirmLoop lsn rest l = some l := by
  cases rest with
  | nil => rfl
  | cons e rest =>
    have he : e.waitAck = true ∧ (e.lsn > lsn ∨ e.lsn = -1) := not_not.mp (hs e rfl)
    unfold readConfirmLoop
    rw [if_pos he]

/-- Confirming commits the front of the queue in its order, if the assertions hold there. -/
lemma readConfirmLoop_append (hf : ∀ e ∈ front, e.Passes lsn)
    (hst : ∀ e ∈ rest.head?, ¬ e.Passes lsn) (hq : l.queue = front ++ rest) :
    readConfirmLoop lsn (front ++ rest) l =
      if ∀ e ∈ front, e.Confirmable then some (l.confirmFront front rest) else none := by
  induction front generalizing l with
  | nil =>
    rw [nil_append] at hq ⊢
    rw [readConfirmLoop_stop hst, if_pos (by simp)]
    simp [confirmFront, decided, ← hq]
  | cons e front ih =>
    have hpa : ¬ (e.waitAck = true ∧ (e.lsn > lsn ∨ e.lsn = -1)) := hf e mem_cons_self
    have hr : ∀ d ∈ front, d.Passes lsn := fun d hd => hf d (mem_cons_of_mem _ hd)
    have ha : (∀ d ∈ e :: front, d.Confirmable) ↔
        e.Confirmable ∧ ∀ d ∈ front, d.Confirmable := forall_mem_cons
    simp only [cons_append, readConfirmLoop]
    rw [if_neg hpa]
    by_cases hu : e.Unwritten
    · have hc : e.waitAck = false ∧ e.signature = txnSignatureUnknown := hu
      rw [if_pos hc, ih hr rfl]
      have hde : decided (e :: front) = decided front := by simp [decided, hu]
      by_cases hp : e.isPrepared = true
      · have he : e.Confirmable := ⟨fun _ => hp, fun hn => absurd hu hn⟩
        rw [assertThat_of hp]
        simp only [ha, he, true_and]
        refine if_congr .rfl ?_ rfl
        simp only [confirmFront, txnLimboRemove, hde, length_cons, some.injEq,
          TxnLimbo.mk.injEq, true_and, and_true]
        push_cast
        omega
      · have he : ¬ e.Confirmable := fun h => hp (h.1 hu)
        rw [if_neg fun h => he (ha.mp h).1, assertThat, if_neg hp]
        rfl
    · have hc : ¬ (e.waitAck = false ∧ e.signature = txnSignatureUnknown) := hu
      rw [if_neg hc, ih hr rfl]
      have hde : decided (e :: front) = e :: decided front := by simp [decided, hu]
      by_cases hs : e.signature ≥ 0
      · have he : e.Confirmable := ⟨fun h => absurd h hu, fun _ => hs⟩
        rw [assertThat_of hs]
        simp only [ha, he, true_and]
        refine if_congr .rfl ?_ rfl
        simp only [confirmFront, txnLimboRemove, complete, hde, length_cons,
          map_cons, LimboEntry.committed, some.injEq, TxnLimbo.mk.injEq, true_and,
          append_assoc, cons_append, nil_append, and_true]
        push_cast
        omega
      · have he : ¬ e.Confirmable := fun h => hs (h.2 hu)
        rw [if_neg fun h => he (ha.mp h).1, assertThat, if_neg hs]
        rfl

/-- Every queue splits where a rollback stops: behind that is a synchronous transaction, and the
last synchronous one before it is below the LSN. -/
lemma exists_back (lsn : Int) (queue : List LimboEntry) :
    ∃ kept back, queue = kept ++ back ∧ rollbackSpan lsn queue.reverse = back.length ∧
      (∀ e ∈ back.head?, e.waitAck = true) ∧ (∀ e ∈ back, e.waitAck = true → lsn ≤ e.lsn) ∧
      ∀ e ∈ (kept.filter LimboEntry.waitAck).getLast?, e.lsn < lsn := by
  induction queue using List.reverseRecOn with
  | nil => exact ⟨[], [], rfl, rfl, by simp, by simp, by simp⟩
  | append_singleton queue d ih =>
    obtain ⟨kept, back, rfl, hs, hh, hb, hk⟩ := ih
    rw [reverse_append, reverse_singleton, singleton_append]
    unfold rollbackSpan
    rw [hs]
    by_cases hd : d.waitAck = false
    · cases back with
      | nil =>
        refine ⟨kept ++ [d], [], by simp, by simp [hd], by simp, by simp, ?_⟩
        simpa [hd] using hk
      | cons b back =>
        refine ⟨kept, b :: back ++ [d], by simp, by simp [hd], hh, ?_, hk⟩
        intro e he ha
        rcases mem_append.mp he with he | he
        · exact hb e he ha
        · rw [mem_singleton.mp he, hd] at ha
          cases ha
    · have hd' : d.waitAck = true := by simpa using hd
      by_cases hl : d.lsn < lsn
      · refine ⟨kept ++ back ++ [d], [], by simp, by simp [hd', hl], by simp, by simp, ?_⟩
        intro e he
        simp only [filter_append, hd', filter_cons_of_pos, filter_nil,
          getLast?_append, getLast?_singleton, some_or, mem_def,
          some.injEq] at he
        exact he ▸ hl
      · refine ⟨kept, back ++ [d], by simp, by simp [hd', hl], ?_, ?_, hk⟩
        · cases back with
          | nil => simpa using hd'
          | cons b back => simpa using hh b rfl
        · intro e he ha
          rcases mem_append.mp he with he | he
          · exact hb e he ha
          · rw [mem_singleton.mp he]
            omega

lemma readRollbackLoop_append (hq : l.queue = kept ++ back) :
    readRollbackLoop back.length (kept ++ back).reverse l = if ∀ e ∈ back, 0 ≤ e.signature then
        some (l.rollBackEnd txnSignatureSyncRollback kept back) else none := by
  induction back using List.reverseRecOn generalizing l with
  | nil =>
    rw [if_pos (by simp)]
    simp only [append_nil] at hq
    simp [readRollbackLoop, rollBackEnd, ← hq]
  | append_singleton back d ih =>
    have ha : (∀ e ∈ back ++ [d], 0 ≤ e.signature) ↔
        (∀ e ∈ back, 0 ≤ e.signature) ∧ 0 ≤ d.signature := by
      rw [forall_mem_append, forall_mem_singleton]
    rw [← append_assoc, reverse_append, reverse_singleton, singleton_append,
      length_append, length_singleton]
    simp only [readRollbackLoop]
    rw [ih (by simp [complete, txnLimboPop])]
    by_cases hs : d.signature ≥ 0
    · have hs' : 0 ≤ d.signature := hs
      rw [assertThat_of hs]
      simp only [ha, hs', and_true]
      refine if_congr .rfl ?_ rfl
      simp only [rollBackEnd, txnLimboPop, complete, length_append,
        length_singleton, reverse_append, reverse_singleton, map_cons,
        LimboEntry.rolledBack, some.injEq, TxnLimbo.mk.injEq, true_and,
        append_assoc, cons_append, nil_append, and_true]
      push_cast
      omega
    · rw [if_neg fun h => hs (ha.mp h).2, assertThat, if_neg hs]
      rfl

lemma readConfirm_some (h : txnLimboReadConfirm l lsn = some l') :
    ∃ front rest, l.queue = front ++ rest ∧ (∀ e ∈ front, e.Passes lsn) ∧
      (∀ e ∈ front, e.Confirmable) ∧ (∀ e ∈ rest.head?, ¬ e.Passes lsn) ∧
      l' = l.confirmFront front rest := by
  obtain ⟨front, rest, hq, hf, hs⟩ := exists_front lsn l.queue
  have hl : readConfirmLoop lsn l.queue l = some l' := (assert_bind_eq_some.mp h).2
  rw [hq, readConfirmLoop_append hf hs hq] at hl
  split at hl
  · rename_i ho
    exact ⟨front, rest, hq, hf, ho, hs, (some.inj hl).symm⟩
  · cases hl

lemma readRollback_some (h : txnLimboReadRollback l lsn = some l') :
    ∃ kept back, l.queue = kept ++ back ∧ (∀ e ∈ back, 0 ≤ e.signature) ∧
      (∀ e ∈ back, e.waitAck = true → lsn ≤ e.lsn) ∧
      l' = l.rollBackEnd txnSignatureSyncRollback kept back := by
  obtain ⟨kept, back, hq, hs, -, hb, -⟩ := exists_back lsn l.queue
  have hl : readRollbackLoop (rollbackSpan lsn l.queue.reverse) l.queue.reverse l = some l' :=
    (assert_bind_eq_some.mp h).2
  rw [hs, hq, readRollbackLoop_append hq] at hl
  split at hl
  · rename_i ho
    exact ⟨kept, back, hq, ho, hb, (some.inj hl).symm⟩
  · cases hl

/-- The limbo after a PROMOTE or DEMOTE: the front of the queue is confirmed, the rest rolled
back. -/
def TxnLimbo.handOver (l : TxnLimbo) (front back : List LimboEntry) (ownerId : Nat) : TxnLimbo :=
  { (l.confirmFront front back).rollBackEnd txnSignatureSyncRollback [] back with
    ownerId := ownerId, confirmedLsn := 0 }

lemma readPromote_some {replicaId : Nat} (h : txnLimboReadPromote l replicaId lsn = some l') :
    ∃ front back, l.queue = front ++ back ∧ (∀ e ∈ front, e.Passes lsn) ∧
      (∀ e ∈ front, e.Confirmable) ∧ (∀ e ∈ back, 0 ≤ e.signature) ∧
      (∀ e ∈ back, e.waitAck = true → lsn < e.lsn) ∧
      l' = l.handOver front back replicaId := by
  obtain ⟨l₁, h₁, h⟩ := bind_eq_some_iff.mp h
  obtain ⟨l₂, h₂, h⟩ := bind_eq_some_iff.mp h
  obtain ⟨hem, h⟩ := assert_bind_eq_some.mp h
  obtain ⟨front, rest, hq, hf, ho, -, rfl⟩ := readConfirm_some h₁
  obtain ⟨kept, back, hq', hs, hb, rfl⟩ := readRollback_some h₂
  have hr : rest = kept ++ back := hq'
  have hk : kept = [] := isEmpty_iff.mp hem
  obtain rfl : rest = back := by simpa [hk] using hr
  refine ⟨front, rest, hq, hf, ho, hs, fun e he ha => ?_, ?_⟩
  · have hl := hb e he ha
    omega
  · rw [← some.inj h, hk]
    rfl

/-- The LSN up to which a PROMOTE or DEMOTE confirms: it names one of a certain owner only. -/
def SynchroRequest.lsnFor (req : SynchroRequest) (ownerId : Nat) : Int :=
  if req.replicaId = ownerId then req.lsn else 0

inductive TxnLimbo.Decision (l : TxnLimbo) (req : SynchroRequest) : TxnLimbo → Prop
  | ignore : Decision l req l
  | confirm {front rest : List LimboEntry} (htype : req.type.isPromoteRequest = false)
      (howner : req.replicaId = l.ownerId) (hq : l.queue = front ++ rest)
      (hpass : ∀ e ∈ front, e.Passes req.lsn) (hok : ∀ e ∈ front, e.Confirmable)
      (hstop : ∀ e ∈ rest.head?, ¬ e.Passes req.lsn) : Decision l req (l.confirmFront front rest)
  | rollBack {kept back : List LimboEntry} (htype : req.type.isPromoteRequest = false)
      (howner : req.replicaId = l.ownerId) (hq : l.queue = kept ++ back)
      (hsig : ∀ e ∈ back, 0 ≤ e.signature) :
      Decision l req (l.rollBackEnd txnSignatureSyncRollback kept back)
  | handOver {front back : List LimboEntry} (htype : req.type.isPromoteRequest = true)
      (hq : l.queue = front ++ back) (hpass : ∀ e ∈ front, e.Passes (req.lsnFor l.ownerId))
      (hok : ∀ e ∈ front, e.Confirmable) (hsig : ∀ e ∈ back, 0 ≤ e.signature)
      (hback : ∀ e ∈ back, e.waitAck = true → req.lsnFor l.ownerId < e.lsn) :
      Decision l req (l.handOver front back req.newOwner)

variable {req : SynchroRequest}

lemma read_decision (h : txnLimboRead l req lsn = some l')
    (hpr : req.type.isPromoteRequest = true → req.lsnFor l.ownerId = lsn)
    (hot : req.type.isPromoteRequest = false → req.replicaId = l.ownerId ∧ req.lsn = lsn) :
    l.Decision req l' := by
  unfold txnLimboRead at h
  split at h <;> rename_i ht
  · have hf : req.type.isPromoteRequest = false := by simp [ht, SynchroType.isPromoteRequest]
    obtain ⟨ho, rfl⟩ := hot hf
    obtain ⟨front, rest, hq, hp, hok, hs, rfl⟩ := readConfirm_some h
    exact .confirm hf ho hq hp hok hs
  · have hf : req.type.isPromoteRequest = false := by simp [ht, SynchroType.isPromoteRequest]
    obtain ⟨ho, rfl⟩ := hot hf
    obtain ⟨kept, back, hq, hsi, -, rfl⟩ := readRollback_some h
    exact .rollBack hf ho hq hsi
  · have htr : req.type.isPromoteRequest = true := by simp [ht, SynchroType.isPromoteRequest]
    have hn : req.newOwner = req.originId := by simp [SynchroRequest.newOwner, ht]
    obtain ⟨front, back, hq, hp, hok, hsi, hb, rfl⟩ := readPromote_some h
    rw [← hpr htr] at hp hb
    exact hn ▸ .handOver htr hq hp hok hsi hb
  · have htr : req.type.isPromoteRequest = true := by simp [ht, SynchroType.isPromoteRequest]
    obtain ⟨front, back, hq, hp, hok, hsi, hb, rfl⟩ := readPromote_some h
    rw [← hpr htr] at hp hb
    exact newOwner_demote ht ▸ .handOver htr hq hp hok hsi hb

lemma apply_decision (h : txnLimboApply l req = some l') : l.Decision req l' := by
  unfold txnLimboApply at h
  split at h
  · obtain ⟨⟨hz, ht⟩, h⟩ := assert_bind_eq_some.mp h
    refine read_decision h (fun _ => ?_) fun hf => absurd (ht.symm.trans hf) (by simp)
    simp [SynchroRequest.lsnFor, hz]
  · split at h
    · rename_i ho
      split at h
      · cases h
        exact .ignore
      · rename_i ht
        exact read_decision h (fun _ => if_neg ho) fun hf => absurd hf ht
    · rename_i ho
      have ho : req.replicaId = l.ownerId := not_not.mp ho
      exact read_decision h (fun _ => if_pos ho) fun _ => ⟨ho, rfl⟩

lemma newOwner_or (req : SynchroRequest) :
    req.newOwner = req.originId ∨ req.newOwner = replicaIdNil := by
  unfold SynchroRequest.newOwner
  split
  · exact .inl rfl
  · exact .inr rfl

lemma process_decision (h : txnLimboProcess l req = some l') : ∃ map greatest,
      (map = l.promoteTermMap ∨
        vclockFollow l.promoteTermMap req.originId (int64 req.term) = some map) ∧
      Decision { l with promoteTermMap := map, promoteGreatestTerm := greatest } req l' := by
  unfold txnLimboProcess at h
  obtain ⟨-, h⟩ := assert_bind_eq_some.mp h
  split at h
  · obtain ⟨map, hm, h⟩ := bind_eq_some_iff.mp h
    exact ⟨map, _, .inr hm, apply_decision h⟩
  · refine ⟨l.promoteTermMap, l.promoteGreatestTerm, .inl rfl, ?_⟩
    split at h
    · cases h
      exact .ignore
    · exact apply_decision h

end TarantoolStorage
