import TarantoolStorage.Limbo.Steps

/-! How the limbo passes to a new owner. A transaction without an LSN stops both loops. -/
namespace TarantoolStorage

open Checked Relation Transition List LimboNode

/-- The terms of the requests fit into a signed number. -/
def TxnLimbo.Bounded (l : TxnLimbo) : Prop :=
  ∀ id, 0 ≤ vclockGet l.promoteTermMap id ∧ vclockGet l.promoteTermMap id < 2 ^ 63

def TxnLimbo.Accepts (l : TxnLimbo) (req : SynchroRequest) : Prop :=
  txnLimboReplicaTerm l req.originId < req.term ∨ l.promoteGreatestTerm ≤ 1

/-- The limbo has a new owner, and its transactions are completed: those up to the LSN of the
request are committed, the others rolled back. -/
def TxnLimbo.HandedOver (l l' : TxnLimbo) (req : SynchroRequest) : Prop :=
  l'.ownerId = req.newOwner ∧ l'.queue = [] ∧ ∃ front back, l.queue = front ++ back ∧
    l'.completed = l.completed ++ front.map LimboEntry.committed ++
      back.reverse.map (LimboEntry.rolledBack txnSignatureSyncRollback) ∧
    (∀ e ∈ front, e.waitAck = true → e.lsn ≤ req.lsnFor l.ownerId) ∧
    ∀ e ∈ back, e.waitAck = true → req.lsnFor l.ownerId < e.lsn

/-- The transaction is on disk, and its fiber has assigned the LSN. -/
def LimboEntry.Settled (e : LimboEntry) : Prop :=
  0 ≤ e.signature ∧ (e.waitAck = true → e.lsn ≠ -1)

instance (e : LimboEntry) : Decidable e.Settled := inferInstanceAs (Decidable (_ ∧ _))

variable {s s' : LimboNode} {l l' : TxnLimbo} {req : SynchroRequest}

lemma TxnLimbo.Bounded.follow {map : Vclock} (h : l.Bounded) (hl : req.term < 2 ^ 63)
    (hm : vclockFollow l.promoteTermMap req.originId (int64 req.term) = some map) (id : Nat) :
    0 ≤ vclockGet map id ∧ vclockGet map id < 2 ^ 63 := by
  have ht : int64 req.term = req.term := int64_of_lt hl
  have hm' := hm
  unfold vclockFollow at hm'
  obtain ⟨hn, hm'⟩ := assert_bind_eq_some.mp hm'
  obtain ⟨hi, hm'⟩ := assert_bind_eq_some.mp hm'
  obtain ⟨hgt, -⟩ := assert_bind_eq_some.mp hm'
  obtain ⟨v, hv, hg⟩ := vclockFollow_spec hn hi hgt
  obtain rfl : map = v := Option.some.inj (hm.symm.trans hv)
  rw [hg id]
  split
  · omega
  · exact h id

lemma LimboNode.Input.bounded (he : s.Input s') (h : s.limbo.Bounded) : s'.limbo.Bounded := by
  cases he with
  | reject _ _ _ hl =>
    subst hl
    exact h
  | process _ hs _ hp =>
    obtain ⟨map, greatest, hm, hd⟩ := process_decision hp
    have hb : ∀ id, 0 ≤ vclockGet map id ∧ vclockGet map id < 2 ^ 63 := by
      rcases hm with rfl | hm
      · exact h
      · exact h.follow hs.term_lt hm
    cases hd <;> exact hb
  | _ => exact h

lemma LimboNode.Effect.bounded (he : s.Effect s') (h : s.limbo.Bounded) : s'.limbo.Bounded := by
  cases he with
  | confirm _ hc =>
    obtain ⟨front, rest, -, -, -, -, rfl⟩ := readConfirm_some hc
    exact h
  | _ => exact h

/-- A queue whose transactions are settled is a written one. -/
lemma LimboNode.Ordered.written_of_settled (h : s.Ordered)
    (hq : ∀ e ∈ s.limbo.queue, e.Settled) : Written s.limbo.queue := by
  refine ⟨fun e he => (hq e he).1, fun e he hack => ?_, ?_⟩
  · have hn := (hq e he).2 hack
    exact (h.lsn e.slot (mem_map_of_mem he)).resolve_left hn
  · have hi := (pairwise_map (f := LimboEntry.slot)).mp h.increasing
    refine hi.imp_of_mem fun {a b} ha hb hl hac hak => ?_
    exact hl ((hq a ha).2 hac) ((hq b hb).2 hak)

lemma process_claims (hb : l.Bounded) (hw : Written l.queue)
    (ho : l.ownerId ≠ replicaIdNil ∨ l.queue.isEmpty = true)
    (hs : req.Sent s.instanceId) (ht : req.type.isPromoteRequest = true)
    (ha : l.Accepts req) :
    Ensures (txnLimboProcess l req) fun l' => l'.queue = [] ∧ l'.ownerId = req.newOwner := by
  have hl : req.replicaId = replicaIdNil → req.lsn = 0 := fun hni => (hs.unclaimed hni).1
  unfold txnLimboProcess
  refine ensures_assert hs.origin_lt ?_
  by_cases hn : txnLimboReplicaTerm l req.originId < req.term
  · have hte : int64 req.term = req.term := int64_of_lt hs.term_lt
    have hbn := hb req.originId
    have hg : vclockGet l.promoteTermMap req.originId < int64 req.term := by
      simp only [txnLimboReplicaTerm, uint64] at hn
      omega
    rw [if_pos hn]
    refine ensures_bind (vclockFollow_spec (by omega) hs.origin_lt hg) fun v _ => ?_
    exact (apply_spec (l := { l with promoteTermMap := v, promoteGreatestTerm := _ })
      hw ho ht hl).mono fun l' hc => ⟨hc.queue_eq, hc.owner_eq⟩
  · have hsm : ¬ l.promoteGreatestTerm > 1 := by
      have := ha.resolve_left hn
      omega
    rw [if_neg hn, if_neg fun hbo => hsm hbo.2]
    exact (apply_spec hw ho ht hl).mono fun l' hc => ⟨hc.queue_eq, hc.owner_eq⟩

lemma process_handedOver (hw : Written l.queue) (hp : txnLimboProcess l req = some l')
    (ht : req.type.isPromoteRequest = true) (hqu : l'.queue = [])
    (ho : l'.ownerId = req.newOwner) : l.HandedOver l' req := by
  obtain ⟨map, greatest, -, hd⟩ := process_decision hp
  cases hd with
  | ignore =>
    have hni : l.queue = [] := hqu
    exact ⟨ho, hqu, [], [], hni, by simp, by simp, by simp⟩
  | confirm hf _ _ _ _ _ => exact absurd (ht.symm.trans hf) (by simp)
  | rollBack hf _ _ _ => exact absurd (ht.symm.trans hf) (by simp)
  | @handOver front back _ hq hpa hok hs hb =>
    have hq : l.queue = front ++ back := hq
    have hpa : ∀ e ∈ front, e.Passes (req.lsnFor l.ownerId) := hpa
    have ha : decided front = front := by
      refine filter_eq_self.mpr fun e he => ?_
      have hn := hw.signature e (by simp [hq, he])
      have hwr : ¬ e.Unwritten := fun hu => by
        rw [hu.2] at hn
        exact absurd hn (by decide)
      simpa using hwr
    refine ⟨rfl, rfl, front, back, hq, ?_, fun e he hac => ?_, hb⟩
    · simp [TxnLimbo.handOver, TxnLimbo.rollBackEnd, TxnLimbo.confirmFront, ha]
    · by_contra hgt
      exact hpa e he ⟨hac, .inl (by omega)⟩

lemma settled_of_handedOver (hls : 0 ≤ req.lsn) (ht : req.type.isPromoteRequest = true)
    (hp : txnLimboProcess l req = some l') (ho : l.HandedOver l' req) :
    ∀ e ∈ l.queue, e.Settled := by
  obtain ⟨how, hqu, front, back, hq, hc, -, -⟩ := ho
  obtain ⟨map, greatest, -, hd⟩ := process_decision hp
  cases hd with
  | ignore =>
    have hni : l.queue = [] := hqu
    simp [hni]
  | confirm hf _ _ _ _ _ => exact absurd (ht.symm.trans hf) (by simp)
  | rollBack hf _ _ _ => exact absurd (ht.symm.trans hf) (by simp)
  | @handOver front' back' _ hq' hpa hok hsi hb =>
    have hq' : l.queue = front' ++ back' := hq'
    have hb : ∀ e ∈ back', e.waitAck = true → req.lsnFor l.ownerId < e.lsn := hb
    have hno : 0 ≤ req.lsnFor l.ownerId := by
      unfold SynchroRequest.lsnFor
      split <;> omega
    -- all the transactions are completed, so none was passed over as not written
    have hl : (decided front').length = front'.length := by
      have hco := congrArg List.length hc
      have hs := congrArg List.length (hq.symm.trans hq')
      simp only [TxnLimbo.handOver, TxnLimbo.rollBackEnd, TxnLimbo.confirmFront,
        length_append, length_map, length_reverse] at hco hs
      omega
    have hal : ∀ e ∈ front', ¬ e.Unwritten := by
      simpa [decided, length_filter_eq_length_iff] using hl
    rw [hq', forall_mem_append]
    constructor
    · intro e he
      exact ⟨(hok e he).2 (hal e he), fun ha hn => hpa e he ⟨ha, .inr hn⟩⟩
    · intro e he
      refine ⟨hsi e he, fun ha => ?_⟩
      have hlt := hb e he ha
      omega

/-- The moment an accepted PROMOTE or DEMOTE takes effect, in any run: the limbo passes to the new
owner with all transactions completed exactly when they are settled. -/
theorem handover_complete_iff {start : LimboNode} {actions : List NodeAction}
    {rest : List JournalEntry} (hfresh : start.Fresh)
    (hvalid : Along step Valid start actions)
    (hrun : run step start actions = some s) (hj : s.journal = .synchro req :: rest)
    (htype : req.type.isPromoteRequest = true) (haccepts : s.limbo.Accepts req)
    (lsn signature : Int) :
    (∃ s', s.step (.walDone lsn signature) = some s' ∧ s.limbo.HandedOver s'.limbo req) ↔
      ∀ e ∈ s.limbo.queue, e.Settled := by
  obtain ⟨ho, hf, hb⟩ := run_effects_invariant (P := fun s => s.limbo.Bounded)
    (fun he _ _ h => he.bounded h) (fun he _ _ h => he.bounded h) (fun _ h => h) hfresh hvalid
    hrun hfresh.bounded
  have hsn : req.Sent s.instanceId := hf.sent req (by simp [hj])
  have hstep : s.step (.walDone lsn signature) = (txnLimboProcess s.limbo req).map fun limbo =>
        { s with journal := rest, limbo := limbo } := by
    simp only [step, walDone, hj]
    cases txnLimboProcess s.limbo req <;> rfl
  rw [hstep]
  constructor
  · rintro ⟨s', hs', hov⟩
    obtain ⟨limbo, hp, rfl⟩ := Option.map_eq_some_iff.mp hs'
    exact settled_of_handedOver hsn.lsn_nonneg htype hp hov
  · intro hse
    have hw := ho.written_of_settled hse
    have how : s.limbo.ownerId ≠ replicaIdNil ∨ s.limbo.queue.isEmpty = true := by
      by_cases hn : s.limbo.ownerId = replicaIdNil
      · exact .inr (isEmpty_iff.mpr (slots_nil_iff.mp (ho.unclaimed hn)))
      · exact .inl hn
    obtain ⟨limbo, hp, hq, hne⟩ := process_claims hb hw how hsn htype haccepts
    refine ⟨_, by rw [hp]; rfl, ?_⟩
    exact process_handedOver hw hp htype hq hne

/-- Instance 2 takes the limbo, knowing the LSNs of instance 1 up to this one. -/
def promoteTo (lsn : Int) : SynchroRequest := ⟨.promote, 1, 2, lsn, 2⟩

/-- Of three transactions the first is known to the new owner. -/
def settledHandover : List NodeAction :=
  [.commit true true, .commit true true, .commit false true, .walDone 1 1, .walDone 2 2,
    .walDone 3 3, .run, .run, .request (promoteTo 1)]

theorem handover_complete_settled : ∃ s s', run step (owningNode false 2) settledHandover = some s ∧
      s.limbo.queue.map LimboEntry.lsn = [1, 2, -1] ∧
      s.step (.walDone 4 4) = some s' ∧ s.limbo.HandedOver s'.limbo (promoteTo 1) := by
  have hf : (owningNode false 2).Fresh := owningNode_fresh (by decide)
  have hv : Along step Valid (owningNode false 2) settledHandover := by
    decide
  have hi := handover_complete_iff hf hv rfl rfl rfl (.inl (by decide)) 4 4
  obtain ⟨s', hs', ho⟩ := hi.mpr (by decide)
  exact ⟨_, s', rfl, rfl, hs', ho⟩

/-- A transaction is written together with a PROMOTE, whose completion comes before the fiber
of the transaction has run. -/
def unassignedHandover : List NodeAction :=
  [.commit true true, .request (promoteTo 0), .walDone 1 1]

/-- Neither loop takes the transaction without an LSN, and the assertion that the limbo is
empty fails. -/
theorem handover_leaves_unassigned :
    ∃ s l, run step (owningNode false 2) unassignedHandover = some s ∧
      Along step Valid (owningNode false 2) unassignedHandover ∧
      s.journal = [.synchro (promoteTo 0)] ∧ s.limbo.Accepts (promoteTo 0) ∧
      s.step (.walDone 2 2) = none ∧
      (txnLimboReadConfirm s.limbo 0).bind (fun l => txnLimboReadRollback l 1) = some l ∧
      l.queue ≠ [] :=
  ⟨_, _, rfl, by decide, rfl, .inl (by decide), rfl, rfl, by decide⟩

end TarantoolStorage
