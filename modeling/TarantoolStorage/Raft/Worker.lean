import TarantoolStorage.Raft.Calls

/-! The invariant of a node: its rows recover at least the ballot it has shown to others. -/
namespace TarantoolStorage

open Checked Transition Voting List

variable {r r' : Raft} {env : RaftEnv} {n n' n'' : RaftNode} {req : RaftMsg} {rows : List RaftMsg}

/-- What `raft_worker_handle_io` writes, and `raft_process_recovery` accepts. -/
structure RaftMsg.IsRow (req : RaftMsg) : Prop where
  term_pos : 0 < req.term
  term_lt : req.term < 2 ^ 64
  vote_lt : req.vote < 2 ^ 32
  state_eq : req.state = 0
  vclock_eq : req.vclock = none

lemma Raft.Stable.row (h : r.Stable) : r.row.IsRow := ⟨h.term_pos, h.term_lt, h.vote_lt, rfl, rfl⟩

/-- A row sets the term and the vote that it has; a vote of 0 leaves the old one. -/
def recoverBallot (b : Ballot) (req : RaftMsg) : Ballot where
  term := if req.term ≠ 0 then req.term else b.term
  vote := if req.vote ≠ 0 then req.vote else b.vote

def recoveredBallot (rows : List RaftMsg) : Ballot := rows.foldl recoverBallot ⟨1, 0⟩

lemma recoveredBallot_append (rows : List RaftMsg) (req : RaftMsg) :
    recoveredBallot (rows ++ [req]) = recoverBallot (recoveredBallot rows) req := by
  simp [recoveredBallot]

/-- Recovery never takes back the vote of the last row. -/
lemma RaftMsg.IsRow.ballot_le (h : req.IsRow) (b : Ballot) : req.ballot ≤ recoverBallot b req := by
  have ht : req.term ≠ 0 := Nat.ne_of_gt h.term_pos
  refine .inr ⟨by simp [RaftMsg.ballot, recoverBallot, ht], ?_⟩
  by_cases hv : req.vote = 0
  · exact .inl hv
  · exact .inr (by simp [RaftMsg.ballot, recoverBallot, hv])

lemma recoveredBallot_bounds (h : ∀ row ∈ rows, row.IsRow) :
    0 < (recoveredBallot rows).term ∧ (recoveredBallot rows).term < 2 ^ 64 ∧
      (recoveredBallot rows).vote < 2 ^ 32 := by
  induction rows using List.reverseRecOn with
  | nil => decide
  | append_singleton rows row ih =>
    have hr := h row (by simp)
    obtain ⟨-, -, hv⟩ := ih fun row hm => h row (by simp [hm])
    have ht : row.term ≠ 0 := Nat.ne_of_gt hr.term_pos
    rw [recoveredBallot_append]
    refine ⟨by simp [recoverBallot, hr.term_pos, ht],
      by simpa [recoverBallot, ht] using hr.term_lt, ?_⟩
    simp only [recoverBallot]
    split
    · exact hr.vote_lt
    · exact hv

def Raft.withBallot (r : Raft) (b : Ballot) : Raft :=
  { r with term := b.term, volatileTerm := b.term, vote := b.vote, volatileVote := b.vote }

lemma processRecovery_eq (h : req.IsRow) (he : r.isEnabled = false) (b : Ballot) :
    raftProcessRecovery (r.withBallot b) req = some (r.withBallot (recoverBallot b req)) := by
  have ht : req.term ≠ 0 := Nat.ne_of_gt h.term_pos
  by_cases hv : req.vote = 0 <;>
    simp [raftProcessRecovery, assertThat, Raft.withBallot, recoverBallot, ht, hv, he,
      h.state_eq, h.vclock_eq]

lemma recover_eq (self electionQuorum : Nat) (vclock : Vclock) (h : ∀ row ∈ rows, row.IsRow) :
    raftRecover self electionQuorum vclock rows =
      some ((raftCreate self electionQuorum vclock).withBallot (recoveredBallot rows)) := by
  have hf (b : Ballot) :
      rows.foldlM raftProcessRecovery ((raftCreate self electionQuorum vclock).withBallot b) =
        some ((raftCreate self electionQuorum vclock).withBallot (rows.foldl recoverBallot b)) := by
    induction rows generalizing b with
    | nil => rfl
    | cons row rows ih =>
      rw [foldlM_cons, processRecovery_eq (h row mem_cons_self) rfl]
      exact ih (fun row hm => h row (mem_cons_of_mem _ hm)) _
  exact hf ⟨1, 0⟩

lemma not_writing (h : n.worker = .idle) (hw : n.worker = .writing req) : False := by
  simp [h] at hw

/-- The row of a write in progress lies between the persisted and the volatile ballot. -/
structure RaftNode.Writes (n : RaftNode) (req : RaftMsg) : Prop where
  isRow : req.IsRow
  inProgress : n.raft.isWriteInProgress = true
  ballot_le : n.raft.ballot ≤ req.ballot
  le_volatile : req.ballot ≤ n.raft.volatileBallot

structure RaftNode.Inv (n : RaftNode) : Prop where
  raft : n.raft.Inv
  writes : ∀ req, n.worker = .writing req → n.Writes req
  rows : ∀ row ∈ n.rows, row.IsRow
  recovers : n.raft.ballot ≤ recoveredBallot n.rows
  current : n.raft.ballot ∈ n.ballots
  latest : ∀ b ∈ n.ballots, b ≤ n.raft.ballot
  single : SingleVote n.ballots
  sent : ∀ req ∈ n.sent, req.ballot ∈ n.ballots

lemma created_inv {self electionQuorum : Nat} (hse : self ≠ 0) (hl : self < vclockMax)
    (hq : 0 < electionQuorum) (vclock : Vclock) {b : Ballot}
    (hb : 0 < b.term ∧ b.term < 2 ^ 64 ∧ b.vote < 2 ^ 32) :
    ((raftCreate self electionQuorum vclock).withBallot b).Inv where
  self_ne := hse
  self_lt := hl
  quorum_pos := hq
  timer := fun ho => nomatch ho
  enabled := fun hc => nomatch hc
  onDisk := fun _ => rfl
  advances := le_rfl
  term_pos := hb.1
  term_lt := hb.2.1
  vote_lt := hb.2.2
  writing := fun hw => nomatch hw
  candidate := fun hs => nomatch hs
  leader := fun hs => nomatch hs
  waits := fun hc => nomatch hc

lemma initial_inv {self electionQuorum : Nat} (hs : self ≠ 0) (hl : self < vclockMax)
    (hq : 0 < electionQuorum) (vclock : Vclock) :
    (RaftNode.initial self electionQuorum vclock).Inv where
  raft := created_inv hs hl hq vclock (b := ⟨1, 0⟩) (by decide)
  writes := fun _ hw => nomatch hw
  rows := fun _ hr => nomatch hr
  recovers := le_rfl
  current := mem_singleton_self _
  latest := fun b hb => by
    obtain rfl := mem_singleton.mp hb
    exact le_rfl
  single := fun a ha b hb _ _ _ => by
    rw [mem_singleton.mp ha, mem_singleton.mp hb]
  sent := fun _ hre => nomatch hre

/-- An operation of the state machine alone leaves rows, messages and ballots as they are. -/
lemma RaftNode.Inv.update (h : n.Inv) (hr : r.Inv) (hk : n.raft.Keeps r) : (n.update r).Inv :=
  have hb : r.ballot = n.raft.ballot := hk.ballot_eq
  { h with
    raft := hr
    writes := fun req hw =>
      have hwr := h.writes req hw
      ⟨hwr.isRow, hk.writing hwr.inProgress, hb ▸ hwr.ballot_le, hwr.le_volatile.trans hk.advances⟩
    recovers := hb ▸ h.recovers
    current := hb ▸ h.current
    latest := hb ▸ h.latest }

/-- The node has shown a new ballot, and the rows on disk recover it. -/
lemma RaftNode.Inv.shows (h : n.Inv) (hr : r.Inv) (hl : n.raft.ballot ≤ r.ballot)
    (hro : ∀ row ∈ rows, row.IsRow) (hre : r.ballot ≤ recoveredBallot rows) :
    RaftNode.Inv { n with
      raft := r, worker := .idle, rows := rows, ballots := n.ballots ++ [r.ballot] } where
  raft := hr
  writes := fun _ hw => nomatch hw
  rows := hro
  recovers := hre
  current := by simp
  latest := by
    intro b hb
    rcases mem_append.mp hb with hb | hb
    · exact (h.latest b hb).trans hl
    · rw [mem_singleton.mp hb]
  single := singleVote_append h.single fun b hb => (h.latest b hb).trans hl
  sent := fun req hrq => mem_append_left _ (h.sent req hrq)

lemma RaftNode.Inv.rows_append (h : n.Inv) (hr : req.IsRow) : ∀ row ∈ n.rows ++ [req], row.IsRow :=
  forall_mem_append.mpr ⟨h.rows, forall_mem_singleton.mpr hr⟩

lemma RaftNode.Inv.sent_append (h : n.Inv) :
    ∀ req ∈ n.sent ++ [raftCheckpointRemote n.raft], req.ballot ∈ n.ballots :=
  forall_mem_append.mpr ⟨h.sent, forall_mem_singleton.mpr h.current⟩

lemma RaftNode.Inv.rowsAfterCrash (h : n.Inv) (written : Bool) :
    (∀ row ∈ n.rowsAfterCrash written, row.IsRow) ∧
      n.raft.ballot ≤ recoveredBallot (n.rowsAfterCrash written) := by
  cases hw : n.worker with
  | idle =>
    simp only [RaftNode.rowsAfterCrash, hw]
    exact ⟨h.rows, h.recovers⟩
  | writing req =>
    cases written with
    | false =>
      simp only [RaftNode.rowsAfterCrash, hw]
      exact ⟨h.rows, h.recovers⟩
    | true =>
      have hwr := h.writes req hw
      simp only [RaftNode.rowsAfterCrash, hw, recoveredBallot_append]
      exact ⟨h.rows_append hwr.isRow, hwr.ballot_le.trans (hwr.isRow.ballot_le _)⟩

/-- A node that has just become a candidate holds its own vote only; one that leads at once
needs no other. -/
def Raft.Fresh (r : Raft) : Prop :=
  (r.state = .candidate → r.voteMask = (bitSet 0 r.self).1 ∧ r.voteCount = 1) ∧
    (r.state = .leader → r.electionQuorum = 1)

lemma Raft.fresh_of_follower (hs : r.state = .follower) : r.Fresh :=
  ⟨follower_not_candidate hs, follower_not_leader hs⟩

lemma Raft.Dumped.fresh (h : r.Dumped r') : r'.Fresh :=
  ⟨fun hs => h.self_eq ▸ h.candidate hs, fun hs => h.quorum_eq.trans (h.leader hs)⟩

structure RaftNode.Works (n n' : RaftNode) : Prop where
  inv : n'.Inv
  self_eq : n'.raft.self = n.raft.self
  quorum_eq : n'.raft.electionQuorum = n.raft.electionQuorum
  ballots : n.ballots ⊆ n'.ballots
  role : n.raft.SameRole n'.raft ∨ n'.raft.Fresh

lemma RaftNode.Works.refl (h : n.Inv) : n.Works n :=
  ⟨h, rfl, rfl, List.Subset.refl _, .inl ⟨rfl, rfl, rfl, rfl⟩⟩

lemma RaftNode.Works.trans (h : n.Works n') (h' : n'.Works n'') : n.Works n'' := by
  refine ⟨h'.inv, h'.self_eq.trans h.self_eq, h'.quorum_eq.trans h.quorum_eq,
    List.Subset.trans h.ballots h'.ballots, ?_⟩
  rcases h'.role with hsa | hf
  · rcases h.role with hsa₀ | hf
    · exact .inl (hsa₀.trans hsa)
    · obtain ⟨hs, -, hm, hc⟩ := hsa
      refine .inr ⟨?_, ?_⟩
      · rw [hs, hm, hc, h'.self_eq]
        exact hf.1
      · rw [hs, h'.quorum_eq]
        exact hf.2
  · exact .inr hf

/-- Between two rounds of `raft_process_async` there is nothing to send, and a write in
progress has something to write. -/
structure RaftNode.Settled (n : RaftNode) : Prop where
  idle : n.worker = .idle
  scheduled : n.raft.isBroadcastScheduled = false
  pending : n.raft.isWriteInProgress = true → n.raft.volatileBallot ≠ n.raft.ballot

section

variable (h : n.Inv)
include h

lemma handleBroadcast_spec (hb : n.raft.isBroadcastScheduled = true)
    (hw : n.worker = .idle)
    (hp : n.raft.isWriteInProgress = true → n.raft.volatileBallot ≠ n.raft.ballot) :
    Ensures (raftWorkerHandleBroadcast n) fun n' => n.Works n' ∧ n'.Settled := by
  have hr : Raft.Inv { n.raft with isBroadcastScheduled := false } := { h.raft with }
  unfold raftWorkerHandleBroadcast
  refine ensures_assert hb (ensures_assert (fun hs => (h.raft.candidate hs).2.2) ?_)
  refine ensures_some ⟨⟨?_, rfl, rfl, List.Subset.refl _, .inl ⟨rfl, rfl, rfl, rfl⟩⟩, hw, rfl, hp⟩
  exact { h with
    raft := hr
    writes := fun req hw' => (not_writing hw hw').elim
    sent := h.sent_append }

lemma broadcastIfScheduled_spec (hw : n.worker = .idle)
    (hp : n.raft.isWriteInProgress = true → n.raft.volatileBallot ≠ n.raft.ballot) :
    Ensures (raftBroadcastIfScheduled n) fun n' => n.Works n' ∧ n'.Settled := by
  unfold raftBroadcastIfScheduled
  split
  · rename_i hb
    exact handleBroadcast_spec h hb hw hp
  · rename_i hb
    exact ensures_some ⟨.refl h, hw, by simpa using hb, hp⟩

lemma handleIo_writes (hw : n.raft.isWriteInProgress = true)
    (hp : n.raft.volatileBallot ≠ n.raft.ballot) :
    Ensures (raftWorkerHandleIo env n) fun n' => n.Works n' ∧ n'.worker = .writing n.raft.row := by
  have hdi : ¬ raftIsFullyOnDisk n.raft = true := fun hd => hp (fullyOnDisk_iff.mp hd)
  unfold raftWorkerHandleIo
  refine ensures_assert hw (ensures_assert (h.raft.writing hw) ?_)
  simp only [hdi]
  refine ensures_assert h.raft.term_le (ensures_some
    ⟨⟨?_, rfl, rfl, List.Subset.refl _, .inl ⟨rfl, rfl, rfl, rfl⟩⟩, rfl⟩)
  exact { h with
    writes := fun req hr => by
      cases hr
      exact ⟨h.raft.row, hw, h.raft.advances, le_rfl⟩ }

lemma handleIo_ends (hi : n.worker = .idle)
    (hw : n.raft.isWriteInProgress = true) (hd : n.raft.volatileBallot = n.raft.ballot) :
    Ensures (raftWorkerHandleIo env n) fun n' => n.Works n' ∧ n'.worker = .idle ∧
      (n'.raft.isWriteInProgress = true → n'.raft.volatileBallot ≠ n'.raft.ballot) := by
  unfold raftWorkerHandleIo
  refine ensures_assert hw (ensures_assert (h.raft.writing hw) ?_)
  simp only [fullyOnDisk_iff.mpr hd]
  refine ensures_bind (endDump_spec h.raft hw hd) ?_
  rintro r ⟨hr, hdu⟩
  have hb : r.ballot = n.raft.ballot := hdu.ballot_eq
  refine ensures_some ⟨⟨?_, hdu.self_eq, hdu.quorum_eq, List.Subset.refl _,
    .inr hdu.fresh⟩, hi, hdu.pending⟩
  exact { h with
    raft := hr
    writes := fun req hw' => (not_writing hi hw').elim
    recovers := hb ▸ h.recovers
    current := hb ▸ h.current
    latest := hb ▸ h.latest }

lemma asyncLoop_settled (hs : n.Settled) (rounds : Nat) :
    Ensures (raftProcessAsyncLoop env (rounds + 1) n) fun n' => n.Works n' := by
  unfold raftProcessAsyncLoop
  split
  · rename_i hw
    refine ensures_bind (handleIo_writes h hw (hs.pending hw)) ?_
    rintro n' ⟨hwo, hwr⟩
    simp only [hwr]
    exact ensures_some hwo
  · rename_i hw
    have hw : n.raft.isWriteInProgress = false := by simpa using hw
    simp only [hs.scheduled]
    exact ensures_assert (fullyOnDisk_iff.mpr (h.raft.onDisk hw)) (ensures_some (.refl h))

lemma asyncLoop_spec (hi : n.worker = .idle) (rounds : Nat) :
    Ensures (raftProcessAsyncLoop env (rounds + 2) n) fun n' => n.Works n' := by
  -- one round settles the node, and in a settled node the loop stops
  have hr {m : RaftNode} (hm : n.Works m) (hs : m.Settled) :
      Ensures (raftProcessAsyncLoop env (rounds + 1) m) fun n' => n.Works n' :=
    (asyncLoop_settled hm.inv hs rounds).mono fun _ h' => hm.trans h'
  unfold raftProcessAsyncLoop
  split
  · rename_i hw
    by_cases hd : n.raft.volatileBallot = n.raft.ballot
    · refine ensures_bind (handleIo_ends h hi hw hd) ?_
      rintro n₁ ⟨hwo, hi₁, hp⟩
      simp only [hi₁]
      refine ensures_bind (broadcastIfScheduled_spec hwo.inv hi₁ hp) ?_
      rintro n₂ ⟨hwo₂, hs⟩
      exact hr (hwo.trans hwo₂) hs
    · refine ensures_bind (handleIo_writes h hw hd) ?_
      rintro n' ⟨hwo, hwr⟩
      simp only [hwr]
      exact ensures_some hwo
  · rename_i hw
    have hw : n.raft.isWriteInProgress = false := by simpa using hw
    split
    · rename_i hb
      refine ensures_bind (handleBroadcast_spec h hb hi (flag_absurd hw)) ?_
      rintro n' ⟨hwo, hs⟩
      exact hr hwo hs
    · exact ensures_assert (fullyOnDisk_iff.mpr (h.raft.onDisk hw)) (ensures_some (.refl h))

lemma processAsync_spec (hi : n.worker = .idle) :
    Ensures (raftProcessAsync env n) fun n' => n.Works n' :=
  asyncLoop_spec h hi 0

lemma finishIo_spec (hwt : n.worker = .writing req) :
    Ensures (raftWorkerFinishIo env n req) fun n' => n.Works n' ∧ n'.worker = .idle ∧
      (n'.raft.isWriteInProgress = true → n'.raft.volatileBallot ≠ n'.raft.ballot) := by
  have hwr := h.writes req hwt
  have hw := hwr.inProgress
  have hs := h.raft.writing hw
  have hp : (raftScheduleBroadcast { n.raft with term := req.term, vote := req.vote }).Inv :=
    { h.raft with
      onDisk := fun hw' => flag_absurd hw' hw
      advances := hwr.le_volatile
      candidate := follower_not_candidate hs
      leader := follower_not_leader hs }
  have hsh {r : Raft} (hr : r.Inv) (hb : r.ballot = req.ballot) : RaftNode.Inv { n with
      raft := r, worker := .idle, rows := n.rows ++ [req],
      ballots := n.ballots ++ [req.ballot] } := by
    rw [← hb]
    refine h.shows hr (hb ▸ hwr.ballot_le) (h.rows_append hwr.isRow) ?_
    rw [hb, recoveredBallot_append]
    exact hwr.isRow.ballot_le _
  have hg : n.ballots ⊆ n.ballots ++ [req.ballot] := subset_append_left _ _
  unfold raftWorkerFinishIo
  refine ensures_assert (Ballot.term_le hwr.ballot_le) ?_
  dsimp only
  split
  · rename_i hd
    refine ensures_bind (endDump_spec hp hw (fullyOnDisk_iff.mp hd)) ?_
    rintro r ⟨hr, hdu⟩
    exact ensures_some ⟨⟨hsh hr hdu.ballot_eq, hdu.self_eq, hdu.quorum_eq, hg,
      .inr hdu.fresh⟩, rfl, hdu.pending⟩
  · rename_i hd
    exact ensures_some ⟨⟨hsh hp rfl, rfl, rfl, hg,
      .inr (Raft.fresh_of_follower hs)⟩, rfl, fun _ hd' => hd (fullyOnDisk_iff.mpr hd')⟩

lemma writeDone_spec (hw : n.worker = .writing req) :
    Ensures (raftWriteDone env n req) fun n' => n.Works n' := by
  unfold raftWriteDone
  refine ensures_bind (finishIo_spec h hw) ?_
  rintro n₁ ⟨hworks₁, hidle₁, hpending₁⟩
  refine ensures_bind (broadcastIfScheduled_spec hworks₁.inv hidle₁ hpending₁) ?_
  rintro n₂ ⟨hworks₂, hs⟩
  refine (processAsync_spec hworks₂.inv hs.idle).mono ?_
  intro n₃ hworks₃
  exact (hworks₁.trans hworks₂).trans hworks₃

/-- A restart finds a ballot at least as advanced as the one the node has shown. -/
lemma restart_spec (written : Bool) (vclock : Vclock) :
    Ensures (n.restart written vclock) fun n' => n.Works n' := by
  obtain ⟨hro, hl⟩ := h.rowsAfterCrash written
  have hr := created_inv h.raft.self_ne h.raft.self_lt h.raft.quorum_pos vclock
    (recoveredBallot_bounds hro)
  unfold RaftNode.restart
  refine ensures_bind ⟨_, recover_eq _ _ vclock hro, rfl⟩ ?_
  rintro _ rfl
  exact ensures_some ⟨h.shows hr hl hro le_rfl, rfl, rfl, subset_append_left _ _,
    .inr (Raft.fresh_of_follower rfl)⟩

end

end TarantoolStorage
