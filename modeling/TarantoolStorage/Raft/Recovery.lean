import TarantoolStorage.Raft.Assertions
import TarantoolStorage.Raft.Codec

/-!
Recovery from the log. A row without a vote leaves the vote of the rows before it, so a vote
outlives its term.
-/
namespace TarantoolStorage

open Checked MsgPack Transition Voting List RaftNode

variable {n : RaftNode} {rows : List RaftMsg} {req : RaftMsg}

/-- `wal_stream_apply_raft_row` for a row outside a transaction. -/
def walStreamApplyRaftRow (r : Raft) (row : XrowHeader) : Decode Raft := do
  let req ← xrowDecodeRaft false row
  ExceptT.lift (raftProcessRecovery r req)

/-- A fresh instance that has read these rows of the log. -/
def raftReplay (self electionQuorum : Nat) (vclock : Vclock) (log : List XrowHeader) :
    Decode Raft :=
  log.foldlM walStreamApplyRaftRow (raftCreate self electionQuorum vclock)

lemma applyRaftRow_encode (h : req.IsRow) (r : Raft) :
    walStreamApplyRaftRow r (xrowEncodeRaft req) = ExceptT.lift (raftProcessRecovery r req) := by
  have hs : req.state < 2 ^ 64 := by simp [h.state_eq]
  simp [walStreamApplyRaftRow, pure_bind, xrowDecodeRaft_encode h.term_lt h.vote_lt hs h.vclock_eq]

/-- Reading the encoded rows is recovering from the rows. -/
lemma replay_encode (self electionQuorum : Nat) (vclock : Vclock) (h : ∀ row ∈ rows, row.IsRow) :
    raftReplay self electionQuorum vclock (rows.map xrowEncodeRaft) =
      ExceptT.lift (raftRecover self electionQuorum vclock rows) := by
  have hf (r : Raft) : (rows.map xrowEncodeRaft).foldlM walStreamApplyRaftRow r =
        ExceptT.lift (rows.foldlM raftProcessRecovery r) := by
    induction rows generalizing r with
    | nil => rfl
    | cons row rows ih =>
      rw [map_cons, foldlM_cons, foldlM_cons, applyRaftRow_encode (h row mem_cons_self)]
      cases raftProcessRecovery r row with
      | none => rfl
      | some r' => exact ih (fun row hm => h row (mem_cons_of_mem _ hm)) r'
  exact hf _

lemma recoveredBallot_vote_eq_zero :
    (recoveredBallot rows).vote = 0 ↔ ∀ row ∈ rows, row.vote = 0 := by
  induction rows using List.reverseRecOn with
  | nil => simp [recoveredBallot]
  | append_singleton rows row ih =>
    rw [recoveredBallot_append]
    by_cases hv : row.vote = 0
    · simp only [recoverBallot, hv, ne_eq, not_true_eq_false, ite_false, ih, forall_mem_append,
        forall_mem_singleton, and_true]
    · simp only [recoverBallot, hv, ne_eq, not_false_eq_true, ite_true, false_iff]
      exact fun h => hv (h row (by simp))

/-- The last row decides unless it leaves the vote to the rows before it. -/
lemma recoveredBallot_eq_last_iff {last : RaftMsg} (h : last.IsRow) :
    recoveredBallot (rows ++ [last]) = last.ballot ↔
      last.vote ≠ 0 ∨ ∀ row ∈ rows ++ [last], row.vote = 0 := by
  have ht : last.term ≠ 0 := Nat.ne_of_gt h.term_pos
  rw [← recoveredBallot_vote_eq_zero, recoveredBallot_append]
  by_cases hv : last.vote = 0
  · simp [recoverBallot, RaftMsg.ballot, Ballot.ext_iff, ht, hv]
  · simp [recoverBallot, RaftMsg.ballot, ht, hv]

/-- At every restart point of every run the log gives the term and the vote of its last row exactly
when that row has a vote or no row has one. -/
theorem recovery_exact_iff {self electionQuorum : Nat} {vclock : Vclock} {calls : List RaftCall}
    {last : RaftMsg} (hself : self ≠ 0) (hlt : self < vclockMax) (hq : 0 < electionQuorum)
    (hvalid : Along call Valid (initial self electionQuorum vclock) calls)
    (hrun : run call (initial self electionQuorum vclock) calls = some n)
    (written : Bool) (hlast : (n.rowsAfterCrash written).getLast? = some last)
    (newVclock : Vclock) :
    ∃ r, raftReplay self electionQuorum newVclock
        ((n.rowsAfterCrash written).map xrowEncodeRaft) = pure r ∧
      r.volatileBallot = r.ballot ∧
      (r.ballot = last.ballot ↔
        last.vote ≠ 0 ∨ ∀ row ∈ n.rowsAfterCrash written, row.vote = 0) := by
  have hi := run_inv (initial_inv hself hlt hq vclock) hvalid hrun
  obtain ⟨hr, -⟩ := hi.rowsAfterCrash written
  refine ⟨(raftCreate self electionQuorum newVclock).withBallot
    (recoveredBallot (n.rowsAfterCrash written)), ?_, rfl, ?_⟩
  · rw [replay_encode _ _ _ hr, recover_eq _ _ _ hr]
    rfl
  · obtain ⟨rows, hs⟩ := getLast?_eq_some_iff.mp hlast
    rw [hs] at hr ⊢
    exact recoveredBallot_eq_last_iff (hr last (by simp))

/-- A vote for instance 2 in term 2 is written. -/
def votedCalls : List RaftCall :=
  [.cfgIsEnabled true, .processMsg ⟨2, 2, RaftState.candidate.code, some vclockCreate⟩ 2,
    .processAsync ⟨0, 0⟩, .writeDone ⟨0, 0⟩]

lemma votedCalls_valid : Along call Valid (initial 1 2 vclockCreate) votedCalls := by
  have hm : 0 < 2 ∧ 2 < vclockMax ∧ 2 ≠ 1 ∧ 2 < 2 ^ 64 ∧ 2 < 2 ^ 32 := by decide
  refine along_cons trivial rfl (along_cons hm rfl (along_cons rfl rfl ?_))
  exact along_cons ⟨_, rfl⟩ rfl trivial

theorem recovery_exact_voted : ∃ n, run call (initial 1 2 vclockCreate) votedCalls = some n ∧
      ∃ r, raftReplay 1 2 vclockCreate ((n.rowsAfterCrash false).map xrowEncodeRaft) = pure r ∧
        r.ballot = ⟨2, 2⟩ := by
  have key (n : RaftNode) (hru : run call (initial 1 2 vclockCreate) votedCalls = some n) :
      ∃ r, raftReplay 1 2 vclockCreate ((n.rowsAfterCrash false).map xrowEncodeRaft) = pure r ∧
        r.ballot = ⟨2, 2⟩ := by
    have hl : (n.rowsAfterCrash false).getLast? = some ⟨2, 2, 0, none⟩ := by
      cases hru
      rfl
    obtain ⟨r, hr, -, hi⟩ := recovery_exact_iff (by decide) (by decide) (by decide)
      votedCalls_valid hru false hl vclockCreate
    exact ⟨r, hr, hi.mpr (.inl (by decide))⟩
  exact ⟨_, rfl, key _ rfl⟩

/-- After the vote the node enters term 3 and writes that. -/
def laterTermCalls : List RaftCall := [.newTerm, .processAsync ⟨0, 0⟩, .writeDone ⟨0, 0⟩]

/-- The vote of term 2 is recovered as a vote of term 3. -/
theorem recovered_vote_of_older_term :
    ∃ n, run call (initial 1 2 vclockCreate) (votedCalls ++ laterTermCalls) = some n ∧
      n.rows.map RaftMsg.ballot = [⟨2, 2⟩, ⟨3, 0⟩] ∧
      ∃ r, raftReplay 1 2 vclockCreate (n.rows.map xrowEncodeRaft) = pure r ∧
        r.ballot = ⟨3, 2⟩ := by
  refine ⟨_, rfl, rfl, _, rfl, rfl⟩

/-- What a node has told others never holds two votes in a term, and survives a crash at any
point: no term or vote that it has shown is taken back by the log. -/
theorem sent_survives_crash {self electionQuorum : Nat} {vclock : Vclock} {calls : List RaftCall}
    (hself : self ≠ 0) (hlt : self < vclockMax) (hq : 0 < electionQuorum)
    (hvalid : Along call Valid (initial self electionQuorum vclock) calls)
    (hrun : run call (initial self electionQuorum vclock) calls = some n) (written : Bool)
    (newVclock : Vclock) :
    SingleVote (n.sent.map RaftMsg.ballot) ∧
      ∃ r, raftReplay self electionQuorum newVclock
          ((n.rowsAfterCrash written).map xrowEncodeRaft) = pure r ∧
        ∀ req ∈ n.sent, req.ballot ≤ r.ballot := by
  have hi := run_inv (initial_inv hself hlt hq vclock) hvalid hrun
  obtain ⟨hr, hle⟩ := hi.rowsAfterCrash written
  have hs : ∀ b ∈ n.sent.map RaftMsg.ballot, b ∈ n.ballots := forall_mem_map.mpr hi.sent
  refine ⟨fun a ha b hb => hi.single a (hs a ha) b (hs b hb),
    (raftCreate self electionQuorum newVclock).withBallot
      (recoveredBallot (n.rowsAfterCrash written)), ?_,
    fun req hm => (hi.latest _ (hi.sent req hm)).trans hle⟩
  rw [replay_encode _ _ _ hr, recover_eq _ _ _ hr]
  rfl

theorem sent_survives_crash_voted : ∃ n, run call (initial 1 2 vclockCreate) votedCalls = some n ∧
      n.sent ≠ [] ∧ ∃ r, raftReplay 1 2 vclockCreate
          ((n.rowsAfterCrash false).map xrowEncodeRaft) = pure r ∧
        ∀ req ∈ n.sent, req.ballot ≤ r.ballot :=
  ⟨_, rfl, by decide, (sent_survives_crash (by decide) (by decide) (by decide) votedCalls_valid rfl
    false vclockCreate).2⟩

end TarantoolStorage
