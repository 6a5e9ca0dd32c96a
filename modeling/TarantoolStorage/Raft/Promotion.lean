import TarantoolStorage.Raft.Recovery

/-!
Manual promotion makes the node a candidate of the term it starts, whatever its configuration, and
the next term takes that back.
-/
namespace TarantoolStorage

open Checked Transition Voting List Option RaftNode

variable {r r' r'' : Raft} {env : RaftEnv} {n n' : RaftNode} {a : RaftCall} {req : RaftMsg}
  {source term : Nat}

/-- Not a candidate, and without a vote for itself in its term. -/
def Raft.Bystander (r : Raft) : Prop :=
  r.isCandidate = false ∧ r.state = .follower ∧ r.volatileVote ≠ r.self

/-- A new term makes the node a bystander, and a bystander stays one. -/
structure Raft.Lapses (r r' : Raft) : Prop where
  self_eq : r'.self = r.self
  cfg_eq : r'.isCfgCandidate = r.isCfgCandidate
  ballot_eq : r'.ballot = r.ballot
  bystander : r.Bystander ∨ r'.volatileTerm ≠ r.volatileTerm → r'.Bystander

/-- Within a term only a bystander matters. -/
lemma Raft.Lapses.of_term (he : (r'.self, r'.isCfgCandidate, r'.ballot, r'.volatileTerm) =
      (r.self, r.isCfgCandidate, r.ballot, r.volatileTerm)) (h : r.Bystander → r'.Bystander) :
    r.Lapses r' := by
  simp only [Prod.mk.injEq] at he
  obtain ⟨hs, hc, hb, ht⟩ := he
  exact ⟨hs, hc, hb, fun hr => h (hr.resolve_right fun hn => hn ht)⟩

lemma Raft.Lapses.refl (r : Raft) : r.Lapses r := .of_term rfl id

lemma Raft.Lapses.trans (h : r.Lapses r') (h' : r'.Lapses r'') : r.Lapses r'' where
  self_eq := h'.self_eq.trans h.self_eq
  cfg_eq := h'.cfg_eq.trans h.cfg_eq
  ballot_eq := h'.ballot_eq.trans h.ballot_eq
  bystander := by
    intro hr
    refine h'.bystander ?_
    rcases hr with hr | hn
    · exact .inl (h.bystander (.inl hr))
    · by_cases hs : r'.volatileTerm = r.volatileTerm
      · exact .inr (hs ▸ hn)
      · exact .inl (h.bystander (.inr hs))

lemma lapses_broadcast : r.Lapses (raftScheduleBroadcast r) := .of_term rfl id

lemma pauseAndDump_allows : Allows (raftSmPauseAndDump r) fun r' =>
    ∃ timer writing, r' = { r with timer := timer, isWriteInProgress := writing } := by
  unfold raftSmPauseAndDump
  refine allows_assert fun _ => ?_
  split
  · exact allows_some ⟨r.timer, r.isWriteInProgress, rfl⟩
  · exact allows_some ⟨_, _, rfl⟩

lemma waitLeaderDead_allows : Allows (raftSmWaitLeaderDead r) fun r' => r.Lapses r' := by
  unfold raftSmWaitLeaderDead
  refine allows_assert fun _ => allows_assert fun _ => allows_assert fun _ => ?_
  exact allows_assert fun _ => allows_assert fun _ => allows_some (.of_term rfl id)

lemma waitElectionEnd_allows : Allows (raftSmWaitElectionEnd env r) fun r' =>
    ∃ timer, r' = { r with timer := timer } := by
  unfold raftSmWaitElectionEnd
  refine allows_assert fun _ => allows_assert fun _ => allows_assert fun _ => ?_
  exact allows_assert fun _ => allows_assert fun _ => allows_some ⟨_, rfl⟩

lemma restore_off (hc : r.isCfgCandidate = false) : raftRestore r = some (raftStopCandidate r) := by
  simp [raftRestore, raftSetCandidate, hc]

lemma stopCandidate_lapses : r.Lapses (raftStopCandidate r) := by
  unfold raftStopCandidate
  split
  · rename_i hc
    exact .of_term rfl fun hr => flag_absurd hr.1 hc
  · exact .refl r

lemma scheduleNewTerm_allows (hs : r.self ≠ 0) (hc : r.isCfgCandidate = false)
    {newTerm : Nat} : Allows (raftSmScheduleNewTerm r newTerm) fun r' =>
      r.Lapses r' ∧ r'.isCandidate = false := by
  unfold raftSmScheduleNewTerm
  refine allows_assert fun _ => allows_assert fun _ => ?_
  obtain ⟨scheduled, hst⟩ := stopCandidate_follower (r := { r with
    volatileTerm := newTerm, volatileVote := 0, leader := 0, state := .follower }) rfl
  have hr := restore_off (r := { r with
    volatileTerm := newTerm, volatileVote := 0, leader := 0, state := .follower }) hc
  rw [hst] at hr
  refine allows_bind (fun _ h₁ => some.inj (hr.symm.trans h₁)) ?_
  rintro _ rfl
  refine allows_bind pauseAndDump_allows ?_
  rintro _ ⟨timer, writing, rfl⟩
  exact allows_some ⟨⟨rfl, rfl, rfl, fun _ => ⟨rfl, rfl, hs.symm⟩⟩, rfl⟩

lemma scheduleNewVote_allows {vote : Nat} (hv : vote = r.self → r.isCandidate = true) :
    Allows (raftSmScheduleNewVote r vote) fun r' => r.Lapses r' ∧ r'.leader = r.leader ∧
      r'.isCandidate = r.isCandidate ∧ r'.volatileTerm = r.volatileTerm := by
  unfold raftSmScheduleNewVote
  refine allows_assert fun _ => allows_assert fun _ => allows_assert fun _ => ?_
  refine pauseAndDump_allows.mono ?_
  rintro _ ⟨timer, writing, rfl⟩
  refine ⟨.of_term rfl ?_, rfl, rfl, rfl⟩
  exact fun ⟨hc, hs, _⟩ => ⟨hc, hs, fun ho => flag_absurd hc (hv ho)⟩

lemma becomeLeader_allows : Allows (raftSmBecomeLeader r) fun r' =>
    r.Lapses r' ∧ r'.leader = r.self ∧ r'.isCandidate = r.isCandidate ∧
      r'.volatileTerm = r.volatileTerm := by
  unfold raftSmBecomeLeader
  refine allows_assert fun _ => allows_assert fun _ => allows_assert fun hc => ?_
  refine allows_assert fun _ => allows_some ⟨.of_term rfl ?_, rfl, rfl, rfl⟩
  exact fun hr => flag_absurd hr.1 hc

lemma endDump_allows : Allows (raftEndDump env r) fun r' => r.Lapses r' := by
  unfold raftEndDump
  dsimp only
  split
  · exact allows_some (.of_term rfl id)
  rename_i hc
  have hc : r.isCandidate = true := by simpa using hc
  have hi : r.Lapses { r with isWriteInProgress := false } :=
    .of_term rfl fun hr => flag_absurd hr.1 hc
  split
  · exact waitLeaderDead_allows.mono fun _ h => hi.trans h
  split
  · split
    · exact becomeLeader_allows.mono fun _ h => hi.trans h.1
    · unfold raftSmBecomeCandidate
      refine allows_assert fun _ => allows_assert fun _ => allows_assert fun _ => ?_
      refine allows_assert fun _ => allows_assert fun _ => allows_assert fun _ => ?_
      refine allows_bind waitElectionEnd_allows ?_
      rintro _ ⟨timer, rfl⟩
      exact allows_some (.of_term rfl fun hr => flag_absurd hr.1 hc)
  split
  · refine waitElectionEnd_allows.mono ?_
    rintro _ ⟨timer, rfl⟩
    exact .of_term rfl fun hr => flag_absurd hr.1 hc
  · exact (scheduleNewVote_allows (r := { r with isWriteInProgress := false }) fun _ => hc).mono
      fun _ h => hi.trans h.1

lemma processVote_allows : Allows (raftProcessVote r req source) fun r' =>
    r.Lapses r' ∧ r.VoteFrame r' := by
  have hsa : Allows (some r) fun r' => r.Lapses r' ∧ r.VoteFrame r' :=
    allows_some ⟨.refl r, .inl rfl, rfl, rfl⟩
  have ha : Allows (raftAnswerVote r req) fun r' => r.Lapses r' ∧ r.VoteFrame r' := by
    unfold raftAnswerVote
    iterate 6
      split
      · exact hsa
    rename_i ho _ _ _
    refine (scheduleNewVote_allows fun he => absurd he ho).mono ?_
    rintro r' ⟨hla, hl, hc, ht⟩
    exact ⟨hla, .inl hl, hc, ht⟩
  unfold raftProcessVote
  split
  · exact ha
  · exact ha
  rename_i hs
  unfold raftCountVote
  split
  · exact hsa
  refine allows_assert fun _ => ?_
  -- a candidate counts, and nothing of what is compared changes before it is elected
  have had : r.Lapses (r.addVote source) := .of_term rfl fun hr => follower_not_candidate hr.2.1 hs
  dsimp only
  split
  · exact allows_some ⟨had, .inl rfl, rfl, rfl⟩
  · refine becomeLeader_allows.mono ?_
    rintro r' ⟨hla, hl, hc, ht⟩
    exact ⟨had.trans hla, .inr hl, hc, ht⟩

lemma processRole_allows (h : req.state ≠ RaftState.leader.code → source = r.leader →
    r.isCandidate = false) : Allows (raftProcessRole r req source) fun r' => r.Lapses r' := by
  unfold raftProcessRole
  split
  · rename_i hs
    split
    · rename_i hl
      rw [if_neg (by simp [h hs hl])]
      exact allows_some (.of_term rfl id)
    · exact allows_some (.refl r)
  split
  · exact allows_some (.refl r)
  split
  · exact allows_some (.refl r)
  have hf : r.Lapses { r with state := .follower, leader := source } :=
    .of_term rfl fun hr => ⟨hr.1, rfl, hr.2.2⟩
  unfold raftSmFollowLeader
  refine allows_assert fun _ => allows_assert fun _ => ?_
  refine allows_bind (P := fun r' => r.Lapses r') ?_ ?_
  · split
    · refine waitLeaderDead_allows.mono fun r' h => (hf.trans ?_).trans h
      exact .of_term rfl id
    · exact allows_some hf
  · exact fun r' h => allows_some (h.trans lapses_broadcast)

/-- The message is news of the leader's resignation to a node promoted against its
configuration. -/
def Raft.HearsResignation (r : Raft) (req : RaftMsg) (source : Nat) : Prop :=
  r.isCandidate = true ∧ r.isCfgCandidate = false ∧ req.term = r.volatileTerm ∧
    req.state ≠ RaftState.leader.code ∧ source = r.leader

lemma processMsg_allows (hse : r.self ≠ 0) (hcf : r.isCfgCandidate = false)
    (h : ¬ r.HearsResignation req source) :
    Allows (raftProcessMsg r req source) fun p => r.Lapses p.1 := by
  unfold raftProcessMsg
  refine allows_assert fun _ => allows_assert fun ho => ?_
  split
  · exact allows_some (.refl r)
  split
  · exact allows_some (.refl r)
  rename_i hol
  refine allows_bind (P := fun r₁ => r.Lapses r₁ ∧
    (r₁.isCandidate = false ∨ r₁ = r ∧ req.term = r.volatileTerm)) ?_ ?_
  · split
    · exact (scheduleNewTerm_allows hse hcf).mono fun r₁ h₁ => ⟨h₁.1, .inl h₁.2⟩
    · exact allows_some ⟨.refl r, .inr ⟨rfl, by omega⟩⟩
  rintro r₁ ⟨h₁, ht⟩
  refine allows_bind (P := fun r₂ => r₁.Lapses r₂ ∧ r₁.VoteFrame r₂) ?_ ?_
  · split
    · exact processVote_allows
    · exact allows_some ⟨.refl r₁, .inl rfl, rfl, rfl⟩
  rintro r₂ ⟨h₂, hf⟩
  refine allows_bind (processRole_allows fun hs hl => ?_) fun r₃ h₃ =>
    allows_some ((h₁.trans h₂).trans h₃)
  rw [hf.candidate_eq]
  rcases ht with hof | ⟨rfl, ht⟩
  · exact hof
  · rw [Bool.eq_false_iff]
    intro hc
    refine h ⟨hc, hcf, ht, hs, ?_⟩
    exact hf.leader.elim hl.trans fun hl' => absurd (hl.trans hl') ho

lemma heartbeat_allows : Allows (raftProcessHeartbeat r source) fun r' => r.Lapses r' := by
  unfold raftProcessHeartbeat
  split
  · exact allows_some (.refl r)
  split
  · exact allows_some (.refl r)
  rename_i hc
  have hc : r.isCandidate = true := by simpa using hc
  split
  · exact allows_some (.refl r)
  split
  · exact allows_some (.refl r)
  split
  · exact allows_some (.refl r)
  have hs : r.Lapses { r with timer := r.timer.stop } := .of_term rfl fun hr => flag_absurd hr.1 hc
  exact allows_assert fun _ => waitLeaderDead_allows.mono fun r' h => hs.trans h

lemma cfgIsEnabled_allows (hc : r.isCfgCandidate = false) {isEnabled : Bool} :
    Allows (raftCfgIsEnabled r isEnabled) fun r' => r.Lapses r' := by
  unfold raftCfgIsEnabled
  split
  · exact allows_some (.refl r)
  split
  · unfold raftSmStart
    refine allows_assert fun _ => allows_assert fun _ => allows_assert fun hs => ?_
    have hst : r.Lapses { r with isEnabled := true, isCandidate := r.isCfgCandidate } :=
      .of_term rfl fun hr => ⟨hc, hr.2⟩
    dsimp only
    simp only [hc, if_true, ite_self]
    exact allows_some ((hc ▸ hst).trans lapses_broadcast)
  · unfold raftSmStop
    exact allows_assert fun _ => allows_some (.of_term rfl fun hr => ⟨rfl, rfl, hr.2.2⟩)

lemma cfgElectionTimeout_allows {timeout : Rat} :
    Allows (raftCfgElectionTimeout env r timeout) fun r' => r.Lapses r' := by
  unfold raftCfgElectionTimeout
  dsimp only
  split
  · exact allows_some (.refl r)
  split
  · exact allows_some (.of_term rfl id)
  · exact allows_assert fun _ => allows_some (.of_term rfl id)

lemma cfgDeathTimeout_allows {timeout : Rat} :
    Allows (raftCfgDeathTimeout env r timeout) fun r' => r.Lapses r' := by
  unfold raftCfgDeathTimeout
  dsimp only
  split
  · exact allows_some (.refl r)
  split
  · exact allows_some (.of_term rfl id)
  · exact allows_assert fun _ => allows_some (.of_term rfl id)

lemma cfgElectionQuorum_allows {electionQuorum : Nat} :
    Allows (raftCfgElectionQuorum r electionQuorum) fun r' => r.Lapses r' := by
  have hs : r.Lapses { r with electionQuorum := electionQuorum } := .of_term rfl id
  unfold raftCfgElectionQuorum
  refine allows_assert fun _ => ?_
  dsimp only
  split
  · exact becomeLeader_allows.mono fun r' h => hs.trans h.1
  · exact allows_some hs

structure RaftNode.Dumps (n n' : RaftNode) : Prop where
  lapses : n.raft.Lapses n'.raft
  rows_eq : n'.rows = n.rows
  writes : ∀ req, n'.worker = .writing req → n.worker = .writing req ∨ req = n'.raft.row

lemma RaftNode.Dumps.trans {n'' : RaftNode} (h : n.Dumps n') (h' : n'.Dumps n'')
    (hi : n'.worker = .idle) : n.Dumps n'' where
  lapses := h.lapses.trans h'.lapses
  rows_eq := h'.rows_eq.trans h.rows_eq
  writes := fun req hw => (h'.writes req hw).imp (fun hw' => (not_writing hi hw').elim) id

lemma handleIo_allows : Allows (raftWorkerHandleIo env n) fun n' => n.Dumps n' := by
  unfold raftWorkerHandleIo
  refine allows_assert fun _ => allows_assert fun _ => ?_
  split
  · exact allows_bind endDump_allows fun r h => allows_some ⟨h, rfl, fun _ hw => .inl hw⟩
  · refine allows_assert fun _ => allows_some ⟨.refl _, rfl, ?_⟩
    rintro req ⟨⟩
    exact .inr rfl

lemma handleBroadcast_allows : Allows (raftWorkerHandleBroadcast n) fun n' =>
    n.Dumps n' ∧ n'.worker = n.worker := by
  unfold raftWorkerHandleBroadcast
  refine allows_assert fun _ => allows_assert fun _ => allows_some ?_
  exact ⟨⟨.of_term rfl id, rfl, fun _ hw => .inl hw⟩, rfl⟩

lemma broadcastIfScheduled_allows : Allows (raftBroadcastIfScheduled n) fun n' =>
    n.Dumps n' ∧ n'.worker = n.worker := by
  unfold raftBroadcastIfScheduled
  split
  · exact handleBroadcast_allows
  · exact allows_some ⟨⟨.refl _, rfl, fun _ hw => .inl hw⟩, rfl⟩

lemma asyncLoop_allows (rounds : Nat) (hi : n.worker = .idle) :
    Allows (raftProcessAsyncLoop env rounds n) fun n' => n.Dumps n' := by
  induction rounds generalizing n with
  | zero =>
    intro n' h
    cases h
  | succ rounds ih =>
    unfold raftProcessAsyncLoop
    split
    · refine allows_bind handleIo_allows fun n₁ h₁ => ?_
      split
      · exact allows_some h₁
      · rename_i hi₁
        refine allows_bind broadcastIfScheduled_allows ?_
        rintro n₂ ⟨h₂, hi₂⟩
        rw [hi₁] at hi₂
        exact (ih hi₂).mono fun n₃ h₃ => (h₁.trans h₂ hi₁).trans h₃ hi₂
    split
    · refine allows_bind handleBroadcast_allows ?_
      rintro n₁ ⟨h₁, hi₁⟩
      rw [hi] at hi₁
      exact (ih hi₁).mono fun n₂ h₂ => h₁.trans h₂ hi₁
    · exact allows_assert fun _ => allows_some ⟨.refl _, rfl, fun _ hw => .inl hw⟩

/-- A write that ends persists its row, and then the worker goes on. -/
lemma writeDone_allows : Allows (raftWriteDone env n req) fun n' => Dumps { n with
    raft := { n.raft with term := req.term, vote := req.vote }
    worker := .idle, rows := n.rows ++ [req], ballots := n.ballots ++ [req.ballot] } n' := by
  unfold raftWriteDone
  refine allows_bind (P := fun n₁ => Dumps { n with
    raft := { n.raft with term := req.term, vote := req.vote }
    worker := .idle, rows := n.rows ++ [req], ballots := n.ballots ++ [req.ballot] } n₁ ∧
      n₁.worker = .idle) ?_ ?_
  · unfold raftWorkerFinishIo
    refine allows_assert fun _ => allows_bind
      (P := fun r => Raft.Lapses { n.raft with term := req.term, vote := req.vote } r) ?_ ?_
    · split
      · exact endDump_allows.mono fun r h => lapses_broadcast.trans h
      · exact allows_some lapses_broadcast
    · exact fun r h => allows_some ⟨⟨h, rfl, fun _ hw => .inl hw⟩, rfl⟩
  rintro n₁ ⟨h₁, hidle₁⟩
  refine allows_bind broadcastIfScheduled_allows ?_
  rintro n₂ ⟨h₂, hidle₂⟩
  rw [hidle₁] at hidle₂
  exact (asyncLoop_allows _ hidle₂).mono fun n₃ h₃ => (h₁.trans h₂ hidle₁).trans h₃ hidle₂

/-- Rows come from the worker, and the term of a row is reached when it is on disk. -/
lemma call_rows (h : n.Inv) (hc : n.call a = some n') :
    ∀ row ∈ n'.rows, row ∈ n.rows ∨ n.worker = .writing row ∧ row.term ≤ n'.raft.term := by
  have hu {x : Option Raft} (hx : x.map n.update = some n') :
      ∀ row ∈ n'.rows, row ∈ n.rows ∨ n.worker = .writing row ∧ row.term ≤ n'.raft.term := by
    obtain ⟨r, -, rfl⟩ := map_eq_some_iff.mp hx
    exact fun row hro => .inl hro
  cases a with
  | processMsg req source =>
    obtain ⟨p, -, rfl⟩ := map_eq_some_iff.mp hc
    exact fun row hro => .inl hro
  | processAsync env =>
    cases hw : n.worker with
    | idle =>
      simp only [RaftNode.call, hw] at hc
      rw [(asyncLoop_allows _ hw n' hc).rows_eq]
      exact fun row hro => .inl hro
    | writing req => simp [RaftNode.call, hw] at hc
  | writeDone env =>
    cases hw : n.worker with
    | idle => simp [RaftNode.call, hw] at hc
    | writing req =>
      simp only [RaftNode.call, hw] at hc
      have hd := writeDone_allows n' hc
      have ht : n'.raft.term = req.term := congrArg Ballot.term hd.lapses.ballot_eq
      rw [hd.rows_eq]
      intro row hro
      rcases mem_append.mp hro with hro | hro
      · exact .inl hro
      · obtain rfl := mem_singleton.mp hro
        exact .inr ⟨rfl, ht.ge⟩
  | restart written vclock =>
    obtain ⟨hr, -⟩ := h.rowsAfterCrash written
    simp only [RaftNode.call, RaftNode.restart, recover_eq _ _ vclock hr] at hc
    obtain rfl := some.inj hc
    intro row hro
    cases hw : n.worker with
    | idle =>
      simp only [rowsAfterCrash, hw] at hro
      exact .inl hro
    | writing req =>
      simp only [rowsAfterCrash, hw] at hro
      cases written with
      | false => exact .inl hro
      | true =>
        rcases mem_append.mp hro with hro | hro
        · exact .inl hro
        · obtain rfl := mem_singleton.mp hro
          have hl := Ballot.term_le ((h.writes row hw).isRow.ballot_le (recoveredBallot n.rows))
          rw [← recoveredBallot_append] at hl
          simp only [rowsAfterCrash, hw]
          exact .inr ⟨trivial, hl⟩
  | checkpointRemote | vclockChanged vclock =>
    obtain rfl := some.inj hc
    exact fun row hro => .inl hro
  | _ => exact hu hc

lemma rows_le_step (h : n.Inv) (hv : n.Valid a) (hc : n.call a = some n')
    (hro : ∀ row ∈ n.rows, row.term ≤ n.raft.term) :
    ∀ row ∈ n'.rows, row.term ≤ n'.raft.term := by
  obtain ⟨hi, he⟩ := call_step h hv hc
  have hm : n.raft.term ≤ n'.raft.term := by
    by_cases hk : a.KeepsQuorum
    · exact Ballot.term_le (hi.latest _ ((he hk).ballots h.current))
    · cases a with
      | cfgElectionQuorum electionQuorum =>
        obtain ⟨r, hr, rfl⟩ := map_eq_some_iff.mp hc
        exact (congrArg Ballot.term (cfgElectionQuorum_allows r hr).ballot_eq).ge
      | _ => exact absurd trivial hk
  intro row hrw
  rcases call_rows h hc row hrw with ho | ⟨-, hl⟩
  · exact (hro row ho).trans hm
  · exact hl

/-- In terms after the given one the node takes no part in elections on its own. -/
structure RaftNode.Lapsed (term : Nat) (n : RaftNode) : Prop where
  cfg : n.raft.isCfgCandidate = false
  later : term < n.raft.volatileTerm → n.raft.Bystander
  persisted : term < n.raft.term → n.raft.vote ≠ n.raft.self
  writes : ∀ req, n.worker = .writing req → term < req.term → req.vote ≠ n.raft.self
  rows : ∀ row ∈ n.rows, term < row.term → row.vote ≠ n.raft.self

/-- The calls after a promotion, with a configuration that stays as it is. -/
def RaftCall.Unpromoted : RaftCall → Prop
  | .promote => False
  | .cfgIsCandidate isCandidate => isCandidate = false
  | _ => True

/-- While promoted against its configuration the node begins no election: its timer does not fire
and its leader does not resign. A restart finds a last row with a vote, or no vote. -/
def RaftNode.Abides (n : RaftNode) : RaftCall → Prop
  | .timerExpired => n.raft.isCandidate = true → n.raft.isCfgCandidate = true
  | .processMsg req source => ¬ n.raft.HearsResignation req source
  | .restart written _ => ∀ last, (n.rowsAfterCrash written).getLast? = some last →
      last.vote ≠ 0 ∨ ∀ row ∈ n.rowsAfterCrash written, row.vote = 0
  | _ => True

lemma RaftNode.Lapsed.dumps (h : n.Lapsed term) (hd : n.Dumps n') : n'.Lapsed term := by
  have hl : term < n'.raft.volatileTerm → n'.raft.Bystander := by
    intro hlt
    refine hd.lapses.bystander ?_
    by_cases hsa : n'.raft.volatileTerm = n.raft.volatileTerm
    · exact .inl (h.later (hsa ▸ hlt))
    · exact .inr hsa
  have hs := hd.lapses.self_eq
  refine ⟨hd.lapses.cfg_eq.trans h.cfg, hl, ?_, ?_, ?_⟩
  · have ht : n'.raft.term = n.raft.term := congrArg Ballot.term hd.lapses.ballot_eq
    have hv : n'.raft.vote = n.raft.vote := congrArg Ballot.vote hd.lapses.ballot_eq
    rw [ht, hv, hs]
    exact h.persisted
  · intro req hw hlt
    rcases hd.writes req hw with hw | rfl
    · exact hs ▸ h.writes req hw hlt
    · exact (hl hlt).2.2
  · rw [hd.rows_eq, hs]
    exact h.rows

lemma dumps_update (h : n.raft.Lapses r) : n.Dumps (n.update r) := ⟨h, rfl, fun _ hw => .inl hw⟩

lemma RaftNode.Lapsed.restart (hi : n.Inv) (h : n.Lapsed term) {written : Bool}
    {vclock : Vclock} (ha : n.Abides (.restart written vclock))
    (hc : n.call (.restart written vclock) = some n') : n'.Lapsed term := by
  have hn := call_rows hi hc
  obtain ⟨hr, -⟩ := hi.rowsAfterCrash written
  simp only [RaftNode.call, RaftNode.restart, recover_eq _ _ vclock hr] at hc
  obtain rfl := some.inj hc
  have hro : ∀ row ∈ n.rowsAfterCrash written, term < row.term → row.vote ≠ n.raft.self := by
    intro row hro
    rcases hn row hro with ho | ⟨hw, -⟩
    · exact h.rows row ho
    · exact h.writes row hw
  -- the recovered ballot is that of the last row
  have hb : term < (recoveredBallot (n.rowsAfterCrash written)).term →
      (recoveredBallot (n.rowsAfterCrash written)).vote ≠ n.raft.self := by
    rcases eq_nil_or_concat (n.rowsAfterCrash written) with hni | ⟨rows, last, hl⟩
    · rw [hni]
      exact fun _ => hi.raft.self_ne.symm
    · rw [concat_eq_append] at hl
      have he : recoveredBallot (rows ++ [last]) = last.ballot :=
        (recoveredBallot_eq_last_iff (hr last (by simp [hl]))).mpr (hl ▸ ha last (by simp [hl]))
      rw [hl, he]
      exact hro last (by simp [hl])
  exact ⟨rfl, fun hlt => ⟨rfl, rfl, hb hlt⟩, hb, (fun _ hw => by cases hw), hro⟩

lemma RaftNode.Lapsed.step (hi : n.Inv) (h : n.Lapsed term) (hun : a.Unpromoted)
    (ha : n.Abides a) (hca : n.call a = some n') : n'.Lapsed term := by
  have hs := hi.raft.self_ne
  have hu {x : Option Raft} (hx : Allows x fun r => n.raft.Lapses r)
      (hm : x.map n.update = some n') : n'.Lapsed term := by
    obtain ⟨r, hr, rfl⟩ := map_eq_some_iff.mp hm
    exact h.dumps (dumps_update (hx r hr))
  cases a with
  | processMsg req source =>
    obtain ⟨p, hp, rfl⟩ := map_eq_some_iff.mp hca
    exact h.dumps (dumps_update (processMsg_allows hs h.cfg ha p hp))
  | processHeartbeat source => exact hu heartbeat_allows hca
  | processAsync env =>
    cases hw : n.worker with
    | idle =>
      simp only [RaftNode.call, hw] at hca
      exact h.dumps (asyncLoop_allows _ hw n' hca)
    | writing req => simp [RaftNode.call, hw] at hca
  | writeDone env =>
    cases hw : n.worker with
    | idle => simp [RaftNode.call, hw] at hca
    | writing req =>
      simp only [RaftNode.call, hw] at hca
      have hwr : Lapsed term { n with
          raft := { n.raft with term := req.term, vote := req.vote }
          worker := .idle, rows := n.rows ++ [req], ballots := n.ballots ++ [req.ballot] } :=
        ⟨h.cfg, h.later, h.writes req hw, (fun _ hw => by cases hw), forall_mem_append.mpr
          ⟨h.rows, forall_mem_singleton.mpr (h.writes req hw)⟩⟩
      exact hwr.dumps (writeDone_allows n' hca)
  | timerExpired =>
    have ho : n.raft.isCandidate = false := by
      rw [Bool.eq_false_iff]
      exact fun hc => flag_absurd h.cfg (ha hc)
    refine hu ?_ hca
    unfold raftSmScheduleNewElectionCb raftSmScheduleNewElection
    exact allows_assert fun _ => allows_assert fun hc => flag_absurd ho hc
  | cfgIsEnabled isEnabled => exact hu (cfgIsEnabled_allows h.cfg) hca
  | cfgIsCandidate isCandidate =>
    obtain rfl : isCandidate = false := hun
    have hse : n.raft.Lapses { n.raft with isCfgCandidate := false } :=
      .of_term (by rw [h.cfg]; rfl) id
    refine hu (x := raftCfgIsCandidate n.raft false) ?_ hca
    rw [raftCfgIsCandidate, restore_off rfl]
    exact allows_some (hse.trans stopCandidate_lapses)
  | cfgElectionTimeout env timeout => exact hu cfgElectionTimeout_allows hca
  | cfgDeathTimeout env timeout => exact hu cfgDeathTimeout_allows hca
  | cfgElectionQuorum electionQuorum => exact hu cfgElectionQuorum_allows hca
  | promote => exact hun.elim
  | restore =>
    refine hu ?_ hca
    rw [restore_off h.cfg]
    exact allows_some stopCandidate_lapses
  | newTerm => exact hu ((scheduleNewTerm_allows hs h.cfg).mono fun _ h' => h'.1) hca
  | checkpointRemote =>
    obtain rfl := some.inj hca
    exact h.dumps ⟨.refl _, rfl, fun _ hw => .inl hw⟩
  | vclockChanged vclock =>
    obtain rfl := some.inj hca
    exact h.dumps (dumps_update (.of_term rfl id))
  | restart written vclock => exact h.restart hi ha hca

/-- Right after the promotion there is no later term yet. -/
lemma promote_lapsed (hi : n.Inv) (hro : ∀ row ∈ n.rows, row.term ≤ n.raft.term)
    (hcf : n.raft.isCfgCandidate = false) (hc : n.call .promote = some n')
    (hm : n'.raft.isCandidate = true) : n'.Lapsed n'.raft.volatileTerm := by
  have hs : n.Safe .promote := (call_isSome_iff (a := .promote) hi trivial).mp (by simp [hc])
  obtain ⟨r, hr, rfl⟩ := map_eq_some_iff.mp hc
  by_cases he : n.raft.isEnabled = false
  · -- a node that is switched off is not promoted
    rw [raftPromote, if_pos he] at hr
    obtain rfl := some.inj hr
    exact flag_absurd he (hi.raft.enabled hm)
  have he : n.raft.isEnabled = true := by simpa using he
  obtain ⟨r₁, hr₁, ht⟩ := newTerm_spec hi.raft (hs he)
  have hl := (scheduleNewTerm_allows hi.raft.self_ne hcf r₁ hr₁).1
  obtain ⟨timer, hst, -⟩ := startCandidate_follower ht.follower (ht.enabled_eq.trans he)
    fun hon => (ht.inv.timer hon).1
  obtain rfl : { r₁ with isCandidate := true, timer := timer } = r := by
    have hb : raftPromote n.raft = some { r₁ with isCandidate := true, timer := timer } := by
      rw [raftPromote, if_neg (by simp [he]), show raftSmScheduleNewTerm n.raft n.raft.nextTerm =
        some r₁ from hr₁]
      exact hst
    exact some.inj (hb.symm.trans hr)
  have hn : n.raft.nextTerm = n.raft.volatileTerm + 1 := Nat.mod_eq_of_lt (hs he)
  have hne : n.raft.volatileTerm < r₁.volatileTerm := by
    rw [ht.term_eq]
    omega
  have ho := hi.raft.term_le
  refine ⟨hl.cfg_eq.trans hcf, fun hlt => absurd hlt (lt_irrefl _), fun hlt => ?_, ?_, ?_⟩
  · have hp : r₁.term = n.raft.term := congrArg Ballot.term hl.ballot_eq
    simp only [update] at hlt
    omega
  · intro req hw hlt
    have hle : req.term ≤ n.raft.volatileTerm := Ballot.term_le (hi.writes req hw).le_volatile
    simp only [update] at hlt
    omega
  · intro row hrw hlt
    have hle := hro row hrw
    simp only [update] at hlt
    omega

/-- **A promotion lasts one term.** From a promotion against the configuration to the next one,
without elections of the node's own, it is in every later term a follower that has not voted for
itself. -/
theorem promotion_lapses {self electionQuorum : Nat} {vclock : Vclock}
    {calls later : List RaftCall} {promoted : RaftNode} (hself : self ≠ 0) (hlt : self < vclockMax)
    (hq : 0 < electionQuorum)
    (hvalid : Along RaftNode.call Valid (initial self electionQuorum vclock) calls)
    (hrun : run RaftNode.call (initial self electionQuorum vclock) calls = some n)
    (hcfg : n.raft.isCfgCandidate = false) (hpromote : n.call .promote = some promoted)
    (hmade : promoted.raft.isCandidate = true)
    (hlater : Along RaftNode.call (fun n a => n.Valid a ∧ a.Unpromoted ∧ n.Abides a) promoted later)
    (hend : run RaftNode.call promoted later = some n') :
    (promoted.raft.volatileTerm < n'.raft.volatileTerm →
      n'.raft.state = .follower ∧ n'.raft.volatileVote ≠ n'.raft.self) ∧
    (promoted.raft.volatileTerm < n'.raft.term → n'.raft.vote ≠ n'.raft.self) ∧
    ∀ row ∈ n'.rows, promoted.raft.volatileTerm < row.term → row.vote ≠ n'.raft.self := by
  obtain ⟨hi, hr⟩ := run_invariant_along
    (P := fun n => n.Inv ∧ ∀ row ∈ n.rows, row.term ≤ n.raft.term)
    (fun hca hv hn => ⟨(call_step hn.1 hv hca).1, rows_le_step hn.1 hv hca hn.2⟩)
    hrun hvalid ⟨initial_inv hself hlt hq vclock, fun _ hro => by cases hro⟩
  have hs := promote_lapsed hi hr hcfg hpromote hmade
  obtain ⟨-, hl⟩ := run_invariant_along (P := fun n => n.Inv ∧ n.Lapsed promoted.raft.volatileTerm)
    (fun hca hc hn => ⟨(call_step hn.1 hc.1 hca).1, hn.2.step hn.1 hc.2.1 hc.2.2 hca⟩)
    hend hlater ⟨(call_step (a := .promote) hi trivial hpromote).1, hs⟩
  exact ⟨fun hlt => (hl.later hlt).2, hl.persisted, hl.rows⟩

/-- The promoted node has no majority when another node starts the next term. -/
def outvotedCalls : List RaftCall :=
  [.processAsync ⟨0, 0⟩, .writeDone ⟨0, 0⟩, .writeDone ⟨0, 0⟩,
    .processMsg ⟨3, 0, RaftState.follower.code, none⟩ 2]

theorem promotion_lapses_outvoted : ∃ n promoted n',
    run RaftNode.call (initial 1 2 vclockCreate) [.cfgIsEnabled true] = some n ∧
      n.call .promote = some promoted ∧
      run RaftNode.call promoted outvotedCalls = some n' ∧
      n'.raft.volatileTerm = 3 ∧ n'.raft.state = .follower ∧ n'.raft.volatileVote ≠ 1 := by
  have key (n promoted n' : RaftNode)
      (hr : run RaftNode.call (initial 1 2 vclockCreate) [.cfgIsEnabled true] = some n)
      (hp : n.call .promote = some promoted)
      (he : run RaftNode.call promoted outvotedCalls = some n') :
      n'.raft.state = .follower ∧ n'.raft.volatileVote ≠ 1 := by
    have hms : 0 < 2 ∧ 2 < vclockMax ∧ 2 ≠ 1 ∧ 3 < 2 ^ 64 ∧ 0 < 2 ^ 32 := by decide
    have hva : Along RaftNode.call Valid (initial 1 2 vclockCreate)
        [.cfgIsEnabled true] := along_cons trivial rfl trivial
    have hc : n.raft.isCfgCandidate = false := by
      cases hr
      rfl
    have hm : promoted.raft.isCandidate = true := by
      cases hr
      cases hp
      rfl
    have hl : Along RaftNode.call (fun n a => n.Valid a ∧ a.Unpromoted ∧ n.Abides a) promoted
        outvotedCalls := by
      cases hr
      cases hp
      refine along_cons ⟨rfl, trivial, trivial⟩ rfl (along_cons ⟨⟨_, rfl⟩, trivial, trivial⟩ rfl ?_)
      refine along_cons ⟨⟨_, rfl⟩, trivial, trivial⟩ rfl ?_
      refine along_cons ⟨hms, trivial, ?_⟩ rfl trivial
      exact fun hh => absurd hh.2.2.1 (show 3 ≠ 2 by decide)
    obtain ⟨hv, -⟩ := promotion_lapses (by decide) (by decide) (by decide) hva hr hc hp hm hl he
    cases hr
    cases hp
    cases he
    exact hv (show 2 < 3 by decide)
  exact ⟨_, _, _, rfl, rfl, rfl, rfl, key _ _ _ rfl rfl rfl⟩

/-- The promoted node is a candidate of term 2 when its election timer fires. -/
def ownElectionCalls : List RaftCall :=
  [.processAsync ⟨0, 0⟩, .writeDone ⟨0, 0⟩, .writeDone ⟨0, 0⟩, .timerExpired,
    .processAsync ⟨0, 0⟩, .writeDone ⟨0, 0⟩]

/-- It is no candidate of term 3, but its vote in that term is its own and is on disk. -/
theorem own_vote_after_promotion : ∃ n promoted n',
    run RaftNode.call (initial 1 2 vclockCreate) [.cfgIsEnabled true] = some n ∧
      n.raft.isCfgCandidate = false ∧ n.call .promote = some promoted ∧
      promoted.raft.isCandidate = true ∧ promoted.raft.volatileTerm = 2 ∧
      Along RaftNode.call (fun n a => n.Valid a ∧ a.Unpromoted) promoted ownElectionCalls ∧
      run RaftNode.call promoted ownElectionCalls = some n' ∧
      n'.raft.isCfgCandidate = false ∧ n'.raft.ballot = ⟨3, 1⟩ := by
  refine ⟨_, _, _, rfl, rfl, rfl, rfl, rfl, ?_, rfl, rfl, rfl⟩
  refine along_cons ⟨rfl, trivial⟩ rfl (along_cons ⟨⟨_, rfl⟩, trivial⟩ rfl ?_)
  refine along_cons ⟨⟨_, rfl⟩, trivial⟩ rfl (along_cons ⟨rfl, trivial⟩ rfl ?_)
  exact along_cons ⟨rfl, trivial⟩ rfl (along_cons ⟨⟨_, rfl⟩, trivial⟩ rfl trivial)

end TarantoolStorage
