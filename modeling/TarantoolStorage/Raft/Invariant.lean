import TarantoolStorage.Raft.Node

/-!
What the operations of the state machine keep: `Stable` inside an operation, `Inv` between them;
`Quiet` bounds what one may do to the votes.
-/
namespace TarantoolStorage

open Checked Voting

/-- The timer runs only where it may, and the roles match the persisted state. -/
structure Raft.Stable (r : Raft) : Prop where
  self_ne : r.self ≠ 0
  self_lt : r.self < vclockMax
  quorum_pos : 0 < r.electionQuorum
  timer : r.timer.active = true →
    r.isCandidate = true ∧ r.isWriteInProgress = false ∧ r.state ≠ .leader
  enabled : r.isCandidate = true → r.isEnabled = true
  onDisk : r.isWriteInProgress = false → r.volatileBallot = r.ballot
  advances : r.ballot ≤ r.volatileBallot
  term_pos : 0 < r.volatileTerm
  term_lt : r.volatileTerm < 2 ^ 64
  vote_lt : r.volatileVote < 2 ^ 32
  writing : r.isWriteInProgress = true → r.state = .follower
  candidate : r.state = .candidate → r.isCandidate = true ∧ r.leader = 0 ∧ r.vote = r.self
  leader : r.state = .leader → r.isCandidate = true ∧ r.leader = r.self ∧ r.vote = r.self

/-- Between operations the timer also runs wherever it should. -/
structure Raft.Inv (r : Raft) : Prop extends Raft.Stable r where
  waits : r.isCandidate = true → r.isWriteInProgress = false → r.state ≠ .leader →
    r.timer.active = true

/-- The persisted ballot stays, the volatile one can only advance. -/
structure Raft.Keeps (r r' : Raft) : Prop where
  self_eq : r'.self = r.self
  ballot_eq : r'.ballot = r.ballot
  advances : r.volatileBallot ≤ r'.volatileBallot
  writing : r.isWriteInProgress = true → r'.isWriteInProgress = true

/-- The role is kept, together with its term and its votes. -/
def Raft.SameRole (r r' : Raft) : Prop :=
  r'.state = r.state ∧ r'.volatileBallot = r.volatileBallot ∧
    r'.voteMask = r.voteMask ∧ r'.voteCount = r.voteCount

/-- The operation makes the node a follower or leaves it its role. -/
structure Raft.Quiet (r r' : Raft) : Prop extends Raft.Keeps r r' where
  quorum_eq : r'.electionQuorum = r.electionQuorum
  role : r'.state = .follower ∨ r.SameRole r'

variable {r r' r'' : Raft} {env : RaftEnv} {req : RaftMsg} {source : Nat}

lemma flag_absurd {b : Bool} {P : Prop} (h : b = false) (h' : b = true) : P := by
  simp [h] at h'

lemma follower_not_candidate {P : Prop} (h : r.state = .follower) (h' : r.state = .candidate) :
    P := by
  simp [h] at h'

lemma follower_not_leader {P : Prop} (h : r.state = .follower) (h' : r.state = .leader) : P := by
  simp [h] at h'

lemma Raft.Quiet.refl (r : Raft) : r.Quiet r :=
  ⟨⟨rfl, rfl, le_rfl, id⟩, rfl, .inr ⟨rfl, rfl, rfl, rfl⟩⟩

lemma Raft.Keeps.trans (h : r.Keeps r') (h' : r'.Keeps r'') : r.Keeps r'' :=
  ⟨h'.self_eq.trans h.self_eq, h'.ballot_eq.trans h.ballot_eq, h.advances.trans h'.advances,
    fun hw => h'.writing (h.writing hw)⟩

lemma Raft.SameRole.trans (h : r.SameRole r') (h' : r'.SameRole r'') : r.SameRole r'' :=
  ⟨h'.1.trans h.1, h'.2.1.trans h.2.1, h'.2.2.1.trans h.2.2.1, h'.2.2.2.trans h.2.2.2⟩

lemma Raft.Quiet.trans (h : r.Quiet r') (h' : r'.Quiet r'') : r.Quiet r'' := by
  refine ⟨h.toKeeps.trans h'.toKeeps, h'.quorum_eq.trans h.quorum_eq, ?_⟩
  rcases h'.role with hf | hs
  · exact .inl hf
  · exact h.role.imp hs.1.trans fun h => h.trans hs

lemma Raft.Quiet.follower (h : r.Quiet r') (hs : r.state = .follower) : r'.state = .follower :=
  h.role.elim id fun hsa => hsa.1.trans hs

@[simp] lemma RaftTimer.stop_active (t : RaftTimer) : t.stop.active = false := rfl

lemma RaftTimer.stop_of_inactive {t : RaftTimer} (h : t.active = false) : t.stop = t := by
  cases t
  simp_all [RaftTimer.stop]

lemma fullyOnDisk_iff : raftIsFullyOnDisk r = true ↔ r.volatileBallot = r.ballot := by
  simp [raftIsFullyOnDisk, Raft.volatileBallot, Raft.ballot]

lemma Raft.Stable.timer_inactive (h : r.Stable) (hw : r.isWriteInProgress = true) :
    r.timer.active = false := by
  by_contra ht
  have := h.timer (by simpa using ht)
  simp_all

lemma Raft.Stable.idle (h : r.Stable) (hs : r.state ≠ .follower) : r.isWriteInProgress = false := by
  by_contra hw
  exact hs (h.writing (by simpa using hw))

/-- The timer can be stopped at any time inside an operation. -/
lemma Raft.Stable.stopped (h : r.Stable) : Raft.Stable { r with timer := r.timer.stop } :=
  { h with timer := fun ho => nomatch ho }

lemma Raft.Stable.start (h : r.Stable) (hc : r.isCandidate = true)
    (hw : r.isWriteInProgress = false) (hs : r.state ≠ .leader) (t : RaftTimer) :
    Raft.Inv { r with timer := t.start } :=
  { h with timer := fun _ => ⟨hc, hw, hs⟩, waits := fun _ _ _ => rfl }

lemma quiet_timer (t : RaftTimer) : r.Quiet { r with timer := t } :=
  { Raft.Quiet.refl r with }

lemma waitLeaderDead_spec (h : r.Stable) (ht : r.timer.active = false)
    (hw : r.isWriteInProgress = false) (hc : r.isCandidate = true) (hs : r.state = .follower)
    (hl : r.leader ≠ 0) :
    Ensures (raftSmWaitLeaderDead r) fun r' => r'.Inv ∧ ∃ t, r' = { r with timer := t } := by
  unfold raftSmWaitLeaderDead
  refine ensures_assert ht (ensures_assert hw (ensures_assert hc (ensures_assert hs ?_)))
  exact ensures_assert hl (ensures_some ⟨h.start hc hw (by simp [hs]) _, _, rfl⟩)

lemma waitElectionEnd_spec (h : r.Stable) (ht : r.timer.active = false)
    (hw : r.isWriteInProgress = false) (hc : r.isCandidate = true)
    (hs : r.state = .follower ∨ r.state = .candidate ∧ r.volatileVote = r.self)
    (hl : r.leader = 0) :
    Ensures (raftSmWaitElectionEnd env r) fun r' => r'.Inv ∧ ∃ t, r' = { r with timer := t } := by
  have hn : r.state ≠ .leader := by
    rcases hs with hs | ⟨hs, -⟩ <;> simp [hs]
  unfold raftSmWaitElectionEnd
  refine ensures_assert ht (ensures_assert hw (ensures_assert hc (ensures_assert hs ?_)))
  exact ensures_assert hl (ensures_some ⟨h.start hc hw hn _, _, rfl⟩)

lemma pauseAndDump_eq (hs : r.state = .follower)
    (ht : r.isWriteInProgress = true → r.timer.active = false) :
    raftSmPauseAndDump r = some { r with timer := r.timer.stop, isWriteInProgress := true } := by
  cases hw : r.isWriteInProgress with
  | false => simp [raftSmPauseAndDump, assertThat, hs, hw]
  | true =>
    have hr : { r with timer := r.timer.stop, isWriteInProgress := true } = r := by
      rw [RaftTimer.stop_of_inactive (ht hw), ← hw]
    rw [hr]
    simp [raftSmPauseAndDump, assertThat, hs, hw]

lemma waitLeader_eq (ht : r.timer.active = false) (hw : r.isWriteInProgress = false)
    (hc : r.isCandidate = true) (hs : r.state = .follower) :
    (if r.leader ≠ 0 then raftSmWaitLeaderDead r else raftSmWaitLeaderFound r) =
      some { r with timer := (r.timer.set r.deathTimeout r.deathTimeout).start } := by
  by_cases hl : r.leader = 0
  · simp [raftSmWaitLeaderFound, assertThat, ht, hw, hc, hs, hl]
  · simp [raftSmWaitLeaderDead, assertThat, ht, hw, hc, hs, hl]

lemma startCandidate_follower (hs : r.state = .follower) (he : r.isEnabled = true)
    (ht : r.timer.active = true → r.isCandidate = true) :
    ∃ timer, raftStartCandidate r = some { r with isCandidate := true, timer := timer } ∧
      timer.active = if r.isCandidate then r.timer.active else !r.isWriteInProgress := by
  cases hc : r.isCandidate with
  | true =>
    refine ⟨r.timer, ?_, rfl⟩
    simp only [raftStartCandidate, assertThat_of he, hc]
    rw [← hc]
    rfl
  | false =>
    have ho : r.timer.active = false := by
      by_contra hon
      simp [hc] at ht
      simp [ht] at hon
    cases hw : r.isWriteInProgress with
    | true =>
      exact ⟨r.timer, by simp [raftStartCandidate, assertThat, he, hc, hs, hw], by simp [ho]⟩
    | false =>
      refine ⟨(r.timer.set r.deathTimeout r.deathTimeout).start, ?_, rfl⟩
      have hwa := waitLeader_eq (r := { r with isCandidate := true }) ho hw rfl hs
      simpa [raftStartCandidate, assertThat, he, hc, hs, hw] using hwa

lemma stopCandidate_follower (hs : r.state = .follower) :
    ∃ scheduled, raftStopCandidate r = { r with
      isCandidate := false
      timer := if r.isCandidate then r.timer.stop else r.timer
      isBroadcastScheduled := scheduled } := by
  cases hc : r.isCandidate with
  | true => exact ⟨true, by simp [raftStopCandidate, raftScheduleBroadcast, Raft.resign, hc, hs]⟩
  | false => exact ⟨r.isBroadcastScheduled, by cases r; simp_all [raftStopCandidate]⟩

lemma restore_follower (hs : r.state = .follower)
    (ht : r.timer.active = true → r.isCandidate = true ∧ r.isWriteInProgress = false) :
    ∃ timer scheduled, raftRestore r = some { r with
        isCandidate := r.isCfgCandidate && r.isEnabled
        timer := timer
        isBroadcastScheduled := scheduled } ∧
      (timer.active = true ↔ (r.isCfgCandidate && r.isEnabled) = true ∧
        r.isWriteInProgress = false ∧ (r.isCandidate = true → r.timer.active = true)) := by
  unfold raftRestore raftSetCandidate
  cases hb : r.isCfgCandidate && r.isEnabled with
  | true =>
    have he : r.isEnabled = true := by simp_all
    obtain ⟨timer, heq, ha⟩ := startCandidate_follower hs he fun ho => (ht ho).1
    refine ⟨timer, r.isBroadcastScheduled, heq, ?_⟩
    cases hc : r.isCandidate <;> simp_all
  | false =>
    obtain ⟨scheduled, heq⟩ := stopCandidate_follower hs
    refine ⟨_, scheduled, congrArg some heq, ?_⟩
    cases hc : r.isCandidate <;> simp_all

lemma Raft.Stable.term_le (h : r.Stable) : r.term ≤ r.volatileTerm := by
  have hl := Ballot.le_def.mp h.advances
  simp only [Raft.ballot, Raft.volatileBallot] at hl
  omega

/-- A new term makes a follower without a vote that has to write. -/
structure Raft.NewTerm (r r' : Raft) (newTerm : Nat) : Prop where
  inv : r'.Inv
  quiet : r.Quiet r'
  follower : r'.state = .follower
  leader_eq : r'.leader = 0
  term_eq : r'.volatileTerm = newTerm
  vote_eq : r'.volatileVote = 0
  enabled_eq : r'.isEnabled = r.isEnabled

lemma scheduleNewTerm_spec (h : r.Stable) {newTerm : Nat} (hn : r.volatileTerm < newTerm)
    (hl : newTerm < 2 ^ 64) :
    Ensures (raftSmScheduleNewTerm r newTerm) fun r' => r.NewTerm r' newTerm := by
  obtain ⟨timer, scheduled, hr, ha⟩ := restore_follower
    (r := { r with volatileTerm := newTerm, volatileVote := 0, leader := 0, state := .follower })
    rfl fun hon => ⟨(h.timer hon).1, (h.timer hon).2.1⟩
  have ho (hw : r.isWriteInProgress = true) : timer.active = false := by
    rw [Bool.eq_false_iff]
    intro hon
    exact flag_absurd (ha.mp hon).2.1 hw
  have had : r.volatileBallot ≤ ⟨newTerm, 0⟩ := .inl hn
  unfold raftSmScheduleNewTerm
  refine ensures_assert hn (ensures_assert h.term_le ?_)
  refine ensures_bind ⟨_, hr, rfl⟩ ?_
  rintro _ rfl
  refine ensures_bind ⟨_, pauseAndDump_eq rfl ho, rfl⟩ ?_
  rintro _ rfl
  refine ensures_some ⟨?_, ⟨⟨rfl, rfl, had, fun _ => rfl⟩, rfl, .inl rfl⟩, rfl, rfl, rfl, rfl, rfl⟩
  exact { h with
    timer := fun hon => nomatch hon
    enabled := fun hc => (Bool.and_eq_true_iff.mp hc).2
    onDisk := fun hw => nomatch hw
    advances := h.advances.trans had
    term_pos := Nat.zero_lt_of_lt hn
    term_lt := hl
    vote_lt := Nat.two_pow_pos 32
    writing := fun _ => rfl
    candidate := fun hs => nomatch hs
    leader := fun hs => nomatch hs
    waits := fun _ hw => nomatch hw }

/-- A vote is given by a follower that has none and knows no leader, and has to be written. -/
lemma scheduleNewVote_spec (h : r.Stable) {vote : Nat} (hv : r.volatileVote = 0)
    (hl : r.leader = 0) (hs : r.state = .follower) (hlt : vote < 2 ^ 32) :
    Ensures (raftSmScheduleNewVote r vote) fun r' => r'.Inv ∧ r.Quiet r' ∧ r' =
      { r with volatileVote := vote, timer := r.timer.stop, isWriteInProgress := true } := by
  have ha : r.volatileBallot ≤ ⟨r.volatileTerm, vote⟩ := .inr ⟨rfl, .inl hv⟩
  unfold raftSmScheduleNewVote
  refine ensures_assert hv (ensures_assert hl (ensures_assert hs ?_))
  refine ⟨_, pauseAndDump_eq hs h.timer_inactive, ?_, ⟨⟨rfl, rfl, ha, fun _ => rfl⟩, rfl, ?_⟩, rfl⟩
  · exact { h with
      timer := fun ho => nomatch ho
      onDisk := fun hw => nomatch hw
      advances := h.advances.trans ha
      vote_lt := hlt
      writing := fun _ => hs
      waits := fun _ hw => nomatch hw }
  · exact .inl hs

lemma scheduleNewElection_spec (h : r.Stable) (hc : r.isCandidate = true)
    (hl : r.volatileTerm + 1 < 2 ^ 64) :
    Ensures (raftSmScheduleNewElection r) fun r' => r'.Inv ∧ r.Quiet r' := by
  have hn : r.nextTerm = r.volatileTerm + 1 := Nat.mod_eq_of_lt hl
  unfold raftSmScheduleNewElection
  refine ensures_assert hc (ensures_bind (scheduleNewTerm_spec h ?_ ?_) ?_)
  · omega
  · omega
  · intro r₁ h₁
    have hs : r₁.self < 2 ^ 32 := lt_trans h₁.inv.self_lt (by decide)
    refine (scheduleNewVote_spec h₁.inv.toStable h₁.vote_eq h₁.leader_eq h₁.follower hs).mono ?_
    rintro r₂ ⟨hi, hq, -⟩
    exact ⟨hi, h₁.quiet.trans hq⟩

lemma scheduleNewElectionCb_spec (h : r.Inv) (ht : r.timer.active = true)
    (hl : r.volatileTerm + 1 < 2 ^ 64) :
    Ensures (raftSmScheduleNewElectionCb r) fun r' => r'.Inv ∧ r.Quiet r' := by
  obtain ⟨hc, hw, -⟩ := h.timer ht
  unfold raftSmScheduleNewElectionCb
  refine ensures_assert (fullyOnDisk_iff.mpr (h.onDisk hw)) ?_
  refine (scheduleNewElection_spec h.stopped hc hl).mono ?_
  rintro r' ⟨hi, hq⟩
  exact ⟨hi, (quiet_timer _).trans hq⟩

lemma becomeLeader_spec (h : r.Stable) (hs : r.state ≠ .leader) (hl : r.leader = 0)
    (hc : r.isCandidate = true) (hw : r.isWriteInProgress = false) (hv : r.vote = r.self) :
    Ensures (raftSmBecomeLeader r) fun r' => r'.Inv ∧ r' = raftScheduleBroadcast
      { r with state := .leader, leader := r.self, timer := r.timer.stop } := by
  unfold raftSmBecomeLeader
  refine ensures_assert hs (ensures_assert hl (ensures_assert hc (ensures_assert hw ?_)))
  refine ensures_some ⟨?_, rfl⟩
  exact { h with
    timer := fun ho => nomatch ho
    writing := flag_absurd hw
    candidate := fun hs' => nomatch hs'
    leader := fun _ => ⟨hc, rfl, hv⟩
    waits := fun _ _ hn => absurd rfl hn }

lemma Raft.Inv.broadcast (h : r.Inv) : (raftScheduleBroadcast r).Inv := { h with }

lemma quiet_broadcast : r.Quiet (raftScheduleBroadcast r) :=
  { Raft.Quiet.refl r with }

lemma followLeader_spec (h : r.Inv) {leader : Nat} (hs : r.state ≠ .leader) (hl : r.leader = 0)
    (hn : leader ≠ 0) :
    Ensures (raftSmFollowLeader r leader) fun r' => r'.Inv ∧ r.Quiet r' := by
  have hf : Raft.Inv { r with state := .follower, leader := leader } :=
    { h with
      timer := fun ho => ⟨(h.timer ho).1, (h.timer ho).2.1, by simp⟩
      writing := fun _ => rfl
      candidate := fun hs => nomatch hs
      leader := fun hs => nomatch hs
      waits := fun hc hw _ => h.waits hc hw hs }
  have hq : r.Quiet { r with state := .follower, leader := leader } :=
    ⟨⟨rfl, rfl, le_rfl, id⟩, rfl, .inl rfl⟩
  unfold raftSmFollowLeader
  refine ensures_assert hs (ensures_assert hl ?_)
  refine ensures_bind (P := fun r' => r'.Inv ∧ r.Quiet r') ?_ ?_
  · split
    · rename_i hwa
      obtain ⟨hw, hc⟩ : r.isWriteInProgress = false ∧ r.isCandidate = true := by
        simpa using hwa
      refine (waitLeaderDead_spec hf.stopped rfl hw hc rfl hn).mono ?_
      rintro _ ⟨hi, t, rfl⟩
      exact ⟨hi, hq.trans (quiet_timer t)⟩
    · exact ensures_some ⟨hf, hq⟩
  · rintro r' ⟨hi, hr⟩
    exact ensures_some ⟨hi.broadcast, hr.trans quiet_broadcast⟩

/-- What the end of a write makes of a candidate: it asks for votes, holding its own, or leads at
once when that is a quorum. -/
structure Raft.Dumped (r r' : Raft) : Prop where
  self_eq : r'.self = r.self
  ballot_eq : r'.ballot = r.ballot
  advances : r.volatileBallot ≤ r'.volatileBallot
  quorum_eq : r'.electionQuorum = r.electionQuorum
  candidate : r'.state = .candidate → r'.voteMask = (bitSet 0 r.self).1 ∧ r'.voteCount = 1
  leader : r'.state = .leader → r.electionQuorum = 1
  pending : r'.isWriteInProgress = true → r'.volatileBallot ≠ r'.ballot

lemma becomeCandidate_spec (h : r.Stable) (ht : r.timer.active = false)
    (hs : r.state = .follower) (hl : r.leader = 0) (hv : r.vote = r.self)
    (hc : r.isCandidate = true) (hw : r.isWriteInProgress = false) (hq : r.electionQuorum > 1) :
    Ensures (raftSmBecomeCandidate env r) fun r' => r'.Inv ∧ r.Dumped r' := by
  have hvo : r.volatileVote = r.self := (congrArg Ballot.vote (h.onDisk hw)).trans hv
  have hca : Raft.Stable { r with
      state := .candidate, voteCount := 1, voteMask := (bitSet 0 r.self).1 } :=
    { h with
      timer := flag_absurd ht
      writing := flag_absurd hw
      candidate := fun _ => ⟨hc, hl, hv⟩
      leader := fun hs => nomatch hs }
  unfold raftSmBecomeCandidate
  refine ensures_assert hs (ensures_assert hl (ensures_assert hv (ensures_assert hc ?_)))
  refine ensures_assert hw (ensures_assert hq ?_)
  refine ensures_bind (waitElectionEnd_spec hca ht hw hc (.inr ⟨rfl, hvo⟩) hl) ?_
  rintro _ ⟨hi, t, rfl⟩
  exact ensures_some
    ⟨hi.broadcast, ⟨rfl, rfl, le_rfl, rfl, fun _ => ⟨rfl, rfl⟩, fun hs => (nomatch hs),
      flag_absurd hw⟩⟩

lemma endDump_spec (h : r.Inv) (hw : r.isWriteInProgress = true)
    (hd : r.volatileBallot = r.ballot) :
    Ensures (raftEndDump env r) fun r' => r'.Inv ∧ r.Dumped r' := by
  have hs := h.writing hw
  have ht := h.timer_inactive hw
  have hi : Raft.Stable { r with isWriteInProgress := false } :=
    { h with
      timer := flag_absurd ht
      onDisk := fun _ => hd
      writing := fun hw => nomatch hw }
  have hf (t : RaftTimer) : r.Dumped { r with isWriteInProgress := false, timer := t } :=
    ⟨rfl, rfl, le_rfl, rfl, follower_not_candidate hs, follower_not_leader hs, fun hw => nomatch hw⟩
  unfold raftEndDump
  dsimp only
  split
  · rename_i hc
    exact ensures_some ⟨{ hi with waits := flag_absurd hc }, hf _⟩
  rename_i hc
  have hc : r.isCandidate = true := by simpa using hc
  split
  · rename_i hl
    refine (waitLeaderDead_spec hi ht rfl hc hs hl).mono ?_
    rintro _ ⟨hin, t, rfl⟩
    exact ⟨hin, hf t⟩
  rename_i hl
  have hl : r.leader = 0 := by simpa using hl
  split
  · rename_i hv
    split
    · rename_i hq
      refine (becomeLeader_spec hi (by simp [hs]) hl hc rfl hv).mono ?_
      rintro _ ⟨hin, rfl⟩
      exact ⟨hin, ⟨rfl, rfl, le_rfl, rfl, fun hs' => (nomatch hs'), fun _ => hq,
        fun hw => nomatch hw⟩⟩
    · rename_i hq
      have hp := h.quorum_pos
      exact (becomeCandidate_spec hi ht hs hl hv hc rfl (by
        dsimp only at hq ⊢
        omega)).mono fun r' h' => ⟨h'.1, h'.2.1, h'.2.2, h'.2.3, h'.2.4, h'.2.5, h'.2.6, h'.2.7⟩
  rename_i hv
  split
  · refine (waitElectionEnd_spec hi ht rfl hc (.inl hs) hl).mono ?_
    rintro _ ⟨hin, t, rfl⟩
    exact ⟨hin, hf t⟩
  · rename_i hv0
    have hz : r.vote = 0 := by simpa using hv0
    have hvo : r.volatileVote = 0 := (congrArg Ballot.vote hd).trans hz
    have hse : r.self < 2 ^ 32 := lt_trans h.self_lt (by decide)
    refine (scheduleNewVote_spec hi hvo hl hs hse).mono ?_
    rintro _ ⟨hin, hqu, rfl⟩
    have hs' := hqu.follower hs
    refine ⟨hin, hqu.self_eq, hqu.ballot_eq, hqu.advances, hqu.quorum_eq,
      follower_not_candidate hs', follower_not_leader hs', ?_⟩
    intro _ hsa
    exact h.self_ne ((congrArg Ballot.vote hsa).trans hz)

/-- The vote of the source is counted; with a quorum of votes the candidate leads. -/
structure Raft.Counted (r r' : Raft) (source : Nat) : Prop where
  candidate : r.state = .candidate
  volatile_eq : r'.volatileBallot = r.volatileBallot
  mask_eq : r'.voteMask = (bitSet r.voteMask source).1
  count_eq : r'.voteCount = r.voteCount + if r.voteMask.getLsbD source then 0 else 1
  elected : r'.state = .leader → r.electionQuorum ≤ r'.voteCount

/-- What a message of this term with this vote can do. -/
structure Raft.Received (r r' : Raft) (req : RaftMsg) (source : Nat) : Prop
    extends Raft.Keeps r r' where
  quorum_eq : r'.electionQuorum = r.electionQuorum
  role : r'.state = .follower ∨ r.SameRole r' ∨
    r.Counted r' source ∧ req.vote = r.self ∧ req.term = r.volatileTerm

lemma Raft.Quiet.received (h : r.Quiet r') (req : RaftMsg) (source : Nat) :
    r.Received r' req source :=
  ⟨h.toKeeps, h.quorum_eq, h.role.imp_right .inl⟩

lemma Raft.Received.trans_quiet (h : r.Received r' req source) (h' : r'.Quiet r'') :
    r.Received r'' req source := by
  refine ⟨h.toKeeps.trans h'.toKeeps, h'.quorum_eq.trans h.quorum_eq, ?_⟩
  rcases h'.role with hf | hsa
  · exact .inl hf
  rcases h.role with hf | hr | ⟨hc, hre⟩
  · exact .inl (hsa.1.trans hf)
  · exact .inr (.inl (hr.trans hsa))
  · obtain ⟨hs, hb, hm, hn⟩ := hsa
    refine .inr (.inr ⟨⟨hc.candidate, hb.trans hc.volatile_eq, hm.trans hc.mask_eq,
      hn.trans hc.count_eq, fun hl => ?_⟩, hre⟩)
    rw [hn]
    exact hc.elected (hs.symm.trans hl)

/-- Handling a vote keeps what decides about the sender's role, unless the node is elected. -/
structure Raft.VoteFrame (r r' : Raft) : Prop where
  leader : r'.leader = r.leader ∨ r'.leader = r.self
  candidate_eq : r'.isCandidate = r.isCandidate
  term_eq : r'.volatileTerm = r.volatileTerm

lemma answerVote_spec (h : r.Inv) (hs : r.state ≠ .candidate) (hvo : req.vote < 2 ^ 32) :
    Ensures (raftAnswerVote r req) fun r' => r'.Inv ∧ r.Quiet r' ∧ r.VoteFrame r' := by
  have hsa : Ensures (some r) fun r' => r'.Inv ∧ r.Quiet r' ∧ r.VoteFrame r' :=
    ensures_some ⟨h, .refl r, .inl rfl, rfl, rfl⟩
  unfold raftAnswerVote
  split
  · exact hsa
  split
  · exact hsa
  rename_i hl
  have hl : r.leader = 0 := by simpa using hl
  split
  · exact hsa
  split
  · exact hsa
  split
  · exact hsa
  rename_i hv
  have hv : r.volatileVote = 0 := by simpa using hv
  split
  · exact hsa
  have hf : r.state = .follower := by
    cases hs' : r.state with
    | follower => rfl
    | candidate => exact absurd hs' hs
    | leader => exact absurd ((h.leader hs').2.1.symm.trans hl) h.self_ne
  refine (scheduleNewVote_spec h.toStable hv hl hf hvo).mono ?_
  rintro _ ⟨hi, hq, rfl⟩
  exact ⟨hi, hq, .inl rfl, rfl, rfl⟩

lemma countVote_spec (h : r.Inv) (hs : r.state = .candidate) (ht : req.term = r.volatileTerm) :
    Ensures (raftCountVote r req source) fun r' =>
      r'.Inv ∧ r.Received r' req source ∧ r.VoteFrame r' := by
  obtain ⟨hc, hl, hv⟩ := h.candidate hs
  have hw := h.idle (by simp [hs])
  have hse : r.volatileVote = r.self := (congrArg Ballot.vote (h.onDisk hw)).trans hv
  unfold raftCountVote
  split
  · exact ensures_some ⟨h, (Raft.Quiet.refl r).received req source, .inl rfl, rfl, rfl⟩
  rename_i hr
  have hr : req.vote = r.self := by simpa using hr
  refine ensures_assert hse ?_
  have ha : (r.addVote source).Inv := { h with }
  by_cases hf : (r.addVote source).voteCount < (r.addVote source).electionQuorum
  · simp only [hf, ite_true]
    refine ensures_some ⟨ha, ⟨⟨rfl, rfl, le_rfl, id⟩, rfl, .inr (.inr ⟨?_, hr, ht⟩)⟩,
      .inl rfl, rfl, rfl⟩
    exact ⟨hs, rfl, rfl, rfl, fun hl => absurd (hs.symm.trans hl) (by decide)⟩
  · simp only [hf, ite_false]
    refine (becomeLeader_spec ha.toStable (by simp [Raft.addVote, hs]) hl hc hw hv).mono ?_
    rintro _ ⟨hi, rfl⟩
    refine ⟨hi, ⟨⟨rfl, rfl, le_rfl, id⟩, rfl, .inr (.inr ⟨?_, hr, ht⟩)⟩, .inr rfl, rfl, rfl⟩
    exact ⟨hs, rfl, rfl, rfl, fun _ => Nat.le_of_not_lt hf⟩

lemma processVote_spec (h : r.Inv) (hv : req.vote < 2 ^ 32) (ht : req.term = r.volatileTerm) :
    Ensures (raftProcessVote r req source) fun r' =>
      r'.Inv ∧ r.Received r' req source ∧ r.VoteFrame r' := by
  have ha (hs : r.state ≠ .candidate) : Ensures (raftAnswerVote r req) fun r' =>
      r'.Inv ∧ r.Received r' req source ∧ r.VoteFrame r' := by
    refine (answerVote_spec h hs hv).mono ?_
    rintro r' ⟨hi, hq, hf⟩
    exact ⟨hi, hq.received req source, hf⟩
  unfold raftProcessVote
  cases hs : r.state with
  | follower => exact ha (by simp [hs])
  | leader => exact ha (by simp [hs])
  | candidate => exact countVote_spec h hs ht

/-- A known leader other than the node itself makes the node a follower. -/
lemma Raft.Stable.follower_of_leader (h : r.Stable) (hp : source ≠ 0) (hn : source ≠ r.self)
    (hl : source = r.leader) : r.state = .follower := by
  cases hs : r.state with
  | follower => rfl
  | candidate => exact absurd (hl.trans (h.candidate hs).2.1) hp
  | leader => exact absurd (hl.trans (h.leader hs).2.1) hn

lemma processRole_spec (h : r.Inv) (hp : source ≠ 0) (hn : source ≠ r.self)
    (hlt : req.state ≠ RaftState.leader.code → source = r.leader → r.isCandidate = true →
      r.volatileTerm + 1 < 2 ^ 64) :
    Ensures (raftProcessRole r req source) fun r' => r'.Inv ∧ r.Quiet r' := by
  have hsa : Ensures (some r) fun r' => r'.Inv ∧ r.Quiet r' := ensures_some ⟨h, .refl r⟩
  unfold raftProcessRole
  split
  · rename_i hst
    split
    · rename_i hl
      have hs := h.follower_of_leader hp hn hl
      have hf : Raft.Inv { r with leader := 0 } :=
        { h with
          candidate := follower_not_candidate hs
          leader := follower_not_leader hs }
      have hq : r.Quiet { r with leader := 0 } :=
        { Raft.Quiet.refl r with }
      dsimp only
      split
      · rename_i hc
        refine (scheduleNewElection_spec hf.toStable hc (hlt hst hl hc)).mono ?_
        rintro r' ⟨hi, hr⟩
        exact ⟨hi, hq.trans hr⟩
      · exact ensures_some ⟨hf, hq⟩
    · exact hsa
  · split
    · exact hsa
    · split
      · exact hsa
      · rename_i hl
        have hl : r.leader = 0 := by simpa using hl
        have hs : r.state ≠ .leader := fun hs => absurd ((h.leader hs).2.1.symm.trans hl) h.self_ne
        exact followLeader_spec h hs hl hp

lemma Raft.Quiet.trans_received (h : r.Quiet r') (h' : r'.Received r'' req source) :
    r.Received r'' req source := by
  refine ⟨h.toKeeps.trans h'.toKeeps, h'.quorum_eq.trans h.quorum_eq, ?_⟩
  rcases h'.role with hf | hsa | ⟨hc, hv, ht⟩
  · exact .inl hf
  · exact h.role.imp hsa.1.trans fun hr => .inl (hr.trans hsa)
  · obtain ⟨hs, hb, hm, hn⟩ := h.role.resolve_left fun hf => follower_not_candidate hf hc.candidate
    refine .inr (.inr ⟨⟨hs.symm.trans hc.candidate, hc.volatile_eq.trans hb, ?_, ?_, ?_⟩,
      hv.trans h.self_eq, ht.trans (congrArg Ballot.term hb)⟩)
    · rw [hc.mask_eq, hm]
    · rw [hc.count_eq, hm, hn]
    · intro hl
      rw [← h.quorum_eq]
      exact hc.elected hl

/-- The message starts an election in the last term there is. -/
def Raft.ElectsInLastTerm (r : Raft) (req : RaftMsg) (source : Nat) : Prop :=
  raftMsgError req source = none ∧ req.term = r.volatileTerm ∧
    req.state ≠ RaftState.leader.code ∧ source = r.leader ∧ r.isCandidate = true ∧
    2 ^ 64 ≤ r.volatileTerm + 1

/-- The first step of a message that is not outdated: its term is now the node's. -/
lemma enterTerm_spec (h : r.Inv) (ho : ¬ req.term < r.volatileTerm) (ht : req.term < 2 ^ 64) :
    Ensures (if req.term > r.volatileTerm then raftSmScheduleNewTerm r req.term else some r)
      fun r' => r'.Inv ∧ r.Quiet r' ∧ req.term = r'.volatileTerm ∧ (r' = r ∨ r'.leader = 0) := by
  split
  · rename_i hn
    refine (scheduleNewTerm_spec h.toStable hn ht).mono ?_
    intro r' h'
    exact ⟨h'.inv, h'.quiet, h'.term_eq.symm, .inr h'.leader_eq⟩
  · rename_i hn
    exact ensures_some ⟨h, .refl r, by omega, .inl rfl⟩

lemma processMsg_spec (h : r.Inv) (hp : 0 < source) (hn : source ≠ r.self)
    (ht : req.term < 2 ^ 64) (hv : req.vote < 2 ^ 32)
    (hsa : ¬ r.ElectsInLastTerm req source) :
    Ensures (raftProcessMsg r req source) fun p => p.1.Inv ∧ r.Received p.1 req source := by
  unfold raftProcessMsg
  refine ensures_assert hp (ensures_assert hn ?_)
  have hs := (Raft.Quiet.refl r).received req source
  cases he : raftMsgError req source with
  | some error => exact ensures_some ⟨h, hs⟩
  | none =>
    dsimp only
    split
    · exact ensures_some ⟨h, hs⟩
    rename_i ho
    refine ensures_bind (enterTerm_spec h ho ht) ?_
    rintro r₁ ⟨h₁, hquiet₁, ht₁, hleader₁⟩
    refine ensures_bind (P := fun r₂ => r₂.Inv ∧ r₁.Received r₂ req source ∧ r₁.VoteFrame r₂) ?_ ?_
    · split
      · exact processVote_spec h₁ hv ht₁
      · exact ensures_some ⟨h₁, (Raft.Quiet.refl r₁).received req source, .inl rfl, rfl, rfl⟩
    rintro r₂ ⟨h₂, hrec₂, hf⟩
    have hse : r₂.self = r.self := hrec₂.self_eq.trans hquiet₁.self_eq
    refine ensures_bind (processRole_spec h₂ (by omega) (hse ▸ hn) ?_) ?_
    · intro hst hl hc
      rcases hleader₁ with rfl | hz
      · have hl : source = r₁.leader := hf.leader.elim hl.trans fun hl' => absurd (hl.trans hl') hn
        rw [hf.candidate_eq] at hc
        rw [hf.term_eq]
        by_contra hlast
        exact hsa ⟨he, ht₁, hst, hl, hc, by omega⟩
      · exfalso
        rcases hf.leader with hl' | hl'
        · omega
        · exact hn (hl.trans (hl'.trans hquiet₁.self_eq))
    · rintro r₃ ⟨h₃, hquiet₃⟩
      exact ensures_some ⟨h₃, (hquiet₁.trans_received hrec₂).trans_quiet hquiet₃⟩

/-- In the last term there is no next one, and starting it fails an assertion. -/
lemma scheduleNextTerm_fails (h : r.volatileTerm < 2 ^ 64) (hl : 2 ^ 64 ≤ r.volatileTerm + 1) :
    raftSmScheduleNewTerm r r.nextTerm = none := by
  have hl : r.volatileTerm + 1 = 2 ^ 64 := by omega
  have hz : r.nextTerm = 0 := by simp [Raft.nextTerm, hl]
  simp [raftSmScheduleNewTerm, hz]

lemma scheduleNewElection_fails (h : r.volatileTerm < 2 ^ 64)
    (hl : 2 ^ 64 ≤ r.volatileTerm + 1) : raftSmScheduleNewElection r = none := by
  simp [raftSmScheduleNewElection, scheduleNextTerm_fails h hl]

lemma processMsg_fails (h : r.Inv) (hp : 0 < source) (hn : source ≠ r.self)
    (hf : r.ElectsInLastTerm req source) : raftProcessMsg r req source = none := by
  obtain ⟨her, ht, hst, hl, hc, hla⟩ := hf
  have hs := h.follower_of_leader (by omega) hn hl
  have hk : r.leader ≠ 0 := by omega
  -- the vote of the message is skipped since the leader is known
  have hv : raftProcessVote r req source = some r := by
    simp [raftProcessVote, hs, raftAnswerVote, hk]
  have hr : raftProcessRole r req source = none := by
    have he := scheduleNewElection_fails (r := { r with leader := 0 }) h.term_lt hla
    simpa [raftProcessRole, hst, hl, hc] using he
  simp [raftProcessMsg, her, ht, hv, hr]

end TarantoolStorage
