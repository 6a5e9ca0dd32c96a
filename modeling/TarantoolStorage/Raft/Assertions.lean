import TarantoolStorage.Raft.Worker

/-!
Whole runs of a node. Under the guarantees of the callers no assertion fails, apart from calls
that `Safe` rules out.
-/
namespace TarantoolStorage

open Checked Transition Voting RaftNode

variable {n n' : RaftNode} {a : RaftCall}

/-- The calls whose assertions hold. -/
def RaftNode.Safe (n : RaftNode) : RaftCall → Prop
  | .processMsg req source => ¬ n.raft.ElectsInLastTerm req source
  | .timerExpired => n.raft.volatileTerm + 1 < 2 ^ 64
  | .cfgDeathTimeout _ timeout => ¬ n.raft.StoppedDeathTimer timeout
  | .promote => n.raft.isEnabled = true → n.raft.volatileTerm + 1 < 2 ^ 64
  | .newTerm => n.raft.volatileTerm + 1 < 2 ^ 64
  | _ => True

/-- The call is a message with a vote for this node in its term, and the vote is counted. -/
def Raft.CountedIn (r r' : Raft) : RaftCall → Prop
  | .processMsg req source => r.Counted r' source ∧ req.ballot = ⟨r.volatileTerm, r.self⟩
  | _ => False

/-- What a call can do to the votes, unless it changes the quorum. -/
structure RaftNode.Evolves (n n' : RaftNode) (a : RaftCall) : Prop where
  self_eq : n'.raft.self = n.raft.self
  quorum_eq : n'.raft.electionQuorum = n.raft.electionQuorum
  ballots : n.ballots ⊆ n'.ballots
  role : n.raft.SameRole n'.raft ∨ n'.raft.Fresh ∨ n.raft.CountedIn n'.raft a

def RaftCall.KeepsQuorum : RaftCall → Prop
  | .cfgElectionQuorum _ => False
  | _ => True

lemma RaftNode.Works.evolves (h : n.Works n') : n.Evolves n' a :=
  ⟨h.self_eq, h.quorum_eq, h.ballots, h.role.imp_right .inl⟩

lemma ensures_works {x : Option RaftNode} (h : Ensures x fun n' => n.Works n') :
    Ensures x fun n' => n'.Inv ∧ (a.KeepsQuorum → n.Evolves n' a) :=
  h.mono fun _ h' => ⟨h'.inv, fun _ => h'.evolves⟩

/-- An operation of the state machine as a call of its node. -/
lemma ensures_update {x : Option Raft} {P : RaftNode → Prop}
    (h : Ensures x fun r => P (n.update r)) : Ensures (x.map n.update) P := by
  obtain ⟨r, rfl, hr⟩ := h
  exact ⟨_, rfl, hr⟩

section

variable (h : n.Inv)
include h

lemma ensures_quiet {x : Option Raft} (hx : Ensures x fun r => r.Inv ∧ n.raft.Quiet r) :
    Ensures (x.map n.update) fun n' => n'.Inv ∧ (a.KeepsQuorum → n.Evolves n' a) := by
  refine ensures_update (hx.mono ?_)
  rintro r ⟨hr, hq⟩
  refine ⟨h.update hr hq.toKeeps, fun _ => ⟨hq.self_eq, hq.quorum_eq, List.Subset.refl _, ?_⟩⟩
  rcases hq.role with hf | hs
  · exact .inr (.inl (Raft.fresh_of_follower hf))
  · exact .inl hs

lemma processMsg_call {req : RaftMsg} {source : Nat}
    (hv : n.Valid (.processMsg req source)) (hs : n.Safe (.processMsg req source)) :
    Ensures (n.call (.processMsg req source)) fun n' =>
      n'.Inv ∧ n.Evolves n' (.processMsg req source) := by
  obtain ⟨hp, -, hn, ht, hvo⟩ := hv
  obtain ⟨⟨r, error⟩, he, hr, hre⟩ := processMsg_spec h.raft hp hn ht hvo hs
  refine ⟨n.update r, by simp [call, he], h.update hr hre.toKeeps, ?_⟩
  refine ⟨hre.self_eq, hre.quorum_eq, List.Subset.refl _, ?_⟩
  rcases hre.role with hf | hsa | ⟨hc, hvo, ht⟩
  · exact .inr (.inl (Raft.fresh_of_follower hf))
  · exact .inl hsa
  · exact .inr (.inr ⟨hc, Ballot.ext ht hvo⟩)

/-- A valid and safe call returns, keeps the invariant and evolves the votes. -/
lemma call_spec (hv : n.Valid a) (hs : n.Safe a) :
    Ensures (n.call a) fun n' => n'.Inv ∧ (a.KeepsQuorum → n.Evolves n' a) := by
  cases a with
  | processMsg req source => exact (processMsg_call h hv hs).mono fun n' h' => ⟨h'.1, fun _ => h'.2⟩
  | processHeartbeat source => exact ensures_quiet h (heartbeat_spec h.raft source)
  | processAsync env =>
    have hi : n.worker = .idle := hv
    simp only [call, hi]
    exact ensures_works (processAsync_spec h hi)
  | writeDone env =>
    obtain ⟨req, hw⟩ := hv
    simp only [call, hw]
    exact ensures_works (writeDone_spec h hw)
  | timerExpired => exact ensures_quiet h (scheduleNewElectionCb_spec h.raft hv hs)
  | cfgIsEnabled isEnabled => exact ensures_quiet h (cfgIsEnabled_spec h.raft isEnabled)
  | cfgIsCandidate isCandidate => exact ensures_quiet h (cfgIsCandidate_spec h.raft isCandidate)
  | cfgElectionTimeout env timeout => exact ensures_quiet h (cfgElectionTimeout_spec h.raft timeout)
  | cfgDeathTimeout env timeout => exact ensures_quiet h (cfgDeathTimeout_spec h.raft hs)
  | cfgElectionQuorum electionQuorum =>
    refine ensures_update ((cfgElectionQuorum_spec h.raft hv).mono ?_)
    rintro r ⟨hr, hk⟩
    exact ⟨h.update hr hk, fun hke => hke.elim⟩
  | promote => exact ensures_quiet h (promote_spec h.raft hs)
  | restore => exact ensures_quiet h (restore_spec h.raft)
  | newTerm =>
    refine ensures_quiet h ((newTerm_spec h.raft hs).mono ?_)
    intro r hr
    exact ⟨hr.inv, hr.quiet⟩
  | checkpointRemote =>
    have hin : Inv { n with sent := n.sent ++ [raftCheckpointRemote n.raft] } :=
      { h with
        writes := fun req hw =>
          have hwr := h.writes req hw
          { hwr with }
        sent := h.sent_append }
    exact ensures_works (ensures_some
      ⟨hin, rfl, rfl, List.Subset.refl _, .inl ⟨rfl, rfl, rfl, rfl⟩⟩)
  | vclockChanged vclock =>
    have hr : Raft.Inv { n.raft with vclock := vclock } := { h.raft with }
    exact ensures_works (ensures_some
      ⟨h.update hr ⟨rfl, rfl, le_rfl, id⟩, rfl, rfl, List.Subset.refl _, .inl ⟨rfl, rfl, rfl, rfl⟩⟩)
  | restart written vclock => exact ensures_works (restart_spec h written vclock)

lemma call_fails (hv : n.Valid a) (hs : ¬ n.Safe a) : n.call a = none := by
  cases a with
  | processMsg req source =>
    obtain ⟨hp, -, hn, -⟩ := hv
    simp [call, processMsg_fails h.raft hp hn (not_not.mp hs)]
  | timerExpired => simp [call, scheduleNewElectionCb_fails h.raft (Nat.le_of_not_lt hs)]
  | cfgDeathTimeout env timeout => simp [call, cfgDeathTimeout_fails h.raft (not_not.mp hs)]
  | promote =>
    obtain ⟨he, hl⟩ : n.raft.isEnabled = true ∧ ¬ n.raft.volatileTerm + 1 < 2 ^ 64 :=
      Classical.not_imp.mp hs
    simp [call, promote_fails h.raft he (Nat.le_of_not_lt hl)]
  | newTerm => simp [call, newTerm_fails h.raft (Nat.le_of_not_lt hs)]
  | _ => exact absurd trivial hs

lemma call_isSome_iff (hv : n.Valid a) : (n.call a).isSome = true ↔ n.Safe a := by
  constructor
  · intro hso
    by_contra hs
    simp [call_fails h hv hs] at hso
  · intro hs
    obtain ⟨n', hn', -⟩ := call_spec h hv hs
    simp [hn']

lemma call_step (hv : n.Valid a) (hc : n.call a = some n') :
    n'.Inv ∧ (a.KeepsQuorum → n.Evolves n' a) := by
  have hs : n.Safe a := (call_isSome_iff h hv).mp (by simp [hc])
  obtain ⟨n'', hc', hsp⟩ := call_spec h hv hs
  obtain rfl : n' = n'' := Option.some.inj (hc.symm.trans hc')
  exact hsp

lemma run_inv {calls : List RaftCall} (hv : Along call Valid n calls)
    (hr : run call n calls = some n') : n'.Inv :=
  run_invariant_along (fun hc hv hn => (call_step hn hv hc).1) hr hv h

end

/-- The timer runs exactly where it should. -/
def Raft.TimerMatches (r : Raft) : Prop :=
  r.timer.active = true ↔ r.isCandidate = true ∧ r.isWriteInProgress = false ∧ r.state ≠ .leader

/-- A candidate or leader has its term and its vote for itself on disk. -/
def Raft.RoleOnDisk (r : Raft) : Prop :=
  r.state ≠ .follower → r.isWriteInProgress = false ∧ r.term = r.volatileTerm ∧
    r.vote = r.volatileVote ∧ r.volatileVote = r.self

lemma Raft.Inv.timerMatches {r : Raft} (h : r.Inv) : r.TimerMatches :=
  ⟨h.timer, fun ⟨hc, hw, hs⟩ => h.waits hc hw hs⟩

lemma Raft.Inv.roleOnDisk {r : Raft} (h : r.Inv) : r.RoleOnDisk := by
  intro hs
  have hw := h.idle hs
  have hd : r.volatileBallot = r.ballot := h.onDisk hw
  have hse : r.vote = r.self := by
    cases hs' : r.state with
    | follower => exact absurd hs' hs
    | candidate => exact (h.candidate hs').2.2
    | leader => exact (h.leader hs').2.2
  have hv : r.volatileVote = r.vote := congrArg Ballot.vote hd
  exact ⟨hw, (congrArg Ballot.term hd).symm, hv.symm, hv.trans hse⟩

/-- A run of safe calls keeps the timer and the roles right, and a further call fails an
assertion exactly when it is not safe. -/
theorem raft_calls_safe {self electionQuorum : Nat} {vclock : Vclock} {calls : List RaftCall}
    (hself : self ≠ 0) (hlt : self < vclockMax) (hq : 0 < electionQuorum)
    (hsafe : Along call (fun n a => n.Valid a ∧ n.Safe a)
      (initial self electionQuorum vclock) calls) :
    ∃ n, run call (initial self electionQuorum vclock) calls = some n ∧
      n.raft.TimerMatches ∧ n.raft.RoleOnDisk ∧
      ∀ a, n.Valid a → ((n.call a).isSome = true ↔ n.Safe a) := by
  obtain ⟨n, hr, hi⟩ := run_total (P := Inv)
    (fun {n a} hc hn => by
      obtain ⟨n', hn', hi, -⟩ := call_spec hn hc.1 hc.2
      exact ⟨n', hn', hi⟩)
    hsafe (initial_inv hself hlt hq vclock)
  exact ⟨n, hr, hi.raft.timerMatches, hi.raft.roleOnDisk, fun a hv => call_isSome_iff hi hv⟩

/-- Alone, an instance elects itself once its vote is written. -/
def electionCalls : List RaftCall :=
  [.cfgIsEnabled true, .cfgIsCandidate true, .timerExpired, .processAsync ⟨0, 0⟩, .writeDone ⟨0, 0⟩]

theorem raft_calls_safe_elected : ∃ n, run call (initial 1 1 vclockCreate) electionCalls = some n ∧
      n.raft.state = .leader ∧ n.raft.TimerMatches ∧ n.raft.RoleOnDisk ∧
      ∀ a, n.Valid a → ((n.call a).isSome = true ↔ n.Safe a) := by
  have hs : Along call (fun n a => n.Valid a ∧ n.Safe a)
      (initial 1 1 vclockCreate) electionCalls := by
    refine along_cons ⟨trivial, trivial⟩ rfl (along_cons ⟨trivial, trivial⟩ rfl ?_)
    refine along_cons ⟨rfl, (by decide : 1 + 1 < 2 ^ 64)⟩ rfl (along_cons ⟨rfl, trivial⟩ rfl ?_)
    exact along_cons ⟨⟨_, rfl⟩, trivial⟩ rfl trivial
  obtain ⟨n, hr, h⟩ := raft_calls_safe (by decide) (by decide) (by decide) hs
  refine ⟨n, hr, ?_, h⟩
  cases hr
  rfl

/-- An enabled candidate that has just heard of the leader of a new term is still writing
that term when its death timeout is changed. -/
def deathTimeoutCalls : List RaftCall :=
  [.cfgIsEnabled true, .cfgIsCandidate true, .processMsg ⟨2, 0, RaftState.leader.code, none⟩ 2]

theorem deathTimeout_assertion_fails :
    Along call Valid (initial 1 2 vclockCreate) deathTimeoutCalls ∧
      ∃ n, run call (initial 1 2 vclockCreate) deathTimeoutCalls = some n ∧
        n.raft.isWriteInProgress = true ∧ n.raft.leader = 2 ∧
        n.Valid (.cfgDeathTimeout ⟨0, 0⟩ 10) ∧ n.call (.cfgDeathTimeout ⟨0, 0⟩ 10) = none := by
  have hm : 0 < 2 ∧ 2 < vclockMax ∧ 2 ≠ 1 ∧ 2 < 2 ^ 64 ∧ 0 < 2 ^ 32 := by decide
  refine ⟨?_, _, rfl, rfl, rfl, trivial, rfl⟩
  exact along_cons trivial rfl (along_cons trivial rfl (along_cons hm rfl trivial))

end TarantoolStorage
