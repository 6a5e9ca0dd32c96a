import TarantoolStorage.Vclock

/-! The state machine of `raft.c`. `none` is a failed assertion. Timeouts are rational seconds. -/
namespace TarantoolStorage

open Checked

inductive RaftState where
  | follower | candidate | leader
  deriving DecidableEq, Repr

/-- The values of `enum raft_state`. -/
def RaftState.code : RaftState → Nat
  | .follower => 1
  | .candidate => 2
  | .leader => 3

def raftStateMax : Nat := 4

/-- `raft_msg`. The state comes from the network and can be any number. -/
structure RaftMsg where
  term : Nat
  vote : Nat
  state : Nat
  vclock : Option Vclock

structure RaftTimer where
  active : Bool
  after : Rat
  again : Rat

/-- What an operation takes from outside: `rand()` and the time left on the timer. -/
structure RaftEnv where
  rand : Nat
  remaining : Rat

/-- `struct raft`, without the virtual table and the update triggers. -/
structure Raft where
  self : Nat
  leader : Nat
  state : RaftState
  volatileTerm : Nat
  volatileVote : Nat
  isEnabled : Bool
  isCandidate : Bool
  isCfgCandidate : Bool
  isWriteInProgress : Bool
  isBroadcastScheduled : Bool
  term : Nat
  vote : Nat
  voteMask : BitVec 32
  voteCount : Nat
  electionQuorum : Nat
  vclock : Vclock
  timer : RaftTimer
  electionTimeout : Rat
  deathTimeout : Rat

def RaftTimer.stop (t : RaftTimer) : RaftTimer := { t with active := false }
def RaftTimer.set (t : RaftTimer) (after again : Rat) : RaftTimer :=
  { t with after := after, again := again }
def RaftTimer.start (t : RaftTimer) : RaftTimer := { t with active := true }

def raftIsFullyOnDisk (r : Raft) : Bool :=
  r.volatileTerm == r.term && r.volatileVote == r.vote

/-- `raft_new_random_election_shift`: up to a tenth of the timeout, in milliseconds. -/
def raftNewRandomElectionShift (r : Raft) (rand : Nat) : Rat :=
  let randPart := (r.electionTimeout * (1 / 10) * 1000).floor.toNat % 2 ^ 32
  let randPart := if randPart = 0 then 1 else randPart
  (rand % (randPart + 1) : Nat) / 1000

def raftCanVoteFor (r : Raft) (v : Vclock) : Bool :=
  let cmp := vclockCompareIgnore0 v r.vclock
  cmp == 0 || cmp == 1

def raftScheduleBroadcast (r : Raft) : Raft := { r with isBroadcastScheduled := true }

def raftSmPauseAndDump (r : Raft) : Option Raft := do
  assertThat (r.state = .follower)
  if r.isWriteInProgress then return r
  else return { r with timer := r.timer.stop, isWriteInProgress := true }

def raftSmWaitLeaderDead (r : Raft) : Option Raft := do
  assertThat (r.timer.active = false)
  assertThat (r.isWriteInProgress = false)
  assertThat (r.isCandidate = true)
  assertThat (r.state = .follower)
  assertThat (r.leader ≠ 0)
  return { r with timer := (r.timer.set r.deathTimeout r.deathTimeout).start }

def raftSmWaitLeaderFound (r : Raft) : Option Raft := do
  assertThat (r.timer.active = false)
  assertThat (r.isWriteInProgress = false)
  assertThat (r.isCandidate = true)
  assertThat (r.state = .follower)
  assertThat (r.leader = 0)
  return { r with timer := (r.timer.set r.deathTimeout r.deathTimeout).start }

def raftSmWaitElectionEnd (env : RaftEnv) (r : Raft) : Option Raft := do
  assertThat (r.timer.active = false)
  assertThat (r.isWriteInProgress = false)
  assertThat (r.isCandidate = true)
  assertThat (r.state = .follower ∨ r.state = .candidate ∧ r.volatileVote = r.self)
  assertThat (r.leader = 0)
  let electionTimeout := r.electionTimeout + raftNewRandomElectionShift r env.rand
  return { r with timer := (r.timer.set electionTimeout electionTimeout).start }

/-- `raft_start_candidate`: make the instance a candidate. -/
def raftStartCandidate (r : Raft) : Option Raft := do
  assertThat (r.isEnabled = true)
  if r.isCandidate then return r
  assertThat (r.state = .follower)
  let r := { r with isCandidate := true }
  if r.isWriteInProgress then return r
  else if r.leader ≠ 0 then raftSmWaitLeaderDead r
  else raftSmWaitLeaderFound r

/-- The leader is forgotten only when it is this instance itself. -/
def Raft.resign (r : Raft) : Raft :=
  { r with leader := if r.state = .leader then 0 else r.leader, state := .follower }

def raftStopCandidate (r : Raft) : Raft :=
  if r.isCandidate then
    let r := { r with isCandidate := false, timer := r.timer.stop }
    raftScheduleBroadcast r.resign
  else r

def raftSetCandidate (r : Raft) (isCandidate : Bool) : Option Raft :=
  if isCandidate then raftStartCandidate r else some (raftStopCandidate r)

def raftRestore (r : Raft) : Option Raft := raftSetCandidate r (r.isCfgCandidate && r.isEnabled)

def raftSmScheduleNewTerm (r : Raft) (newTerm : Nat) : Option Raft := do
  assertThat (newTerm > r.volatileTerm)
  assertThat (r.volatileTerm ≥ r.term)
  let r := { r with volatileTerm := newTerm, volatileVote := 0, leader := 0, state := .follower }
  let r ← raftRestore r
  let r ← raftSmPauseAndDump r
  return raftScheduleBroadcast r

def raftSmScheduleNewVote (r : Raft) (newVote : Nat) : Option Raft := do
  assertThat (r.volatileVote = 0)
  assertThat (r.leader = 0)
  assertThat (r.state = .follower)
  raftSmPauseAndDump { r with volatileVote := newVote }

/-- `volatile_term + 1` in 64 bits. -/
def Raft.nextTerm (r : Raft) : Nat := (r.volatileTerm + 1) % 2 ^ 64

def raftSmScheduleNewElection (r : Raft) : Option Raft := do
  assertThat (r.isCandidate = true)
  let r ← raftSmScheduleNewTerm r r.nextTerm
  raftSmScheduleNewVote r r.self

def raftSmScheduleNewElectionCb (r : Raft) : Option Raft := do
  assertThat (raftIsFullyOnDisk r = true)
  raftSmScheduleNewElection { r with timer := r.timer.stop }

def raftSmBecomeLeader (r : Raft) : Option Raft := do
  assertThat (r.state ≠ .leader)
  assertThat (r.leader = 0)
  assertThat (r.isCandidate = true)
  assertThat (r.isWriteInProgress = false)
  return raftScheduleBroadcast { r with state := .leader, leader := r.self, timer := r.timer.stop }

def raftSmFollowLeader (r : Raft) (leader : Nat) : Option Raft := do
  assertThat (r.state ≠ .leader)
  assertThat (r.leader = 0)
  let r := { r with state := .follower, leader := leader }
  let r ←
    (if !r.isWriteInProgress && r.isCandidate then
      raftSmWaitLeaderDead { r with timer := r.timer.stop }
    else some r)
  return raftScheduleBroadcast r

def raftSmBecomeCandidate (env : RaftEnv) (r : Raft) : Option Raft := do
  assertThat (r.state = .follower)
  assertThat (r.leader = 0)
  assertThat (r.vote = r.self)
  assertThat (r.isCandidate = true)
  assertThat (r.isWriteInProgress = false)
  assertThat (r.electionQuorum > 1)
  let r := { r with state := .candidate, voteCount := 1, voteMask := (bitSet 0 r.self).1 }
  let r ← raftSmWaitElectionEnd env r
  return raftScheduleBroadcast r

/-- A vote seen by a follower or a leader: a request for one, or news about a third node. -/
def raftAnswerVote (r : Raft) (req : RaftMsg) : Option Raft :=
  if r.isEnabled = false then some r
  else if r.leader ≠ 0 then some r
  else if req.vote = r.self then some r
  else if req.state ≠ RaftState.candidate.code then some r
  else if r.volatileVote ≠ 0 then some r
  else if (req.vclock.map (raftCanVoteFor r)).getD false = false then some r
  else raftSmScheduleNewVote r req.vote

/-- A vote of one source counts once. -/
def Raft.addVote (r : Raft) (source : Nat) : Raft :=
  let (voteMask, wasSet) := bitSet r.voteMask source
  { r with voteMask := voteMask, voteCount := r.voteCount + if wasSet then 0 else 1 }

/-- A vote seen by a candidate: the answer to its request, unless it is for a competitor. -/
def raftCountVote (r : Raft) (req : RaftMsg) (source : Nat) : Option Raft :=
  if req.vote ≠ r.self then some r
  else do
    assertThat (r.volatileVote = r.self)
    let r := r.addVote source
    if r.voteCount < r.electionQuorum then return r else raftSmBecomeLeader r

def raftProcessVote (r : Raft) (req : RaftMsg) (source : Nat) : Option Raft :=
  match r.state with
  | .follower => raftAnswerVote r req
  | .leader => raftAnswerVote r req
  | .candidate => raftCountVote r req source

def raftProcessRole (r : Raft) (req : RaftMsg) (source : Nat) : Option Raft :=
  if req.state ≠ RaftState.leader.code then
    if source = r.leader then
      let r := { r with leader := 0 }
      if r.isCandidate then raftSmScheduleNewElection r else some r
    else some r
  else if source = r.leader then some r
  else if r.leader ≠ 0 then some r
  else raftSmFollowLeader r source

def invalidTermOrState : String := "Invalid term or state"
def candidateWithoutVote : String :=
  "Candidate should always vote for self and provide its vclock"

/-- The checks of `raft_process_msg` on the message itself. -/
def raftMsgError (req : RaftMsg) (source : Nat) : Option String :=
  if req.term = 0 ∨ req.state = 0 ∨ req.state ≥ raftStateMax then some invalidTermOrState
  else if req.state = RaftState.candidate.code ∧ (req.vote ≠ source ∨ req.vclock.isNone) then
    some candidateWithoutVote
  else none

/-- `raft_process_msg`: the new state, and the error of a message that is refused. -/
def raftProcessMsg (r : Raft) (req : RaftMsg) (source : Nat) : Option (Raft × Option String) := do
  assertThat (source > 0)
  assertThat (source ≠ r.self)
  match raftMsgError req source with
  | some error => return (r, some error)
  | none =>
    if req.term < r.volatileTerm then return (r, none)
    let r ← (if req.term > r.volatileTerm then raftSmScheduleNewTerm r req.term else some r)
    let r ← (if req.vote ≠ 0 then raftProcessVote r req source else some r)
    let r ← raftProcessRole r req source
    return (r, none)

def raftProcessHeartbeat (r : Raft) (source : Nat) : Option Raft :=
  if source = 0 then some r
  else if r.isCandidate = false then some r
  else if r.state = .leader then some r
  else if r.leader ≠ source then some r
  else if r.isWriteInProgress then some r
  else do
    assertThat (r.timer.active = true)
    raftSmWaitLeaderDead { r with timer := r.timer.stop }

/-- The end of `raft_worker_handle_io`, once everything is on disk. -/
def raftEndDump (env : RaftEnv) (r : Raft) : Option Raft :=
  let r := { r with isWriteInProgress := false }
  if r.isCandidate = false then some r
  else if r.leader ≠ 0 then raftSmWaitLeaderDead r
  else if r.vote = r.self then
    if r.electionQuorum = 1 then raftSmBecomeLeader r else raftSmBecomeCandidate env r
  else if r.vote ≠ 0 then raftSmWaitElectionEnd env r
  else raftSmScheduleNewVote r r.self

def raftSmStart (r : Raft) : Option Raft := do
  assertThat (r.timer.active = false)
  assertThat (r.isEnabled = false)
  assertThat (r.state = .follower)
  let r := { r with isEnabled := true, isCandidate := r.isCfgCandidate }
  let r ←
    (if r.isWriteInProgress then some r
    else if r.isCandidate = false then some r
    else if r.leader ≠ 0 then raftSmWaitLeaderDead r
    else raftSmWaitLeaderFound r)
  return raftScheduleBroadcast r

def raftSmStop (r : Raft) : Option Raft := do
  assertThat (r.isEnabled = true)
  let r := { r with isEnabled := false, isCandidate := false }
  let r := { r.resign with timer := r.timer.stop }
  return raftScheduleBroadcast r

def raftCfgIsEnabled (r : Raft) (isEnabled : Bool) : Option Raft :=
  if isEnabled = r.isEnabled then some r
  else if isEnabled then raftSmStart r
  else raftSmStop r

def raftCfgIsCandidate (r : Raft) (isCandidate : Bool) : Option Raft :=
  raftRestore { r with isCfgCandidate := isCandidate }

def raftPromote (r : Raft) : Option Raft :=
  if r.isEnabled = false then some r
  else do
    let r ← raftSmScheduleNewTerm r r.nextTerm
    raftStartCandidate r

def raftNewTerm (r : Raft) : Option Raft := raftSmScheduleNewTerm r r.nextTerm

/-- Both timeout settings move the running timer by the difference to the old timeout. -/
def Raft.rescheduleTimer (r : Raft) (env : RaftEnv) (timeout oldTimeout : Rat) : Raft :=
  let after := max 0 (timeout + (env.remaining - oldTimeout))
  { r with timer := (r.timer.stop.set after timeout).start }

def raftCfgElectionTimeout (env : RaftEnv) (r : Raft) (timeout : Rat) : Option Raft :=
  let oldTimeout := r.electionTimeout
  if timeout = oldTimeout then some r
  else
    let r := { r with electionTimeout := timeout }
    if r.vote = 0 ∨ r.leader ≠ 0 ∨ r.isCandidate = false ∨ r.isWriteInProgress = true then some r
    else do
      assertThat (r.timer.active = true)
      return r.rescheduleTimer env timeout oldTimeout

/-- Unlike the election timeout, this one is also applied while a write is in progress. -/
def raftCfgDeathTimeout (env : RaftEnv) (r : Raft) (timeout : Rat) : Option Raft :=
  let oldTimeout := r.deathTimeout
  if timeout = oldTimeout then some r
  else
    let r := { r with deathTimeout := timeout }
    if r.state ≠ .follower ∨ r.isCandidate = false ∨ r.leader = 0 then some r
    else do
      assertThat (r.timer.active = true)
      return r.rescheduleTimer env timeout oldTimeout

def raftCfgElectionQuorum (r : Raft) (electionQuorum : Nat) : Option Raft := do
  assertThat (electionQuorum > 0)
  let r := { r with electionQuorum := electionQuorum }
  if r.state = .candidate ∧ r.voteCount ≥ r.electionQuorum then raftSmBecomeLeader r
  else return r

/-- The visible state, as sent to other nodes. -/
def raftCheckpointRemote (r : Raft) : RaftMsg where
  term := r.term
  vote := r.vote
  state := r.state.code
  vclock := if r.state = .candidate then some r.vclock else none

/-- `raft_create`, configured with the instance's id, vclock and quorum. -/
def raftCreate (self electionQuorum : Nat) (vclock : Vclock) : Raft where
  self := self
  leader := 0
  state := .follower
  volatileTerm := 1
  volatileVote := 0
  isEnabled := false
  isCandidate := false
  isCfgCandidate := false
  isWriteInProgress := false
  isBroadcastScheduled := false
  term := 1
  vote := 0
  voteMask := 0
  voteCount := 0
  electionQuorum := electionQuorum
  vclock := vclock
  timer := ⟨false, 0, 0⟩
  electionTimeout := 5
  deathTimeout := 5

def raftProcessRecovery (r : Raft) (req : RaftMsg) : Option Raft := do
  let r := if req.term ≠ 0 then { r with term := req.term, volatileTerm := req.term } else r
  let r := if req.vote ≠ 0 then { r with vote := req.vote, volatileVote := req.vote } else r
  assertThat (req.state = 0)
  assertThat (req.vclock.isNone = true)
  assertThat (r.isEnabled = false)
  return r

end TarantoolStorage
