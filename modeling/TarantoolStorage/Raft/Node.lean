import TarantoolStorage.Lib.Run
import TarantoolStorage.Lib.Voting
import TarantoolStorage.Raft.Machine

/-!
A node: the state machine, the worker fiber, its rows and the messages it has sent. The worker
yields only inside `raft_write`.
-/
namespace TarantoolStorage

open Checked Transition Voting

/-- The worker fiber is asleep, or inside `raft_write` with this row. -/
inductive RaftWorker where
  | idle
  | writing (req : RaftMsg)

def RaftMsg.ballot (req : RaftMsg) : Ballot := ⟨req.term, req.vote⟩

/-- The persisted term and vote, the only ones other nodes see. -/
def Raft.ballot (r : Raft) : Ballot := ⟨r.term, r.vote⟩

def Raft.volatileBallot (r : Raft) : Ballot := ⟨r.volatileTerm, r.volatileVote⟩

structure RaftNode where
  raft : Raft
  worker : RaftWorker
  /-- The rows on disk, oldest first. -/
  rows : List RaftMsg
  /-- All messages given to the network so far. -/
  sent : List RaftMsg
  /-- History of the persisted ballots; no call reads it. -/
  ballots : List Ballot

/-- The row `raft_worker_handle_io` writes. -/
def Raft.row (r : Raft) : RaftMsg := ⟨r.volatileTerm, r.volatileVote, 0, none⟩

/-- `raft_worker_handle_io` up to the write, or to its end when there is nothing to write. -/
def raftWorkerHandleIo (env : RaftEnv) (n : RaftNode) : Option RaftNode := do
  assertThat (n.raft.isWriteInProgress = true)
  assertThat (n.raft.state = .follower)
  if raftIsFullyOnDisk n.raft then
    let raft ← raftEndDump env n.raft
    return { n with raft := raft }
  else
    assertThat (n.raft.volatileTerm ≥ n.raft.term)
    return { n with worker := .writing n.raft.row }

/-- `raft_worker_handle_io` from the return of `raft_write` on. -/
def raftWorkerFinishIo (env : RaftEnv) (n : RaftNode) (req : RaftMsg) : Option RaftNode := do
  assertThat (req.term ≥ n.raft.term)
  let raft := raftScheduleBroadcast { n.raft with term := req.term, vote := req.vote }
  let raft ← (if raftIsFullyOnDisk raft then raftEndDump env raft else some raft)
  return { n with
    raft := raft, worker := .idle, rows := n.rows ++ [req], ballots := n.ballots ++ [req.ballot] }

def raftWorkerHandleBroadcast (n : RaftNode) : Option RaftNode := do
  assertThat (n.raft.isBroadcastScheduled = true)
  assertThat (n.raft.state = .candidate → n.raft.vote = n.raft.self)
  return { n with
    raft := { n.raft with isBroadcastScheduled := false }
    sent := n.sent ++ [raftCheckpointRemote n.raft] }

/-- The second half of a round of `raft_process_async`. -/
def raftBroadcastIfScheduled (n : RaftNode) : Option RaftNode :=
  if n.raft.isBroadcastScheduled then raftWorkerHandleBroadcast n else some n

/-- The loop of `raft_process_async`, for a bounded number of rounds, up to its end or to
the next write. -/
def raftProcessAsyncLoop (env : RaftEnv) : Nat → RaftNode → Option RaftNode
  | 0, _ => none
  | rounds + 1, n =>
    if n.raft.isWriteInProgress then do
      let n ← raftWorkerHandleIo env n
      match n.worker with
      | .writing _ => return n
      | .idle =>
        let n ← raftBroadcastIfScheduled n
        raftProcessAsyncLoop env rounds n
    else if n.raft.isBroadcastScheduled then do
      let n ← raftWorkerHandleBroadcast n
      raftProcessAsyncLoop env rounds n
    else do
      assertThat (raftIsFullyOnDisk n.raft = true)
      return n

/-- No two rounds pass without the worker coming to its end or to a write. -/
def asyncRounds : Nat := 2

def raftProcessAsync (env : RaftEnv) (n : RaftNode) : Option RaftNode :=
  raftProcessAsyncLoop env asyncRounds n

/-- `raft_write` returns: the worker finishes the round and goes on. -/
def raftWriteDone (env : RaftEnv) (n : RaftNode) (req : RaftMsg) : Option RaftNode := do
  let n ← raftWorkerFinishIo env n req
  let n ← raftBroadcastIfScheduled n
  raftProcessAsync env n

def raftRecover (self electionQuorum : Nat) (vclock : Vclock) (rows : List RaftMsg) : Option Raft :=
  rows.foldlM raftProcessRecovery (raftCreate self electionQuorum vclock)

/-- The rows a restart finds: a write that was cut off may have reached the disk. -/
def RaftNode.rowsAfterCrash (n : RaftNode) (written : Bool) : List RaftMsg :=
  match n.worker, written with
  | .writing req, true => n.rows ++ [req]
  | _, _ => n.rows

def RaftNode.restart (n : RaftNode) (written : Bool) (vclock : Vclock) : Option RaftNode := do
  let rows := n.rowsAfterCrash written
  let raft ← raftRecover n.raft.self n.raft.electionQuorum vclock rows
  return { n with
    raft := raft, worker := .idle, rows := rows, ballots := n.ballots ++ [raft.ballot] }

inductive RaftCall where
  | processMsg (req : RaftMsg) (source : Nat)
  | processHeartbeat (source : Nat)
  | processAsync (env : RaftEnv)
  | writeDone (env : RaftEnv)
  | timerExpired
  | cfgIsEnabled (isEnabled : Bool)
  | cfgIsCandidate (isCandidate : Bool)
  | cfgElectionTimeout (env : RaftEnv) (timeout : Rat)
  | cfgDeathTimeout (env : RaftEnv) (timeout : Rat)
  | cfgElectionQuorum (electionQuorum : Nat)
  | promote
  | restore
  | newTerm
  | checkpointRemote
  | vclockChanged (vclock : Vclock)
  | restart (written : Bool) (vclock : Vclock)

def RaftNode.update (n : RaftNode) (raft : Raft) : RaftNode := { n with raft := raft }

/-- One call; `none` when an assertion fails. -/
def RaftNode.call (n : RaftNode) : RaftCall → Option RaftNode
  | .processMsg req source => (raftProcessMsg n.raft req source).map fun (raft, _) => n.update raft
  | .processHeartbeat source => (raftProcessHeartbeat n.raft source).map n.update
  | .processAsync env =>
    match n.worker with
    | .idle => raftProcessAsync env n
    | .writing _ => none
  | .writeDone env =>
    match n.worker with
    | .idle => none
    | .writing req => raftWriteDone env n req
  | .timerExpired => (raftSmScheduleNewElectionCb n.raft).map n.update
  | .cfgIsEnabled isEnabled => (raftCfgIsEnabled n.raft isEnabled).map n.update
  | .cfgIsCandidate isCandidate => (raftCfgIsCandidate n.raft isCandidate).map n.update
  | .cfgElectionTimeout env timeout => (raftCfgElectionTimeout env n.raft timeout).map n.update
  | .cfgDeathTimeout env timeout => (raftCfgDeathTimeout env n.raft timeout).map n.update
  | .cfgElectionQuorum electionQuorum => (raftCfgElectionQuorum n.raft electionQuorum).map n.update
  | .promote => (raftPromote n.raft).map n.update
  | .restore => (raftRestore n.raft).map n.update
  | .newTerm => (raftNewTerm n.raft).map n.update
  | .checkpointRemote => some { n with sent := n.sent ++ [raftCheckpointRemote n.raft] }
  | .vclockChanged vclock => some (n.update { n.raft with vclock := vclock })
  | .restart written vclock => n.restart written vclock

/-- What callers and event loop guarantee: messages come from other instances and fit their C types,
the timer fires when active, and there is one worker. -/
def RaftNode.Valid (n : RaftNode) : RaftCall → Prop
  | .processMsg req source =>
    0 < source ∧ source < vclockMax ∧ source ≠ n.raft.self ∧ req.term < 2 ^ 64 ∧ req.vote < 2 ^ 32
  | .processAsync _ => n.worker = .idle
  | .writeDone _ => ∃ req, n.worker = .writing req
  | .timerExpired => n.raft.timer.active = true
  | .cfgElectionQuorum electionQuorum => 0 < electionQuorum
  | _ => True

/-- A node after its configuration, with nothing on disk. -/
def RaftNode.initial (self electionQuorum : Nat) (vclock : Vclock) : RaftNode where
  raft := raftCreate self electionQuorum vclock
  worker := .idle
  rows := []
  sent := []
  ballots := [⟨1, 0⟩]

end TarantoolStorage
