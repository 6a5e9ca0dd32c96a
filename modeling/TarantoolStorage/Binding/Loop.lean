import TarantoolStorage.Lib.Run
import TarantoolStorage.Binding.Message

/-!
The message loop and its clients as one transition system. A send is split into its check of
`active` and its attempts, the handling of a message at every access to the ring.
-/
namespace TarantoolStorage.Binding

open Transition Option

variable {ι ω β : Type} {m : Message ι ω β} {E : Engine β}

/-- `tarantool_message_loop_configuration_t`, without the sleep durations. The size of the ring is a
power of two, as the masks of `ck_ring` need: only then does it take one entry less. -/
structure Configuration where
  messageLoopMaxEmptyCycles : Int
  messageLoopEmptyCyclesMultiplier : Int
  messageLoopInitialEmptyCycles : Int
  messageLoopRingSize : Nat
  messageLoopRingRetryMaxCount : Int

/-- Where the loop's fiber stands. The flag of a message in hand tells the drain
after STOP from the normal loop. -/
inductive Control (ι ω β : Type) where
  | running
  | draining
  | handling (message : Message ι ω β) (drain : Bool)
  | resending (message : Message ι ω β) (count : Int) (drain : Bool)
  | stopped

def Control.back : Bool → Control ι ω β
  | true => .draining
  | false => .running

/-- The message the loop has taken from the ring and not finished with. -/
def Control.inHand : Control ι ω β → List (Message ι ω β)
  | .handling m _ => [m]
  | .resending m _ _ => [m]
  | _ => []

@[simp] lemma inHand_back (drain : Bool) : (Control.back drain : Control ι ω β).inHand = [] := by
  cases drain <;> rfl

@[simp] lemma inHand_handling (m : Message ι ω β) (drain : Bool) :
    (Control.handling m drain).inHand = [m] := rfl

@[simp] lemma inHand_resending (m : Message ι ω β) (count : Int) (drain : Bool) :
    (Control.resending m count drain).inHand = [m] := rfl

def Control.isStopped : Control ι ω β → Bool
  | .stopped => true
  | _ => false

/-- What an observer sees, in order. `executed` has the transaction that was open at the start of
the operation and whether it failed. -/
inductive Event (ι ω β : Type) where
  | accepted (message : Message ι ω β)
  | executed (message : Message ι ω β) (txn : Option Txn) (failed : Bool)
  | posted (port : Nat) (message : Message ι ω β)

/-- A client inside the retry loop of `tarantool_send_message`. -/
structure Sender (ι ω β : Type) where
  message : Message ι ω β
  count : Int

structure Loop (ι ω β : Type) where
  ring : List (Message ι ω β)
  active : Bool
  fiber : Fiber β
  control : Control ι ω β
  currentEmptyCycles : Int
  currentEmptyCyclesLimit : Int
  senders : List (Sender ι ω β)
  /-- Addresses handed out so far: every message is a fresh allocation. -/
  allocated : List Nat
  log : List (Event ι ω β)

/-- Accepted messages that are not finished, the one in hand first. -/
def Loop.pending (s : Loop ι ω β) : List (Message ι ω β) := s.control.inHand ++ s.ring

/-- One atomic action of a client thread or of the loop. -/
inductive Action (ι ω β : Type) where
  | sendMessage (message : Message ι ω β) (callback : Nat)
  | sendTry (k : Nat)
  | loopStop (message : Message ι ω β)
  | dequeue
  | handle
  | resendTry

/-- After `tarantool_message_loop_initialize`, at the head of the loop. -/
def initial (c : Configuration) (box : β) : Loop ι ω β where
  ring := []
  active := true
  fiber := { txn := none, transactionOwner := 2 ^ 32 - 1, diag := none, box := box }
  control := .running
  currentEmptyCycles := 0
  currentEmptyCyclesLimit := c.messageLoopInitialEmptyCycles
  senders := []
  allocated := []
  log := []

/-- `ck_ring_enqueue_mpsc`: a ring of size `n` holds `n - 1` entries. -/
def ckRingEnqueueMpsc (c : Configuration) (ring : List (Message ι ω β)) (m : Message ι ω β) :
    Option (List (Message ι ω β)) :=
  if ring.length < c.messageLoopRingSize - 1 then some (ring ++ [m]) else none

/-- Entry of `tarantool_send_message`: the check of `active` and the callback handle. -/
def sendMessage (s : Loop ι ω β) (m : Message ι ω β) (callback : Nat) : Loop ι ω β :=
  let s := { s with allocated := m.id :: s.allocated }
  if s.active = false then s
  else { s with senders := s.senders ++ [⟨{ m with callbackHandle := some callback }, 0⟩] }

/-- One enqueue attempt of a sender; at the retry limit the call returns `false`. -/
def sendTry (c : Configuration) (s : Loop ι ω β) (k : Nat) : Option (Loop ι ω β) :=
  match s.senders[k]? with
  | none => none
  | some sender =>
    match ckRingEnqueueMpsc c s.ring sender.message with
    | some ring =>
      some { s with
        ring := ring, senders := s.senders.eraseIdx k,
        log := s.log ++ [.accepted sender.message] }
    | none =>
      if sender.count + 1 ≥ c.messageLoopRingRetryMaxCount then
        some { s with senders := s.senders.eraseIdx k }
      else some { s with senders := s.senders.set k { sender with count := sender.count + 1 } }

/-- `tarantool_message_loop_stop`: a STOP that does not fit is dropped silently. -/
def loopStop (c : Configuration) (s : Loop ι ω β) (m : Message ι ω β) : Loop ι ω β :=
  { s with
    allocated := m.id :: s.allocated
    ring := (ckRingEnqueueMpsc c s.ring m).getD s.ring }

/-- The empty-ring part of one round of `tarantool_message_loop_start`. -/
def emptyCycle (c : Configuration) (s : Loop ι ω β) : Loop ι ω β :=
  if s.fiber.txn.isSome then s
  else
    let s := { s with currentEmptyCycles := s.currentEmptyCycles + 1 }
    if s.currentEmptyCycles ≥ c.messageLoopMaxEmptyCycles then s
    else if s.currentEmptyCycles ≥ s.currentEmptyCyclesLimit then
      { s with
        currentEmptyCyclesLimit := s.currentEmptyCyclesLimit * c.messageLoopEmptyCyclesMultiplier }
    else s

/-- The head of the normal loop and of the drain that follows STOP. -/
def dequeue (c : Configuration) (s : Loop ι ω β) : Option (Loop ι ω β) :=
  match s.control, s.ring with
  | .running, [] => some (emptyCycle c s)
  | .running, m :: ring =>
    let s := { s with
      ring := ring, currentEmptyCycles := 0,
      currentEmptyCyclesLimit := c.messageLoopInitialEmptyCycles }
    if m.type ≠ .stop then some { s with control := .handling m false }
    else some { s with active := false, control := .draining }
  | .draining, [] => some { s with control := .stopped }
  | .draining, m :: ring => some { s with ring := ring, control := .handling m true }
  | _, _ => none

/-- The events of an executed message: its operation, then its post. -/
def executionEvents (E : Engine β) (f : Fiber β) (m : Message ι ω β) : List (Event ι ω β) :=
  match (messageSwitch E f m).2 with
  | some m' => [.executed m f.txn (operationFails E f m), .posted m.callbackSendPort m']
  | none => []

/-- `tarantool_message_handle` up to its first enqueue attempt. -/
def tarantoolMessageHandle (E : Engine β) (s : Loop ι ω β) : Option (Loop ι ω β) :=
  match s.control with
  | .handling m drain =>
    if isForeign s.fiber m then some { s with control := .resending m 0 drain }
    else
      some { s with
        fiber := (messageSwitch E s.fiber m).1
        control := .back drain
        log := s.log ++ executionEvents E s.fiber m }
  | _ => none

/-- The message as it is posted when it could not be put back into the ring. -/
def rejected (m : Message ι ω β) : Message ι ω β :=
  { m with error := some messageSendError, errorType := .limit }

/-- One enqueue attempt of the retry loop in `tarantool_message_handle`. -/
def resendTry (c : Configuration) (s : Loop ι ω β) : Option (Loop ι ω β) :=
  match s.control with
  | .resending m count drain =>
    match ckRingEnqueueMpsc c s.ring m with
    | some ring => some { s with ring := ring, control := .back drain }
    | none =>
      if count + 1 ≥ c.messageLoopRingRetryMaxCount then
        some { s with
          control := .back drain
          log := s.log ++ [.posted m.callbackSendPort (rejected m)] }
      else some { s with control := .resending m (count + 1) drain }
  | _ => none

/-- The transition function. Nothing happens after the buffer has been freed. -/
def step (c : Configuration) (E : Engine β) (s : Loop ι ω β) : Action ι ω β → Option (Loop ι ω β)
  | .sendMessage m callback =>
    if s.control.isStopped then none
    else if m.id ∈ s.allocated ∨ ¬ m.zeroed then none
    else some (sendMessage s m callback)
  | .sendTry k => if s.control.isStopped then none else sendTry c s k
  | .loopStop m =>
    if s.control.isStopped then none
    else if m.id ∈ s.allocated ∨ m.type ≠ .stop then none
    else some (loopStop c s m)
  | .dequeue => dequeue c s
  | .handle => tarantoolMessageHandle E s
  | .resendTry => resendTry c s

def Reachable (c : Configuration) (E : Engine β) (box : β) (s : Loop ι ω β) : Prop :=
  ∃ actions, run (step c E) (initial c box) actions = some s

/-- The transitions one by one, with everything each of them changes. -/
inductive Step (c : Configuration) (E : Engine β) (s : Loop ι ω β) :
    Action ι ω β → Loop ι ω β → Prop where
  | allocate (a : Action ι ω β) (id : Nat) : Step c E s a { s with allocated := id :: s.allocated }
  | startSend (m : Message ι ω β) (callback : Nat) (hid : m.id ∉ s.allocated)
      (hm : m.zeroed = true) :
      Step c E s (.sendMessage m callback) { s with
        allocated := m.id :: s.allocated
        senders := s.senders ++ [⟨{ m with callbackHandle := some callback }, 0⟩] }
  | accept (k : Nat) (sender : Sender ι ω β) (hk : s.senders[k]? = some sender) :
      Step c E s (.sendTry k) { s with
        ring := s.ring ++ [sender.message]
        senders := s.senders.eraseIdx k
        log := s.log ++ [.accepted sender.message] }
  | giveUp (k : Nat) : Step c E s (.sendTry k) { s with senders := s.senders.eraseIdx k }
  | retry (k : Nat) (sender : Sender ι ω β) (hk : s.senders[k]? = some sender) (n : Int) :
      Step c E s (.sendTry k) { s with senders := s.senders.set k { sender with count := n } }
  | stop (m : Message ι ω β) (hm : m.type = .stop) :
      Step c E s (.loopStop m) { s with allocated := m.id :: s.allocated, ring := s.ring ++ [m] }
  | idle (cycles limit : Int) :
      Step c E s .dequeue { s with currentEmptyCycles := cycles, currentEmptyCyclesLimit := limit }
  | take (m : Message ι ω β) (ring : List (Message ι ω β)) (drain : Bool) (cycles limit : Int)
      (hc : s.control = .back drain) (hr : s.ring = m :: ring) :
      Step c E s .dequeue { s with
        ring := ring, control := .handling m drain,
        currentEmptyCycles := cycles, currentEmptyCyclesLimit := limit }
  | drain (m : Message ι ω β) (ring : List (Message ι ω β)) (cycles limit : Int)
      (hc : s.control = .running) (hr : s.ring = m :: ring) (hm : m.type = .stop) :
      Step c E s .dequeue { s with
        ring := ring, active := false, control := .draining,
        currentEmptyCycles := cycles, currentEmptyCyclesLimit := limit }
  | finish (hc : s.control = .draining) (hr : s.ring = []) :
      Step c E s .dequeue { s with control := .stopped }
  | bounce (m : Message ι ω β) (drain : Bool) (hc : s.control = .handling m drain)
      (hf : isForeign s.fiber m = true) :
      Step c E s .handle { s with control := .resending m 0 drain }
  | execute (m : Message ι ω β) (drain : Bool) (hc : s.control = .handling m drain)
      (hf : isForeign s.fiber m = false) :
      Step c E s .handle { s with
        fiber := (messageSwitch E s.fiber m).1
        control := .back drain
        log := s.log ++ executionEvents E s.fiber m }
  | resend (m : Message ι ω β) (count : Int) (drain : Bool)
      (hc : s.control = .resending m count drain) :
      Step c E s .resendTry { s with ring := s.ring ++ [m], control := .back drain }
  | reject (m : Message ι ω β) (count : Int) (drain : Bool)
      (hc : s.control = .resending m count drain) :
      Step c E s .resendTry { s with
        control := .back drain
        log := s.log ++ [.posted m.callbackSendPort (rejected m)] }
  | backoff (m : Message ι ω β) (count : Int) (drain : Bool)
      (hc : s.control = .resending m count drain) :
      Step c E s .resendTry { s with control := .resending m (count + 1) drain }

variable {c : Configuration} {s t : Loop ι ω β}

lemma ckRingEnqueueMpsc_some {ring ring' : List (Message ι ω β)}
    (h : ckRingEnqueueMpsc c ring m = some ring') : ring' = ring ++ [m] := by
  unfold ckRingEnqueueMpsc at h
  split at h
  · exact (some.inj h).symm
  · exact nomatch h

lemma sendMessage_step {callback : Nat} (hi : m.id ∉ s.allocated) (hm : m.zeroed = true) :
    Step c E s (.sendMessage m callback) (sendMessage s m callback) := by
  unfold sendMessage
  dsimp only
  split
  · exact .allocate _ m.id
  · exact .startSend m callback hi hm

lemma sendTry_step {k : Nat} (h : sendTry c s k = some t) : Step c E s (.sendTry k) t := by
  unfold sendTry at h
  cases hk : s.senders[k]? with
  | none => simp [hk] at h
  | some sender =>
    simp only [hk] at h
    cases he : ckRingEnqueueMpsc c s.ring sender.message with
    | some ring =>
      obtain rfl := ckRingEnqueueMpsc_some he
      simp only [he, some.injEq] at h
      exact h ▸ .accept k sender hk
    | none =>
      simp only [he] at h
      split at h
      · exact some.inj h ▸ .giveUp k
      · exact some.inj h ▸ .retry k sender hk _

lemma loopStop_step (hm : m.type = .stop) : Step c E s (.loopStop m) (loopStop c s m) := by
  unfold loopStop
  cases he : ckRingEnqueueMpsc c s.ring m with
  | none => exact .allocate _ m.id
  | some ring =>
    obtain rfl := ckRingEnqueueMpsc_some he
    exact .stop m hm

lemma emptyCycle_step : Step c E s .dequeue (emptyCycle c s) := by
  unfold emptyCycle
  dsimp only
  split
  · exact .idle s.currentEmptyCycles s.currentEmptyCyclesLimit
  · split
    · exact .idle _ s.currentEmptyCyclesLimit
    · split
      · exact .idle _ _
      · exact .idle _ s.currentEmptyCyclesLimit

lemma dequeue_step (h : dequeue c s = some t) : Step c E s .dequeue t := by
  unfold dequeue at h
  split at h
  · exact some.inj h ▸ emptyCycle_step
  · rename_i m ring hc hr
    dsimp only at h
    split at h
    · exact some.inj h ▸ .take m ring false _ _ hc hr
    · rename_i hm
      exact some.inj h ▸ .drain m ring _ _ hc hr (not_not.mp hm)
  · rename_i hc hr
    exact some.inj h ▸ .finish hc hr
  · rename_i m ring hc hr
    exact some.inj h ▸ .take m ring true _ _ hc hr
  · exact nomatch h

lemma handle_step (h : tarantoolMessageHandle E s = some t) : Step c E s .handle t := by
  unfold tarantoolMessageHandle at h
  split at h
  · rename_i m drain hc
    split at h
    · rename_i hf
      exact some.inj h ▸ .bounce m drain hc hf
    · rename_i hf
      exact some.inj h ▸ .execute m drain hc (by simpa using hf)
  · exact nomatch h

lemma resendTry_step (h : resendTry c s = some t) : Step c E s .resendTry t := by
  unfold resendTry at h
  split at h
  · rename_i m count drain hc
    cases he : ckRingEnqueueMpsc c s.ring m with
    | some ring =>
      obtain rfl := ckRingEnqueueMpsc_some he
      simp only [he, some.injEq] at h
      exact h ▸ .resend m count drain hc
    | none =>
      simp only [he] at h
      split at h
      · exact some.inj h ▸ .reject m count drain hc
      · exact some.inj h ▸ .backoff m count drain hc
  · exact nomatch h

/-- Every action of the transition function is one of the listed transitions. -/
lemma step_cases {a : Action ι ω β} (h : step c E s a = some t) : Step c E s a t := by
  cases a with
  | sendMessage m callback =>
    simp only [step] at h
    split at h
    · exact nomatch h
    · split at h
      · exact nomatch h
      · rename_i hi
        simp only [not_or, not_not] at hi
        exact some.inj h ▸ sendMessage_step hi.1 hi.2
  | sendTry k =>
    simp only [step] at h
    split at h
    · exact nomatch h
    · exact sendTry_step h
  | loopStop m =>
    simp only [step] at h
    split at h
    · exact nomatch h
    · split at h
      · exact nomatch h
      · rename_i hm
        simp only [not_or, not_not] at hm
        exact some.inj h ▸ loopStop_step hm.2
  | dequeue => exact dequeue_step h
  | handle => exact handle_step h
  | resendTry => exact resendTry_step h

def sampleConfiguration : Configuration where
  messageLoopMaxEmptyCycles := 100
  messageLoopEmptyCyclesMultiplier := 2
  messageLoopInitialEmptyCycles := 5
  messageLoopRingSize := 8
  messageLoopRingRetryMaxCount := 3

/-- An engine on which every transaction operation succeeds. -/
def sampleEngine : Engine Unit where
  txnBegin _ := (none, ())
  txnCommit _ := (none, ())
  txnRollback _ := ()

/-- A message whose function succeeds and leaves the transaction alone. -/
def sample (id : Nat) (type : MessageType) (owner : Nat) : Message Unit Unit Unit where
  id := id
  type := type
  function _ _ := ⟨some (), none, .keep 0, ()⟩
  input := ()
  output := none
  callbackSendPort := owner
  callbackHandle := none
  batch := []
  error := none
  errorType := .limit
  owner := owner

/-- A send that finds room in the ring at once. -/
def submit (m : Message ι ω β) : List (Action ι ω β) := [.sendMessage m 0, .sendTry 0]

end TarantoolStorage.Binding
