import TarantoolStorage.Lib.Run
import TarantoolStorage.Vclock

/-!
The limbo: transactions that wait for a quorum, and the requests that decide them. `none` is a
failed assertion.
-/
namespace TarantoolStorage

open Checked List

/-- `txn_limbo_entry`, with what the limbo reads and sets of its transaction. -/
structure LimboEntry where
  txn : Nat
  /-- `TXN_WAIT_ACK`; the other transactions only wait for those before them. -/
  waitAck : Bool
  signature : Int
  isPrepared : Bool
  lsn : Int
  isCommit : Bool
  isRollback : Bool
  deriving DecidableEq, Repr

/-- `txn_limbo`, as far as the processing of requests uses it. -/
structure TxnLimbo where
  queue : List LimboEntry
  len : Int
  ownerId : Nat
  promoteTermMap : Vclock
  promoteGreatestTerm : Nat
  confirmedLsn : Int
  rollbackCount : Int
  /-- The transactions completed so far, in order; no function reads it. -/
  completed : List LimboEntry

inductive SynchroType where
  | confirm | rollback | promote | demote
  deriving DecidableEq, Repr

structure SynchroRequest where
  type : SynchroType
  replicaId : Nat
  originId : Nat
  lsn : Int
  term : Nat
  deriving DecidableEq, Repr

def replicaIdNil : Nat := 0
def txnSignatureUnknown : Int := -1
def txnSignatureSyncRollback : Int := -103

/-- `iproto_type_is_promote_request`. -/
def SynchroType.isPromoteRequest : SynchroType → Bool
  | .promote | .demote => true
  | .confirm | .rollback => false

def txnLimboCreate : TxnLimbo where
  queue := []
  len := 0
  ownerId := replicaIdNil
  promoteTermMap := vclockCreate
  promoteGreatestTerm := 0
  confirmedLsn := 0
  rollbackCount := 0
  completed := []

def txnLimboReplicaTerm (l : TxnLimbo) (replicaId : Nat) : Nat :=
  uint64 (vclockGet l.promoteTermMap replicaId)

/-- `txn_limbo_remove` of the first entry, which leaves these. -/
def txnLimboRemove (l : TxnLimbo) (rest : List LimboEntry) : TxnLimbo :=
  { l with queue := rest, len := l.len - 1 }

/-- `txn_limbo_pop` of the last entry, which leaves these. -/
def txnLimboPop (l : TxnLimbo) (rest : List LimboEntry) : TxnLimbo :=
  { l with queue := rest, len := l.len - 1, rollbackCount := l.rollbackCount + 1 }

def TxnLimbo.complete (l : TxnLimbo) (e : LimboEntry) : TxnLimbo :=
  { l with completed := l.completed ++ [e] }

/-- The loop of `txn_limbo_read_confirm` over the queue, whose first entry is the next one. -/
def readConfirmLoop (lsn : Int) : List LimboEntry → TxnLimbo → Option TxnLimbo
  | [], l => some l
  | e :: rest, l =>
    if e.waitAck = true ∧ (e.lsn > lsn ∨ e.lsn = -1) then some l
    else if e.waitAck = false ∧ e.signature = txnSignatureUnknown then do
      -- not yet written: from now on it is a plain transaction
      assertThat (e.isPrepared = true)
      readConfirmLoop lsn rest (txnLimboRemove l rest)
    else do
      assertThat (e.signature ≥ 0)
      let e := { e with isCommit := true, waitAck := false }
      readConfirmLoop lsn rest ((txnLimboRemove l rest).complete e)

def txnLimboReadConfirm (l : TxnLimbo) (lsn : Int) : Option TxnLimbo := do
  assertThat (l.ownerId ≠ replicaIdNil ∨ l.queue.isEmpty = true)
  readConfirmLoop lsn l.queue l

/-- How many entries there are from the end of the queue to `last_rollback`; the list is the queue
from its end on. -/
def rollbackSpan (lsn : Int) : List LimboEntry → Nat
  | [] => 0
  | e :: earlier =>
    if e.waitAck = false then
      match rollbackSpan lsn earlier with
      | 0 => 0
      | span + 1 => span + 2
    else if e.lsn < lsn then 0
    else rollbackSpan lsn earlier + 1

/-- The loop of `txn_limbo_read_rollback` over the queue from its end on. -/
def readRollbackLoop : Nat → List LimboEntry → TxnLimbo → Option TxnLimbo
  | 0, _, l => some l
  | _ + 1, [], l => some l
  | span + 1, e :: earlier, l => do
    assertThat (e.signature ≥ 0)
    let e := { e with isRollback := true, waitAck := false, signature := txnSignatureSyncRollback }
    readRollbackLoop span earlier ((txnLimboPop l earlier.reverse).complete e)

def txnLimboReadRollback (l : TxnLimbo) (lsn : Int) : Option TxnLimbo := do
  assertThat (l.ownerId ≠ replicaIdNil ∨ l.queue.isEmpty = true)
  readRollbackLoop (rollbackSpan lsn l.queue.reverse) l.queue.reverse l

def txnLimboReadPromote (l : TxnLimbo) (replicaId : Nat) (lsn : Int) : Option TxnLimbo := do
  let l ← txnLimboReadConfirm l lsn
  let l ← txnLimboReadRollback l (lsn + 1)
  assertThat (l.queue.isEmpty = true)
  return { l with ownerId := replicaId, confirmedLsn := 0 }

def txnLimboReadDemote (l : TxnLimbo) (lsn : Int) : Option TxnLimbo :=
  txnLimboReadPromote l replicaIdNil lsn

/-- The switch at the end of `txn_limbo_process`. -/
def txnLimboRead (l : TxnLimbo) (req : SynchroRequest) (lsn : Int) : Option TxnLimbo :=
  match req.type with
  | .confirm => txnLimboReadConfirm l lsn
  | .rollback => txnLimboReadRollback l lsn
  | .promote => txnLimboReadPromote l req.originId lsn
  | .demote => txnLimboReadDemote l lsn

/-- `txn_limbo_process` for a request that has passed the check of its term. -/
def txnLimboApply (l : TxnLimbo) (req : SynchroRequest) : Option TxnLimbo :=
  if req.replicaId = replicaIdNil then do
    assertThat (req.lsn = 0 ∧ req.type.isPromoteRequest = true)
    txnLimboRead l req req.lsn
  else if req.replicaId ≠ l.ownerId then
    if req.type.isPromoteRequest = false then some l else txnLimboRead l req 0
  else txnLimboRead l req req.lsn

def txnLimboProcess (l : TxnLimbo) (req : SynchroRequest) : Option TxnLimbo := do
  assertThat (req.originId < vclockMax)
  if txnLimboReplicaTerm l req.originId < req.term then
    let promoteTermMap ← vclockFollow l.promoteTermMap req.originId (int64 req.term)
    let promoteGreatestTerm :=
      if req.term > l.promoteGreatestTerm then req.term else l.promoteGreatestTerm
    txnLimboApply
      { l with promoteTermMap := promoteTermMap, promoteGreatestTerm := promoteGreatestTerm } req
  else if req.type.isPromoteRequest = true ∧ l.promoteGreatestTerm > 1 then some l
  else txnLimboApply l req

/-- Every transaction of the queue is written, and the synchronous ones have increasing LSNs. -/
structure Written (queue : List LimboEntry) : Prop where
  signature : ∀ e ∈ queue, 0 ≤ e.signature
  lsn_pos : ∀ e ∈ queue, e.waitAck = true → 0 < e.lsn
  increasing : queue.Pairwise fun a b => a.waitAck = true → b.waitAck = true → a.lsn < b.lsn

structure TxnLimbo.SameOwner (l l' : TxnLimbo) : Prop where
  owner_eq : l'.ownerId = l.ownerId
  map_eq : l'.promoteTermMap = l.promoteTermMap
  greatest_eq : l'.promoteGreatestTerm = l.promoteGreatestTerm
  confirmed_eq : l'.confirmedLsn = l.confirmedLsn

variable {l l' l'' : TxnLimbo} {e : LimboEntry} {rest queue : List LimboEntry} {lsn : Int}

lemma TxnLimbo.SameOwner.trans (h : l.SameOwner l') (h' : l'.SameOwner l'') : l.SameOwner l'' :=
  ⟨h'.owner_eq.trans h.owner_eq, h'.map_eq.trans h.map_eq, h'.greatest_eq.trans h.greatest_eq,
    h'.confirmed_eq.trans h.confirmed_eq⟩

lemma Written.suffix (h : Written queue) (hs : rest <:+ queue) : Written rest :=
  ⟨fun e he => h.signature e (hs.mem he), fun e he => h.lsn_pos e (hs.mem he),
    h.increasing.sublist hs.sublist⟩

lemma written_nil : Written [] := ⟨fun _ hd => (nomatch hd), fun _ hd => (nomatch hd), Pairwise.nil⟩

/-- A queue that starts with a synchronous transaction above the LSN holds no other. -/
def StartsAbove (lsn : Int) (queue : List LimboEntry) : Prop :=
  ∀ e ∈ queue.head?, e.waitAck = true ∧ lsn < e.lsn

/-- Confirming stops at the first synchronous transaction above the LSN. -/
lemma readConfirmLoop_spec (hw : Written queue) (hq : l.queue = queue) :
    Ensures (readConfirmLoop lsn queue l) fun l' =>
      l.SameOwner l' ∧ l'.queue <:+ queue ∧ StartsAbove lsn l'.queue := by
  induction queue generalizing l with
  | nil =>
    refine ensures_some ⟨⟨rfl, rfl, rfl, rfl⟩, hq ▸ suffix_refl _, ?_⟩
    rw [hq]
    exact fun e he => nomatch he
  | cons e rest ih =>
    have hsi : 0 ≤ e.signature := hw.signature e mem_cons_self
    have hk : ¬ (e.waitAck = false ∧ e.signature = txnSignatureUnknown) := by
      rintro ⟨-, hu⟩
      rw [hu] at hsi
      exact absurd hsi (by decide)
    unfold readConfirmLoop
    rw [if_neg hk]
    split
    · rename_i hst
      refine ensures_some ⟨⟨rfl, rfl, rfl, rfl⟩, hq ▸ suffix_refl _, ?_⟩
      rw [hq]
      intro d hd
      obtain rfl : e = d := Option.some.inj hd
      have hp := hw.lsn_pos e mem_cons_self hst.1
      exact ⟨hst.1, by omega⟩
    · refine ensures_assert hsi ((ih (hw.suffix (suffix_cons e rest)) rfl).mono ?_)
      rintro l' ⟨hs, hsu, hsr⟩
      exact ⟨⟨hs.owner_eq, hs.map_eq, hs.greatest_eq, hs.confirmed_eq⟩,
        hsu.trans (suffix_cons e rest), hsr⟩

lemma readConfirm_spec (hw : Written l.queue)
    (ho : l.ownerId ≠ replicaIdNil ∨ l.queue.isEmpty = true) (lsn : Int) :
    Ensures (txnLimboReadConfirm l lsn) fun l' =>
      l.SameOwner l' ∧ l'.queue <:+ l.queue ∧ StartsAbove lsn l'.queue :=
  ensures_assert ho (readConfirmLoop_spec hw rfl)

/-- When the synchronous transactions all are to be rolled back and the queue starts with one,
so is the whole queue. -/
lemma rollbackSpan_eq_length (hls : ∀ e ∈ queue, e.waitAck = true → lsn ≤ e.lsn)
    (hl : ∀ e ∈ queue.getLast?, e.waitAck = true) : rollbackSpan lsn queue = queue.length := by
  induction queue with
  | nil => rfl
  | cons e earlier ih =>
    have hr : rollbackSpan lsn earlier = earlier.length := by
      refine ih (fun d hd => hls d (mem_cons_of_mem _ hd)) ?_
      intro d hd
      refine hl d ?_
      cases earlier with
      | nil => exact nomatch hd
      | cons d' earlier => simpa [getLast?_cons_cons] using hd
    unfold rollbackSpan
    cases he : e.waitAck with
    | true =>
      have hle := hls e mem_cons_self he
      simp [hr, Int.not_lt.mpr hle]
    | false =>
      cases earlier with
      | nil => exact absurd (hl e rfl) (by simp [he])
      | cons d earlier => simp [hr]

lemma readRollbackLoop_spec (hsi : ∀ e ∈ queue, 0 ≤ e.signature) (hq : l.queue = queue.reverse) :
    Ensures (readRollbackLoop queue.length queue l) fun l' => l.SameOwner l' ∧ l'.queue = [] := by
  induction queue generalizing l with
  | nil => exact ensures_some ⟨⟨rfl, rfl, rfl, rfl⟩, hq⟩
  | cons e earlier ih =>
    refine ensures_assert (hsi e mem_cons_self) ?_
    refine (ih (fun d hd => hsi d (mem_cons_of_mem _ hd)) rfl).mono ?_
    rintro l' ⟨hs, hn⟩
    exact ⟨⟨hs.owner_eq, hs.map_eq, hs.greatest_eq, hs.confirmed_eq⟩, hn⟩

/-- Rolling back what a confirmation has left empties the queue. -/
lemma readRollback_spec (hw : Written l.queue)
    (ho : l.ownerId ≠ replicaIdNil ∨ l.queue.isEmpty = true) (hs : StartsAbove lsn l.queue) :
    Ensures (txnLimboReadRollback l (lsn + 1)) fun l' => l.SameOwner l' ∧ l'.queue = [] := by
  have hl : ∀ e ∈ l.queue.reverse, e.waitAck = true → lsn + 1 ≤ e.lsn := by
    intro e he ha
    have he : e ∈ l.queue := mem_reverse.mp he
    cases hq : l.queue with
    | nil =>
      rw [hq] at he
      exact nomatch he
    | cons d rest =>
      rw [hq] at he
      obtain ⟨hd, hlt⟩ := hs d (by simp [hq])
      rcases mem_cons.mp he with rfl | he
      · omega
      · have hi := hw.increasing
        rw [hq] at hi
        have hlt' := (pairwise_cons.mp hi).1 e he hd ha
        omega
  have hsp : rollbackSpan (lsn + 1) l.queue.reverse = l.queue.reverse.length := by
    refine rollbackSpan_eq_length hl ?_
    intro e he
    rw [getLast?_reverse] at he
    exact (hs e he).1
  unfold txnLimboReadRollback
  rw [hsp]
  exact ensures_assert ho (readRollbackLoop_spec
    (fun e he => hw.signature e (mem_reverse.mp he)) (reverse_reverse _).symm)

/-- The state a PROMOTE or DEMOTE leaves: nothing in the queue, and the new owner. -/
structure TxnLimbo.Claimed (l l' : TxnLimbo) (ownerId : Nat) : Prop where
  queue_eq : l'.queue = []
  owner_eq : l'.ownerId = ownerId
  confirmed_eq : l'.confirmedLsn = 0
  map_eq : l'.promoteTermMap = l.promoteTermMap
  greatest_eq : l'.promoteGreatestTerm = l.promoteGreatestTerm

lemma readPromote_spec (hw : Written l.queue)
    (ho : l.ownerId ≠ replicaIdNil ∨ l.queue.isEmpty = true) (replicaId : Nat) (lsn : Int) :
    Ensures (txnLimboReadPromote l replicaId lsn) fun l' => l.Claimed l' replicaId := by
  unfold txnLimboReadPromote
  refine ensures_bind (readConfirm_spec hw ho lsn) ?_
  rintro l₁ ⟨hs₁, hsu, hst⟩
  have ho₁ : l₁.ownerId ≠ replicaIdNil ∨ l₁.queue.isEmpty = true := by
    rcases ho with ho | he
    · exact .inl (hs₁.owner_eq ▸ ho)
    · rw [isEmpty_iff.mp he, suffix_nil] at hsu
      exact .inr (by simp [hsu])
  refine ensures_bind (readRollback_spec (hw.suffix hsu) ho₁ hst) ?_
  rintro l₂ ⟨hs₂, hn⟩
  have hs := hs₁.trans hs₂
  refine ensures_assert (by simp [hn]) (ensures_some ?_)
  exact ⟨hn, rfl, rfl, hs.map_eq, hs.greatest_eq⟩

end TarantoolStorage
