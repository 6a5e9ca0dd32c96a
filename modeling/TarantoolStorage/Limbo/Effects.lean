import TarantoolStorage.Limbo.Node
import TarantoolStorage.Limbo.Outcome

/-! What the steps of an instance can do to its limbo: sequences of the effects below. -/
namespace TarantoolStorage

open Checked Relation List TarantoolStorage.Fiber LimboNode LimboEntry Function

def Fiber.written? : Fiber → Option (Nat × Int)
  | .written txn lsn => some (txn, lsn)
  | _ => none

def Fiber.txn? : Fiber → Option Nat
  | .written txn _ | .failed txn | .rolledBack txn => some txn
  | .confirmed _ waiter => waiter

def JournalEntry.txn? : JournalEntry → Option Nat
  | .txn id _ => some id
  | _ => none

/-- The transaction whose fiber sleeps until the write is answered. -/
def JournalEntry.sleeper? : JournalEntry → Option Nat
  | .txn id blocking => if blocking = true then some id else none
  | .synchro _ => none
  | .confirm _ waiter => waiter
  | .rollback _ id => some id

/-- The transactions whose fibers are about to assign the LSNs they were written with. -/
def LimboNode.written (s : LimboNode) : List (Nat × Int) := s.ready.filterMap written?

/-- The transactions that are sent to the WAL, or written without their fibers having run. -/
def LimboNode.inFlight (s : LimboNode) : List Nat :=
  s.written.map Prod.fst ++ s.journal.filterMap JournalEntry.txn?

def LimboNode.fibers (s : LimboNode) : List Nat :=
  s.ready.filterMap txn? ++ s.journal.filterMap JournalEntry.sleeper? ++ s.waiting

def LimboEntry.slot (e : LimboEntry) : Nat × Int := (e.txn, e.lsn)

def LimboNode.slots (s : LimboNode) : List (Nat × Int) := s.limbo.queue.map LimboEntry.slot

def LimboEntry.sign (signature : Int) (e : LimboEntry) : LimboEntry :=
  { e with signature := signature }

def LimboEntry.fail (res : Int) (e : LimboEntry) : LimboEntry :=
  { e with signature := res, isPrepared := false }

def LimboEntry.assign (lsn : Int) (e : LimboEntry) : LimboEntry := { e with lsn := lsn }

/-- The running fiber belongs to a transaction of this instance. -/
def LimboNode.Local (s : LimboNode) (txn : Nat) : Prop :=
  txn ∉ s.fibers ∧ txn < s.nextTxn ∧ ∀ p ∈ s.slots, p.1 = txn → s.limbo.ownerId = s.instanceId

/-- What comes in from clients and from other instances. Each makes up a step of its own. -/
inductive LimboNode.Input (s : LimboNode) : LimboNode → Prop
  /-- A transaction does not enter the limbo. -/
  | skip : Input s { s with nextTxn := s.nextTxn + 1 }
  /-- A transaction of this instance enters the limbo and is sent to the WAL. -/
  | push {waitAck : Bool} (hin : s.isInRollback = false)
      (howner : s.limbo.ownerId = s.instanceId) (hnil : s.limbo.ownerId ≠ replicaIdNil)
      (hhead : waitAck = true ∨ s.limbo.queue ≠ []) :
      Input s { s with
        nextTxn := s.nextTxn + 1
        limbo := { s.limbo with
          queue := s.limbo.queue ++ [new s.nextTxn waitAck]
          len := s.limbo.len + 1 }
        ackCount := update s.ackCount s.nextTxn 0
        journal := s.journal ++ [.txn s.nextTxn true] }
  /-- One of the limbo's owner, another instance, enters and is sent to the WAL. -/
  | pushRemote {waitAck : Bool} {lsn : Int} (hin : s.isInRollback = false)
      (howner : s.limbo.ownerId ≠ s.instanceId) (hnil : s.limbo.ownerId ≠ replicaIdNil)
      (hhead : waitAck = true ∨ s.limbo.queue ≠ [])
      (hlatch : ∀ w ∈ s.journal, w.originId? ≠ some s.limbo.ownerId)
      (hlsn : waitAck = true ∧ 0 < lsn ∧ (∀ e ∈ s.limbo.queue, e.lsn < lsn) ∨
        waitAck = false ∧ lsn = -1) :
      Input s { s with
        nextTxn := s.nextTxn + 1
        limbo := { s.limbo with
          queue := s.limbo.queue ++ [(new s.nextTxn waitAck).assign lsn]
          len := s.limbo.len + 1 }
        ackCount := update s.ackCount s.nextTxn 0
        journal := s.journal ++ [.txn s.nextTxn false] }
  /-- The WAL takes no writes: the transaction leaves the limbo at once. -/
  | reject {e : LimboEntry} {limbo : TxnLimbo} (htxn : e.txn = s.nextTxn)
      (hcommit : e.isCommit = false)
      (hlsn : e.lsn = -1 ∨ s.limbo.ownerId ≠ s.instanceId ∧ 0 < e.lsn)
      (hlimbo : limbo = { s.limbo with
        completed := s.limbo.completed ++ [{ e with isRollback := true }]
        rollbackCount := s.limbo.rollbackCount + 1 }) :
      Input s { s with
        nextTxn := s.nextTxn + 1
        limbo := limbo
        ackCount := update s.ackCount s.nextTxn 0 }
  /-- The request of another instance is written, and processed. -/
  | process {req : SynchroRequest} {rest : List JournalEntry} {limbo : TxnLimbo}
      (hj : s.journal = .synchro req :: rest) (hsent : req.Sent s.instanceId)
      (hinst : s.instanceId ≠ replicaIdNil) (hp : txnLimboProcess s.limbo req = some limbo) :
      Input s { s with journal := rest, limbo := limbo }

inductive LimboNode.Effect (s : LimboNode) : LimboNode → Prop
  | wait {txn : Nat} (hfresh : s.Local txn)
      (h : ∀ e ∈ s.limbo.queue, e.txn = txn → 0 < e.lsn ∨ e.waitAck = false) :
      Effect s { s with waiting := s.waiting ++ [txn] }
  | unwait {txn : Nat} : Effect s { s with waiting := s.waiting.erase txn }
  | tune {quorum : Int} (h : 0 < quorum) : Effect s { s with quorum := quorum }
  | request {req : SynchroRequest} (hsent : req.Sent s.instanceId) :
      Effect s { s with journal := s.journal ++ [.synchro req] }
  | written {txn : Nat} {blocking : Bool} {lsn signature : Int} {rest : List JournalEntry}
      (hj : s.journal = .txn txn blocking :: rest) (hlsn : s.walLsn < lsn) (hsig : 0 ≤ signature) :
      Effect s { s with
        journal := rest
        limbo := s.limbo.update txn (sign signature)
        walLsn := if blocking = true then lsn else s.walLsn
        ready := if blocking = true then s.ready ++ [.written txn lsn] else s.ready }
  | confirmDone {confirmLsn lsn : Int} {waiter : Option Nat} {rest : List JournalEntry}
      (hj : s.journal = .confirm confirmLsn waiter :: rest) (hlsn : s.walLsn < lsn) :
      Effect s { s with
        journal := rest, walLsn := lsn, ready := s.ready ++ [.confirmed confirmLsn waiter] }
  | rollbackDone {rollbackLsn lsn : Int} {txn : Nat} {rest : List JournalEntry}
      (hj : s.journal = .rollback rollbackLsn txn :: rest) (hlsn : s.walLsn < lsn) :
      Effect s { s with
        journal := rest, walLsn := lsn, ready := s.ready ++ [.rolledBack txn] }
  /-- The last write fails. -/
  | fail {txn : Nat} {res : Int} {kept : List JournalEntry}
      (hj : s.journal = kept ++ [.txn txn true])
      (hres : res = journalEntryErrIo ∨ res = journalEntryErrCascade) :
      Effect s { s with
        journal := kept
        limbo := s.limbo.update txn (LimboEntry.fail res)
        ready := s.ready ++ [.failed txn] }
  | failRemote {txn : Nat} {res : Int} {kept : List JournalEntry} {queue : List LimboEntry}
      {e : LimboEntry} (hj : s.journal = kept ++ [.txn txn false])
      (hq : s.limbo.queue = queue ++ [e]) (htxn : e.txn = txn) :
      Effect s { s with
        journal := kept
        limbo := (txnLimboPop s.limbo queue).complete { e.fail res with isRollback := true } }
  | failPlain {txn : Nat} {kept : List JournalEntry} (hj : s.journal = kept ++ [.txn txn false])
      (hplain : ∀ e ∈ s.limbo.queue, e.txn ≠ txn) : Effect s { s with journal := kept }
  | failSynchro {req : SynchroRequest} {kept : List JournalEntry}
      (hj : s.journal = kept ++ [.synchro req]) : Effect s { s with journal := kept }
  /-- A fiber runs that has nothing to assign or abort. -/
  | pop {txn : Nat} {fiber : Fiber} {rest : List Fiber} (hr : s.ready = fiber :: rest)
      (hfiber : (∃ lsn, fiber = .written txn lsn) ∧
          (∀ e ∈ s.limbo.queue, e.txn = txn → e.waitAck = false) ∨
        fiber = .failed txn ∧ ∀ e ∈ s.limbo.queue, e.txn ≠ txn) :
      Effect s { s with ready := rest }
  /-- A fiber assigns the LSN, which is also the acknowledgement of this instance. -/
  | assign {txn : Nat} {lsn : Int} {rest : List Fiber} (hr : s.ready = .written txn lsn :: rest)
      (howner : s.limbo.ownerId = s.instanceId)
      (hentry : ∃ e ∈ s.limbo.queue, e.txn = txn ∧ e.waitAck = true) :
      Effect s { s with
        ready := rest
        limbo := s.limbo.update txn (LimboEntry.assign lsn)
        ackCount := update s.ackCount txn (vclockCount s.vclock lsn)
        acked := s.acked ++ [(s.limbo.ownerId, lsn)] }
  | abort {txn : Nat} {rest : List Fiber} {queue : List LimboEntry} {e : LimboEntry}
      (hr : s.ready = .failed txn :: rest) (hq : s.limbo.queue = queue ++ [e])
      (htxn : e.txn = txn) :
      Effect s { s with
        ready := rest
        limbo := (txnLimboPop s.limbo queue).complete { e with isRollback := true } }
  | confirm {lsn : Int} {waiter : Option Nat} {rest : List Fiber} {limbo : TxnLimbo}
      (hr : s.ready = .confirmed lsn waiter :: rest)
      (hc : txnLimboReadConfirm s.limbo lsn = some limbo) :
      Effect s { s with ready := rest, limbo := limbo }
  | rollBack {txn : Nat} {rest : List Fiber} {kept back : List LimboEntry}
      (hr : s.ready = .rolledBack txn :: rest) (hq : s.limbo.queue = kept ++ back)
      (hdone : ∀ e ∈ back, e.isDone = false) (hkept : kept = [] ∨ ∃ e ∈ back.head?, e.txn = txn) :
      Effect s { s with
        ready := rest
        isInRollback := false
        limbo := s.limbo.rollBackEnd txnSignatureQuorumTimeout kept back }
  | count {replicaId : Nat} {lsn confirmLsn : Int} {vclock : Vclock} {ackCount : Nat → Int}
      (howner : s.limbo.ownerId = s.instanceId)
      (hlast : s.acked.getLast? = some (replicaId, lsn)) (hin : s.isInRollback = false)
      (hne : lsn ≠ vclockGet s.vclock replicaId) (hf : s.follow replicaId lsn = some vclock)
      (hl : ackLoop s.quorum (vclockGet s.vclock replicaId) lsn s.limbo.queue s.ackCount (-1) =
        some (ackCount, confirmLsn)) :
      Effect s { s with vclock := vclock, ackCount := ackCount }
  | writeConfirm {lsn : Int} {waiter : Option Nat} (hgt : s.limbo.confirmedLsn < lsn)
      (hin : s.isInRollback = false) (hfresh : ∀ txn ∈ waiter, s.Local txn)
      (hquorum : ∃ e ∈ s.limbo.queue, e.waitAck = true ∧ e.lsn = lsn ∧
        s.quorum ≤ s.ackCount e.txn) :
      Effect s { s with
        limbo := { s.limbo with confirmedLsn := lsn }
        journal := s.journal ++ [.confirm lsn waiter]
        confirms := s.confirms ++ [(lsn, s.quorum)] }
  | writeRollback {txn : Nat} {e : LimboEntry} {rest : List LimboEntry}
      (hq : s.limbo.queue = e :: rest) (htxn : e.txn = txn) (hgt : s.limbo.confirmedLsn < e.lsn)
      (hpos : 0 < e.lsn) (hin : s.isInRollback = false) (hfresh : s.Local txn) :
      Effect s { s with isInRollback := true, journal := s.journal ++ [.rollback e.lsn txn] }

/-- Transactions have increasing numbers. The queue, the WAL, the woken fibers and the LSNs are in
this order. -/
structure LimboNode.Ordered (s : LimboNode) : Prop where
  ids : s.slots.Pairwise fun a b => a.1 < b.1
  id_lt : ∀ p ∈ s.slots, p.1 < s.nextTxn
  flight : s.inFlight.Pairwise (· < ·)
  flight_lt : ∀ txn ∈ s.inFlight, txn < s.nextTxn
  lsn : ∀ p ∈ s.slots, p.2 = -1 ∨ 0 < p.2
  increasing : s.slots.Pairwise fun a b => a.2 ≠ -1 → b.2 ≠ -1 → a.2 < b.2
  unassigned : s.limbo.ownerId = s.instanceId →
    ∀ txn ∈ s.inFlight, ∀ p ∈ s.slots, txn ≤ p.1 → p.2 = -1
  wal_nonneg : 0 ≤ s.walLsn
  lsn_le : s.limbo.ownerId = s.instanceId → ∀ p ∈ s.slots, p.2 ≤ s.walLsn
  written_le : ∀ w ∈ s.written, 0 < w.2 ∧ w.2 ≤ s.walLsn
  written_lt : s.limbo.ownerId = s.instanceId → ∀ w ∈ s.written, ∀ p ∈ s.slots, p.2 < w.2
  written_increasing : s.written.Pairwise fun a b => a.2 < b.2
  unclaimed : s.limbo.ownerId = replicaIdNil → s.slots = []
  confirmed_nonneg : 0 ≤ s.limbo.confirmedLsn

/-- The fiber of a transaction is in one place only, and those of other instances have none. -/
structure LimboNode.Fibered (s : LimboNode) : Prop where
  nodup : s.fibers.Nodup
  lt : ∀ txn ∈ s.fibers, txn < s.nextTxn
  foreign : s.limbo.ownerId ≠ s.instanceId → ∀ p ∈ s.slots, p.1 ∉ s.fibers
  instance_ne : s.instanceId ≠ replicaIdNil
  instance_lt : s.instanceId < vclockMax
  sent : ∀ req, .synchro req ∈ s.journal → req.Sent s.instanceId

variable {s s' : LimboNode}

/-- The queue and the transactions in flight lose members. -/
structure LimboNode.Shrinks (s s' : LimboNode) : Prop where
  slots : s'.slots.Sublist s.slots := by exact Sublist.refl _
  flight : s'.inFlight.Sublist s.inFlight := by exact Sublist.refl _
  written : s'.written.Sublist s.written := by exact Sublist.refl _
  instance_eq : s'.instanceId = s.instanceId := by rfl
  same_owner : s'.limbo.ownerId = s.limbo.ownerId ∨ s'.slots = [] := by exact .inl rfl
  confirmed : 0 ≤ s.limbo.confirmedLsn → 0 ≤ s'.limbo.confirmedLsn := by exact id
  next : s.nextTxn ≤ s'.nextTxn := by exact Nat.le_refl _
  wal : s.walLsn ≤ s'.walLsn := by exact Int.le_refl _

lemma LimboNode.Shrinks.owner (hs : s.Shrinks s') {p : Nat × Int} (hp : p ∈ s'.slots) :
    s'.limbo.ownerId = s.limbo.ownerId :=
  hs.same_owner.resolve_right (ne_nil_of_mem hp)

lemma LimboNode.Shrinks.local (hs : s.Shrinks s') {p : Nat × Int} (hp : p ∈ s'.slots)
    (ho : s'.limbo.ownerId = s'.instanceId) : s.limbo.ownerId = s.instanceId := by
  rw [← hs.owner hp, ho, hs.instance_eq]

lemma LimboNode.Ordered.shrink (h : s.Ordered) (hs : s.Shrinks s') : s'.Ordered where
  ids := h.ids.sublist hs.slots
  id_lt := fun p hp => (h.id_lt p (hs.slots.mem hp)).trans_le hs.next
  flight := h.flight.sublist hs.flight
  flight_lt := fun txn ht => (h.flight_lt txn (hs.flight.mem ht)).trans_le hs.next
  lsn := fun p hp => h.lsn p (hs.slots.mem hp)
  increasing := h.increasing.sublist hs.slots
  unassigned := fun ho txn ht p hp =>
    h.unassigned (hs.local hp ho) txn (hs.flight.mem ht) p (hs.slots.mem hp)
  wal_nonneg := h.wal_nonneg.trans hs.wal
  lsn_le := fun ho p hp => (h.lsn_le (hs.local hp ho) p (hs.slots.mem hp)).trans hs.wal
  written_le := fun w hw => (h.written_le w (hs.written.mem hw)).imp id fun hl => hl.trans hs.wal
  written_lt := fun ho w hw p hp =>
    h.written_lt (hs.local hp ho) w (hs.written.mem hw) p (hs.slots.mem hp)
  written_increasing := h.written_increasing.sublist hs.written
  unclaimed := fun hn => eq_nil_iff_forall_not_mem.mpr fun p hp => by
    have hm := hs.slots.mem hp
    rw [h.unclaimed ((hs.owner hp).symm.trans hn)] at hm
    cases hm
  confirmed_nonneg := hs.confirmed h.confirmed_nonneg

lemma slots_update (l : TxnLimbo) (txn : Nat) {f : LimboEntry → LimboEntry}
    (hf : ∀ e, (f e).slot = e.slot) :
    (l.update txn f).queue.map LimboEntry.slot = l.queue.map LimboEntry.slot := by
  simp only [TxnLimbo.update, List.map_map]
  refine List.map_congr_left fun e _ => ?_
  by_cases he : e.txn = txn <;> simp [he, hf]

/-- The first of the transactions in flight gets the LSN it was written with. -/
structure LimboNode.Assigns (s s' : LimboNode) (txn : Nat) (lsn : Int) : Prop where
  slots : s'.slots = s.slots.map fun p => if p.1 = txn then (txn, lsn) else p
  flight : s.inFlight = txn :: s'.inFlight
  written : s.written = (txn, lsn) :: s'.written
  owner : s.limbo.ownerId = s.instanceId
  instance_eq : s'.instanceId = s.instanceId := by rfl
  owner_eq : s'.limbo.ownerId = s.limbo.ownerId := by rfl
  next : s'.nextTxn = s.nextTxn := by rfl
  wal : s'.walLsn = s.walLsn := by rfl
  confirmed : s'.limbo.confirmedLsn = s.limbo.confirmedLsn := by rfl

/-- Those behind the first transaction in flight have no LSN yet. -/
lemma LimboNode.Ordered.assign {txn : Nat} {lsn : Int} (h : s.Ordered)
    (ha : s.Assigns s' txn lsn) : s'.Ordered := by
  have ho := ha.owner
  have hm : txn ∈ s.inFlight := by simp [ha.flight]
  have hl := pairwise_cons.mp (ha.flight ▸ h.flight)
  have hw : (txn, lsn) ∈ s.written := by simp [ha.written]
  set g : Nat × Int → Nat × Int := fun p => if p.1 = txn then (txn, lsn) else p with hg
  have hs : s'.slots = s.slots.map g := ha.slots
  have hfs (p : Nat × Int) : (g p).1 = p.1 := by
    by_cases hp : p.1 = txn <;> simp [hg, hp]
  have hsu : s'.written.Sublist s.written := by
    rw [ha.written]
    exact sublist_cons_self _ _
  have hf (t : Nat) (ht : t ∈ s'.inFlight) : t ∈ s.inFlight := by
    rw [ha.flight]
    exact mem_cons_of_mem _ ht
  refine ⟨?_, ?_, hl.2, ?_, ?_, ?_, ?_, ha.wal ▸ h.wal_nonneg, ?_, ?_, ?_,
    h.written_increasing.sublist hsu, ?_, ha.confirmed ▸ h.confirmed_nonneg⟩
  · rw [hs, pairwise_map]
    simpa only [hfs] using h.ids
  · rw [hs, ha.next, forall_mem_map]
    simpa only [hfs] using h.id_lt
  · intro t ht
    rw [ha.next]
    exact h.flight_lt t (hf t ht)
  · rw [hs, forall_mem_map]
    intro q hq
    by_cases hqt : q.1 = txn
    · simpa only [hg, hqt, if_true] using .inr (h.written_le _ hw).1
    · simpa only [hg, hqt, if_false] using h.lsn q hq
  · rw [hs, pairwise_map]
    refine (h.ids.and h.increasing).imp_of_mem ?_
    rintro a b ha hb ⟨hlt, hi⟩
    by_cases hat : a.1 = txn
    · -- the entries behind have larger numbers, so their LSNs are still to come
      have hbt : b.1 ≠ txn := by omega
      have hn := h.unassigned ho txn hm b hb (by omega)
      simp [hg, hbt, hn]
    · by_cases hbt : b.1 = txn
      · have hlt := h.written_lt ho _ hw a ha
        simp only [hg, hat, hbt, if_true, if_false]
        exact fun _ _ => hlt
      · simpa only [hg, hat, hbt, if_false] using hi
  · rw [hs]
    simp only [forall_mem_map]
    intro _ t ht q hq hle
    have hlt := hl.1 t ht
    rw [hfs] at hle
    have hqt : q.1 ≠ txn := by omega
    simpa only [hg, hqt, if_false] using h.unassigned ho t (hf t ht) q hq hle
  · rw [hs, ha.wal, forall_mem_map]
    intro _ q hq
    by_cases hqt : q.1 = txn
    · simpa only [hg, hqt, if_true] using (h.written_le _ hw).2
    · simpa only [hg, hqt, if_false] using h.lsn_le ho q hq
  · rw [ha.wal]
    exact fun w hwr => h.written_le w (hsu.mem hwr)
  · rw [hs]
    simp only [forall_mem_map]
    intro _ w hwr q hq
    have hi := (pairwise_cons.mp (ha.written ▸ h.written_increasing)).1 w hwr
    by_cases hqt : q.1 = txn
    · simpa only [hg, hqt, if_true] using hi
    · simpa only [hg, hqt, if_false] using h.written_lt ho w (hsu.mem hwr) q hq
  · intro hni
    rw [hs, h.unclaimed (ha.owner_eq.symm.trans hni), map_nil]

/-- A new transaction gets the next number and the last place. -/
structure LimboNode.Pushes (s s' : LimboNode) (lsn : Int) : Prop where
  slots : s'.slots = s.slots ++ [(s.nextTxn, lsn)]
  flight : s'.inFlight = s.inFlight ++ [s.nextTxn]
  claimed : s.limbo.ownerId ≠ replicaIdNil
  lsn_ok : lsn = -1 ∨ s.limbo.ownerId ≠ s.instanceId ∧ 0 < lsn ∧ ∀ p ∈ s.slots, p.2 < lsn
  written : s'.written = s.written := by rfl
  instance_eq : s'.instanceId = s.instanceId := by rfl
  owner_eq : s'.limbo.ownerId = s.limbo.ownerId := by rfl
  next : s'.nextTxn = s.nextTxn + 1 := by rfl
  wal : s'.walLsn = s.walLsn := by rfl
  confirmed : s'.limbo.confirmedLsn = s.limbo.confirmedLsn := by rfl

lemma LimboNode.Ordered.push {lsn : Int} (h : s.Ordered) (hp : s.Pushes s' lsn) : s'.Ordered := by
  have hne : lsn = -1 ∨ 0 < lsn := hp.lsn_ok.imp id fun hl => hl.2.1
  have hlo : s'.limbo.ownerId = s'.instanceId → s.limbo.ownerId = s.instanceId ∧ lsn = -1 := by
    rw [hp.owner_eq, hp.instance_eq]
    exact fun ho => ⟨ho, hp.lsn_ok.resolve_right fun hl => hl.1 ho⟩
  refine ⟨?_, ?_, ?_, ?_, ?_, ?_, ?_, hp.wal ▸ h.wal_nonneg, ?_, ?_, ?_, ?_, ?_,
    hp.confirmed ▸ h.confirmed_nonneg⟩
  · rw [hp.slots]
    exact pairwise_append.mpr ⟨h.ids, pairwise_singleton _ _, by simpa using h.id_lt⟩
  · rw [hp.slots, hp.next, forall_mem_append, forall_mem_singleton]
    exact ⟨fun p hp => Nat.lt_succ_of_lt (h.id_lt p hp), Nat.lt_succ_self _⟩
  · rw [hp.flight]
    exact pairwise_append.mpr ⟨h.flight, pairwise_singleton _ _, by simpa using h.flight_lt⟩
  · rw [hp.flight, hp.next, forall_mem_append, forall_mem_singleton]
    exact ⟨fun t ht => Nat.lt_succ_of_lt (h.flight_lt t ht), Nat.lt_succ_self _⟩
  · rw [hp.slots, forall_mem_append, forall_mem_singleton]
    exact ⟨h.lsn, hne⟩
  · rw [hp.slots]
    refine pairwise_append.mpr ⟨h.increasing, pairwise_singleton _ _, ?_⟩
    intro a ha b hb _ hb'
    rw [mem_singleton.mp hb] at hb' ⊢
    exact (hp.lsn_ok.resolve_left hb').2.2 a ha
  · intro ho t ht p hpm hle
    obtain ⟨ho, hno⟩ := hlo ho
    rw [hp.slots] at hpm
    rw [hp.flight] at ht
    rcases mem_append.mp hpm with hpm | hpm
    · rcases mem_append.mp ht with ht | ht
      · exact h.unassigned ho t ht p hpm hle
      · have hlt := h.id_lt p hpm
        rw [mem_singleton.mp ht] at hle
        omega
    · rw [mem_singleton.mp hpm]
      exact hno
  · intro ho
    obtain ⟨ho, hno⟩ := hlo ho
    rw [hp.slots, hp.wal, forall_mem_append, forall_mem_singleton]
    have hnn := h.wal_nonneg
    exact ⟨h.lsn_le ho, by omega⟩
  · rw [hp.written, hp.wal]
    exact h.written_le
  · intro ho w hw
    obtain ⟨ho, hno⟩ := hlo ho
    rw [hp.written] at hw
    have hpo := (h.written_le w hw).1
    rw [hp.slots, forall_mem_append, forall_mem_singleton]
    exact ⟨h.written_lt ho w hw, by omega⟩
  · rw [hp.written]
    exact h.written_increasing
  · exact fun hn => absurd (hp.owner_eq.symm.trans hn) hp.claimed

/-- The first write of a transaction of this instance is answered: its LSN is above all those
before it. -/
structure LimboNode.Wakes (s s' : LimboNode) (txn : Nat) (lsn : Int) : Prop where
  slots : s'.slots = s.slots
  flight : s'.inFlight = s.inFlight
  written : s'.written = s.written ++ [(txn, lsn)]
  lsn_gt : s.walLsn < lsn
  instance_eq : s'.instanceId = s.instanceId := by rfl
  owner_eq : s'.limbo.ownerId = s.limbo.ownerId := by rfl
  next : s'.nextTxn = s.nextTxn := by rfl
  wal : s'.walLsn = lsn := by rfl
  confirmed : s'.limbo.confirmedLsn = s.limbo.confirmedLsn := by rfl

lemma LimboNode.Ordered.wake {txn : Nat} {lsn : Int} (h : s.Ordered)
    (hw : s.Wakes s' txn lsn) : s'.Ordered := by
  have hn := h.wal_nonneg
  have hl := hw.lsn_gt
  have hwa := hw.wal
  refine ⟨hw.slots ▸ h.ids, ?_, hw.flight ▸ h.flight, ?_, hw.slots ▸ h.lsn,
    hw.slots ▸ h.increasing, ?_, by omega, ?_, ?_, ?_, ?_, ?_,
    hw.confirmed ▸ h.confirmed_nonneg⟩
  · rw [hw.slots, hw.next]
    exact h.id_lt
  · rw [hw.flight, hw.next]
    exact h.flight_lt
  · rw [hw.owner_eq, hw.instance_eq, hw.flight, hw.slots]
    exact h.unassigned
  · intro ho p hp
    rw [hw.owner_eq, hw.instance_eq] at ho
    rw [hw.slots] at hp
    have hle := h.lsn_le ho p hp
    omega
  · rw [hw.written, forall_mem_append, forall_mem_singleton]
    refine ⟨fun w hw => ?_, by omega, by omega⟩
    have hle := h.written_le w hw
    exact ⟨hle.1, by omega⟩
  · intro ho
    rw [hw.owner_eq, hw.instance_eq] at ho
    rw [hw.written, hw.slots, forall_mem_append, forall_mem_singleton]
    refine ⟨h.written_lt ho, fun p hp => ?_⟩
    have hle := h.lsn_le ho p hp
    omega
  · rw [hw.written]
    refine pairwise_append.mpr ⟨h.written_increasing, pairwise_singleton _ _, ?_⟩
    intro w hw v hv
    rw [mem_singleton.mp hv]
    have hle := h.written_le w hw
    omega
  · rw [hw.owner_eq, hw.slots]
    exact h.unclaimed

/-- Some entries leave the queue, and its owner stays. -/
def TxnLimbo.Thins (l l' : TxnLimbo) : Prop :=
  l'.queue.Sublist l.queue ∧ l'.ownerId = l.ownerId ∧ l'.confirmedLsn = l.confirmedLsn

/-- The limbo is emptied and handed over to the origin of the request, or to nobody. -/
def TxnLimbo.Passed (l' : TxnLimbo) (req : SynchroRequest) : Prop :=
  l'.queue = [] ∧ l'.confirmedLsn = 0 ∧ (l'.ownerId = req.originId ∨ l'.ownerId = replicaIdNil)

lemma process_some {l l' : TxnLimbo} {req : SynchroRequest}
    (h : txnLimboProcess l req = some l') : l.Thins l' ∨ l'.Passed req := by
  obtain ⟨map, greatest, -, hd⟩ := process_decision h
  cases hd with
  | ignore => exact .inl ⟨Sublist.refl _, rfl, rfl⟩
  | confirm _ _ hq _ _ _ => exact .inl ⟨hq ▸ sublist_append_right _ _, rfl, rfl⟩
  | rollBack _ _ hq _ => exact .inl ⟨hq ▸ sublist_append_left _ _, rfl, rfl⟩
  | handOver ht _ _ _ _ _ => exact .inr ⟨rfl, rfl, newOwner_or req⟩

lemma slots_nil_iff : s.slots = [] ↔ s.limbo.queue = [] := map_eq_nil_iff

lemma ready_shrinks {fiber : Fiber} {rest : List Fiber} (hr : s.ready = fiber :: rest) :
    s.Shrinks { s with ready := rest } := by
  have hw : (rest.filterMap written?).Sublist s.written := by
    rw [LimboNode.written, hr]
    exact (sublist_cons_self _ _).filterMap _
  exact { flight := (hw.map _).append_right _, written := hw }

/-- The acknowledgements and what they are counted for stay as they are. -/
structure LimboNode.SameAcks (s s' : LimboNode) : Prop where
  counts : ∀ txn < s.nextTxn, s'.ackCount txn = s.ackCount txn := by exact fun _ _ => rfl
  vclock : s'.vclock = s.vclock := by rfl
  acked : s'.acked = s.acked := by rfl
  quorum : 0 < s.quorum → 0 < s'.quorum := by exact id
  ndebug : s'.ndebug = s.ndebug := by rfl

/-- An acknowledgement is counted. -/
structure LimboNode.Counts (s s' : LimboNode) (replicaId : Nat) (lsn : Int) : Prop where
  owner : s.limbo.ownerId = s.instanceId
  last : s.acked.getLast? = some (replicaId, lsn)
  new : lsn ≠ vclockGet s.vclock replicaId
  follow : s.follow replicaId lsn = some s'.vclock
  loop : ∃ confirmLsn, ackLoop s.quorum (vclockGet s.vclock replicaId) lsn s.limbo.queue
    s.ackCount (-1) = some (s'.ackCount, confirmLsn)
  acked : s'.acked = s.acked := by rfl
  confirms : s'.confirms = s.confirms := by rfl
  quorum : s'.quorum = s.quorum := by rfl
  ndebug : s'.ndebug = s.ndebug := by rfl

/-- What an effect does to the order of the queue, the WAL and the woken fibers, and to the
acknowledgements. -/
inductive LimboNode.Shape (s s' : LimboNode) : Prop
  | shrink (h : s.Shrinks s') (ha : s.SameAcks s') (hc : s'.confirms = s.confirms)
  | push (lsn : Int) (h : s.Pushes s' lsn) (ha : s.SameAcks s') (hc : s'.confirms = s.confirms)
      (hnew : s'.ackCount s.nextTxn = 0)
  | wake (txn : Nat) (lsn : Int) (h : s.Wakes s' txn lsn) (ha : s.SameAcks s')
      (hc : s'.confirms = s.confirms)
  | assign (txn : Nat) (lsn : Int) (h : s.Assigns s' txn lsn)
      (hcount : s'.ackCount = update s.ackCount txn (vclockCount s.vclock lsn))
      (hacked : s'.acked = s.acked ++ [(s.instanceId, lsn)]) (hvclock : s'.vclock = s.vclock)
      (hc : s'.confirms = s.confirms) (hquorum : s'.quorum = s.quorum)
      (hndebug : s'.ndebug = s.ndebug)
  | count (replicaId : Nat) (lsn : Int) (h : s.Shrinks s') (hslots : s'.slots = s.slots)
      (hc : s.Counts s' replicaId lsn)
  | confirm (lsn : Int) (h : s.Shrinks s') (ha : s.SameAcks s')
      (hc : s'.confirms = s.confirms ++ [(lsn, s.quorum)])
      (hquorum : ∃ e ∈ s.limbo.queue, e.waitAck = true ∧ e.lsn = lsn ∧ s.quorum ≤ s.ackCount e.txn)

/-- The count of a new transaction does not touch those of the others. -/
lemma sameAcks_new {n : Int} :
    ∀ txn < s.nextTxn, update s.ackCount s.nextTxn n txn = s.ackCount txn :=
  fun _ h => update_of_ne (Nat.ne_of_lt h) _ _

lemma LimboNode.Input.shape (he : s.Input s') : s.Shape s' := by
  cases he with
  | skip => exact .shrink { next := Nat.le_succ _ } {} rfl
  | push _ ho hni _ =>
    refine .push (-1) { slots := ?_, flight := ?_, claimed := hni, lsn_ok := .inl rfl }
      { counts := sameAcks_new } rfl (update_self _ _ _)
    · simp [LimboNode.slots, LimboEntry.slot, new]
    · simp [LimboNode.inFlight, LimboNode.written, JournalEntry.txn?]
  | @pushRemote waitAck lsn _ ho hni _ _ hls =>
    refine .push lsn { slots := ?_, flight := ?_, claimed := hni, lsn_ok := ?_ }
      { counts := sameAcks_new } rfl (update_self _ _ _)
    · simp [LimboNode.slots, LimboEntry.slot, new, LimboEntry.assign]
    · simp [LimboNode.inFlight, LimboNode.written, JournalEntry.txn?]
    · rcases hls with ⟨-, hpo, hlt⟩ | ⟨-, hn⟩
      · exact .inr ⟨ho, hpo, by simpa [LimboNode.slots, LimboEntry.slot] using hlt⟩
      · exact .inl hn
  | reject ht hcm hls hl =>
    subst hl
    exact .shrink { next := Nat.le_succ _ } { counts := sameAcks_new } rfl
  | @process req rest limbo hj hs hi hp =>
    have hf : (LimboNode.inFlight { s with journal := rest, limbo := limbo }).Sublist
        s.inFlight := by
      simp [LimboNode.inFlight, LimboNode.written, hj, JournalEntry.txn?, filterMap_cons]
    rcases process_some hp with ⟨hq, ho, hco⟩ | ⟨hq, hco, -⟩
    · exact .shrink { slots := hq.map _, flight := hf, same_owner := .inl ho,
                      confirmed := fun hc => hco ▸ hc } {} rfl
    · have hni : LimboNode.slots { s with journal := rest, limbo := limbo } = [] :=
        slots_nil_iff.mpr hq
      exact .shrink { slots := hni ▸ nil_sublist _, flight := hf,
                      same_owner := .inr hni,
                      confirmed := fun _ => hco ▸ Int.le_refl 0 } {} rfl

lemma LimboNode.Effect.shape (he : s.Effect s') : s.Shape s' := by
  cases he with
  | wait _ _ | unwait => exact .shrink {} {} rfl
  | tune hq => exact .shrink {} { quorum := fun _ => hq } rfl
  | request _ | writeRollback _ _ _ _ _ _ =>
    refine .shrink { flight := ?_ } {} rfl
    simp [LimboNode.inFlight, LimboNode.written, JournalEntry.txn?]
  | @written txn blocking lsn signature rest hj hls hsi =>
    have hs := slots_update s.limbo txn (f := sign signature) fun _ => rfl
    cases blocking with
    | true =>
      refine .wake txn lsn { slots := hs, flight := ?_, written := ?_, lsn_gt := hls } {} rfl
      · simp [LimboNode.inFlight, LimboNode.written, hj, written?, JournalEntry.txn?]
      · simp [LimboNode.written, written?]
    | false =>
      refine .shrink { slots := ?_, flight := ?_ } {} rfl
      · simpa only [LimboNode.slots, hs] using Sublist.refl _
      · simp [LimboNode.inFlight, LimboNode.written, hj, JournalEntry.txn?]
  | confirmDone hj hls | rollbackDone hj hls =>
    refine .shrink { flight := ?_, written := ?_, wal := hls.le } {} rfl
    · simp [LimboNode.inFlight, LimboNode.written, hj, JournalEntry.txn?, written?, filterMap_cons]
    · simp [LimboNode.written, written?, filterMap_cons]
  | @fail txn res kept hj hre =>
    have hs := slots_update s.limbo txn (f := LimboEntry.fail res) fun _ => rfl
    refine .shrink { slots := ?_, flight := ?_, written := ?_ } {} rfl
    · simpa only [LimboNode.slots, hs] using Sublist.refl _
    · simp [LimboNode.inFlight, LimboNode.written, hj, written?]
    · simp [LimboNode.written, written?]
  | failRemote hj hq ht =>
    refine .shrink { slots := ?_, flight := ?_ } {} rfl
    · simp [LimboNode.slots, hq, txnLimboPop, TxnLimbo.complete]
    · simp [LimboNode.inFlight, LimboNode.written, hj]
  | failPlain hj _ | failSynchro hj =>
    refine .shrink { flight := ?_ } {} rfl
    simp [LimboNode.inFlight, LimboNode.written, hj]
  | pop hr hfi => exact .shrink (ready_shrinks hr) {} rfl
  | @assign txn lsn rest hr ho hen =>
    refine .assign txn lsn { slots := ?_, flight := ?_, written := ?_, owner := ho }
      rfl (by rw [ho]) rfl rfl rfl rfl
    · simp only [LimboNode.slots, TxnLimbo.update, List.map_map]
      refine List.map_congr_left fun e _ => ?_
      by_cases het : e.txn = txn <;> simp [het, LimboEntry.slot, LimboEntry.assign]
    · simp [LimboNode.inFlight, LimboNode.written, hr, written?]
    · simp [LimboNode.written, hr, written?]
  | abort hr hq ht =>
    refine .shrink { ready_shrinks hr with slots := ?_, same_owner := .inl rfl } {} rfl
    simp [LimboNode.slots, hq, txnLimboPop, TxnLimbo.complete]
  | confirm hr hc =>
    obtain ⟨front, rest, hq, -, -, -, rfl⟩ := readConfirm_some hc
    refine .shrink { ready_shrinks hr with slots := ?_, same_owner := .inl rfl } {} rfl
    simp [LimboNode.slots, hq, TxnLimbo.confirmFront]
  | rollBack hr hq hd hk =>
    refine .shrink { ready_shrinks hr with slots := ?_, same_owner := .inl rfl } {} rfl
    simp [LimboNode.slots, hq, TxnLimbo.rollBackEnd]
  | count ho hla hi hn hf hl =>
    exact .count _ _ {} rfl ⟨ho, hla, hn, hf, ⟨_, hl⟩, rfl, rfl, rfl, rfl⟩
  | writeConfirm hg _ _ hqu =>
    refine .confirm _ { flight := ?_, confirmed := fun hc => hc.trans hg.le } {} rfl hqu
    simp [LimboNode.inFlight, LimboNode.written, JournalEntry.txn?]

lemma LimboNode.Shape.ordered (hs : s.Shape s') (h : s.Ordered) : s'.Ordered := by
  cases hs with
  | shrink hs _ _ | count _ _ hs _ _ | confirm _ hs _ _ _ => exact h.shrink hs
  | push lsn hp _ _ _ => exact h.push hp
  | wake txn lsn hw _ _ => exact h.wake hw
  | assign txn lsn ha _ _ _ _ _ _ => exact h.assign ha

lemma LimboNode.Input.ordered (he : s.Input s') (h : s.Ordered) : s'.Ordered := he.shape.ordered h

lemma LimboNode.Effect.ordered (he : s.Effect s') (h : s.Ordered) : s'.Ordered := he.shape.ordered h

inductive LimboNode.FiberShape (s s' : LimboNode) : Prop
  | sub (h : s'.fibers.Subperm s.fibers)
  /-- The fiber of a transaction goes to sleep in a new place. -/
  | sleep (txn : Nat) (h : s'.fibers.Perm (txn :: s.fibers)) (hfresh : txn ∉ s.fibers)
      (hlt : txn < s'.nextTxn)
      (hlocal : s.limbo.ownerId ≠ s.instanceId → txn < s.nextTxn ∧ ∀ p ∈ s.slots, p.1 ≠ txn)

lemma LimboNode.Local.sleep {txn : Nat} (h : s.Local txn)
    (hpe : s'.fibers.Perm (txn :: s.fibers)) (hn : s.nextTxn ≤ s'.nextTxn) :
    s.FiberShape s' := by
  obtain ⟨hr, hl, ho⟩ := h
  exact .sleep txn hpe hr (hl.trans_le hn) fun hot => ⟨hl, fun p hp he => hot (ho p hp he)⟩

lemma LimboNode.Input.fiberShape (he : s.Input s') (h : s.Fibered) : s.FiberShape s' := by
  cases he with
  | skip | reject _ _ _ _ => exact .sub (Subperm.refl _)
  | push _ ho _ _ =>
    refine .sleep s.nextTxn ?_ (fun hm => Nat.lt_irrefl _ (h.lt _ hm)) (Nat.lt_succ_self _)
      fun hot => absurd ho hot
    simp only [fibers, filterMap_append, JournalEntry.sleeper?, filterMap_cons,
      filterMap_nil, if_true]
    grind
  | pushRemote _ _ _ _ _ _ =>
    refine .sub ?_
    simp [fibers, JournalEntry.sleeper?, Subperm.refl]
  | process hj _ _ _ =>
    refine .sub ?_
    simp [fibers, hj, JournalEntry.sleeper?, filterMap_cons, Subperm.refl]

lemma LimboNode.Effect.fiberShape (he : s.Effect s') : s.FiberShape s' := by
  cases he with
  | wait hf _ =>
    refine hf.sleep ?_ (Nat.le_refl _)
    simp only [fibers]
    grind
  | unwait => exact .sub (Sublist.append_left erase_sublist _).subperm
  | tune _ | count _ _ _ _ _ _ => exact .sub (Subperm.refl _)
  | request _ =>
    refine .sub ?_
    simp [fibers, JournalEntry.sleeper?, filterMap_cons, Subperm.refl]
  | @written txn blocking lsn signature rest hj hl hs =>
    refine .sub ?_
    cases blocking <;> simp [fibers, hj, txn?, JournalEntry.sleeper?, Subperm.refl]
  | @confirmDone confirmLsn lsn waiter rest hj hl =>
    refine .sub ?_
    cases waiter <;> simp [fibers, hj, JournalEntry.sleeper?, txn?, filterMap_cons, Subperm.refl]
  | rollbackDone hj hl =>
    refine .sub ?_
    simp [fibers, hj, JournalEntry.sleeper?, txn?, Subperm.refl]
  | fail hj hre =>
    refine .sub (Perm.subperm ?_)
    simp only [fibers, hj, filterMap_append, JournalEntry.sleeper?, txn?,
      filterMap_cons, filterMap_nil, if_true]
    grind
  | failRemote hj _ _ | failPlain hj _ =>
    refine .sub ?_
    simp [fibers, hj, JournalEntry.sleeper?, Subperm.refl]
  | failSynchro hj =>
    refine .sub ?_
    simp [fibers, hj, JournalEntry.sleeper?, filterMap_cons, Subperm.refl]
  | pop hr _ | assign hr _ _ | abort hr _ _ | confirm hr _ | rollBack hr _ _ _ =>
    refine .sub (Sublist.subperm (Sublist.append_right (Sublist.append_right ?_ _) _))
    rw [hr]
    exact (sublist_cons_self _ _).filterMap _
  | @writeConfirm lsn waiter _ _ hf _ =>
    cases waiter with
    | none =>
      refine .sub ?_
      simp [fibers, JournalEntry.sleeper?, filterMap_cons, Subperm.refl]
    | some txn =>
      refine (hf txn rfl).sleep ?_ (Nat.le_refl _)
      simp only [fibers, filterMap_append, JournalEntry.sleeper?, filterMap_cons, filterMap_nil]
      grind
  | writeRollback hq ht _ _ _ hf =>
    refine hf.sleep ?_ (Nat.le_refl _)
    simp only [fibers, filterMap_append, JournalEntry.sleeper?, filterMap_cons, filterMap_nil]
    grind

lemma LimboNode.Shape.foreign (hs : s.Shape s') (hf : s.FiberShape s') (h : s.Fibered)
    (ho : s'.limbo.ownerId ≠ s'.instanceId) : ∀ p ∈ s'.slots, p.1 ∉ s'.fibers := by
  have hol (hr : s.limbo.ownerId ≠ s.instanceId) {p : Nat × Int}
      (hp : p ∈ s.slots ∨ p.1 = s.nextTxn) : p.1 ∉ s'.fibers := by
    have hb : p.1 ∉ s.fibers := by
      rcases hp with hp | hp
      · exact h.foreign hr p hp
      · exact fun hm => Nat.lt_irrefl _ (hp ▸ h.lt _ hm)
    cases hf with
    | sub hsu => exact fun hm => hb (hsu.subset hm)
    | sleep txn hpe _ _ hl =>
      intro hm
      obtain ⟨hlt, hn⟩ := hl hr
      rcases mem_cons.mp (hpe.subset hm) with he | hm
      · rcases hp with hp | hp
        · exact hn p hp he
        · omega
      · exact hb hm
  have hsh (hs : s.Shrinks s') : ∀ p ∈ s'.slots, p.1 ∉ s'.fibers := by
    intro p hp
    rw [hs.owner hp, hs.instance_eq] at ho
    exact hol ho (.inl (hs.slots.mem hp))
  cases hs with
  | shrink hs _ _ | count _ _ hs _ _ | confirm _ hs _ _ _ => exact hsh hs
  | push lsn hp _ _ _ =>
    rw [hp.owner_eq, hp.instance_eq] at ho
    rw [hp.slots]
    intro p hm
    refine hol ho ?_
    rcases mem_append.mp hm with hm | hm
    · exact .inl hm
    · exact .inr (congrArg Prod.fst (mem_singleton.mp hm))
  | wake txn lsn hw _ _ =>
    rw [hw.owner_eq, hw.instance_eq] at ho
    rw [hw.slots]
    exact fun p hp => hol ho (.inl hp)
  | assign txn lsn ha _ _ _ _ _ _ =>
    rw [ha.owner_eq, ha.instance_eq] at ho
    exact absurd ha.owner ho

lemma LimboNode.Shape.frame (hs : s.Shape s') :
    s'.instanceId = s.instanceId ∧ s.nextTxn ≤ s'.nextTxn := by
  cases hs with
  | shrink hs _ _ | count _ _ hs _ _ | confirm _ hs _ _ _ => exact ⟨hs.instance_eq, hs.next⟩
  | push lsn hp _ _ _ => exact ⟨hp.instance_eq, by rw [hp.next]; exact Nat.le_succ _⟩
  | wake txn lsn hw _ _ => exact ⟨hw.instance_eq, hw.next.ge⟩
  | assign txn lsn ha _ _ _ _ _ _ => exact ⟨ha.instance_eq, ha.next.ge⟩

lemma LimboNode.Fibered.step (h : s.Fibered) (hs : s.Shape s') (hf : s.FiberShape s')
    (hre : ∀ req, .synchro req ∈ s'.journal →
      .synchro req ∈ s.journal ∨ req.Sent s.instanceId) : s'.Fibered := by
  obtain ⟨hi, hn⟩ := hs.frame
  refine ⟨?_, ?_, hs.foreign hf h, hi ▸ h.instance_ne, hi ▸ h.instance_lt, ?_⟩
  · cases hf with
    | sub hsu =>
      obtain ⟨l, hp, hsu⟩ := hsu
      exact hp.nodup_iff.mp (h.nodup.sublist hsu)
    | sleep txn hp hfr _ _ => exact hp.nodup_iff.mpr (nodup_cons.mpr ⟨hfr, h.nodup⟩)
  · intro t ht
    cases hf with
    | sub hsu => exact (h.lt t (hsu.subset ht)).trans_le hn
    | sleep txn hp _ hl _ =>
      rcases mem_cons.mp (hp.subset ht) with rfl | ht
      · exact hl
      · exact (h.lt t ht).trans_le hn
  · intro req hr
    rw [hi]
    exact (hre req hr).elim (h.sent req) id

lemma LimboNode.Input.fibered (he : s.Input s') (h : s.Fibered) : s'.Fibered := by
  refine h.step he.shape (he.fiberShape h) fun req hr => .inl ?_
  cases he with
  | skip | reject _ _ _ _ => exact hr
  | push _ _ _ _ | pushRemote _ _ _ _ _ _ => simpa using hr
  | process hj _ _ _ =>
    rw [hj]
    exact mem_cons_of_mem _ hr

lemma LimboNode.Effect.fibered (he : s.Effect s') (h : s.Fibered) : s'.Fibered := by
  refine h.step he.shape he.fiberShape fun req hr => ?_
  cases he with
  | request hs =>
    refine (mem_append.mp hr).imp id fun hr => ?_
    cases mem_singleton.mp hr
    exact hs
  | written hj _ _ | confirmDone hj _ | rollbackDone hj _ =>
    rw [hj]
    exact .inl (mem_cons_of_mem _ hr)
  | fail hj _ | failRemote hj _ _ | failPlain hj _ | failSynchro hj =>
    rw [hj]
    exact .inl (mem_append_left _ hr)
  | writeConfirm _ _ _ _ | writeRollback _ _ _ _ _ _ => exact .inl (by simpa using hr)
  | _ => exact .inl hr

end TarantoolStorage
