import TarantoolStorage.Limbo.Calm

/-! The requests that an instance writes for its own limbo. -/
namespace TarantoolStorage

open Checked Relation Transition List Option JournalEntry LimboNode

def Fiber.rolledBack? : Fiber → Option Nat
  | .rolledBack id => some id
  | _ => none

def JournalEntry.rollback? : JournalEntry → Option Nat
  | .rollback _ id => some id
  | _ => none

/-- The transactions whose fibers have begun to write ROLLBACK. -/
def LimboNode.rollingBack (s : LimboNode) : List Nat :=
  s.ready.filterMap Fiber.rolledBack? ++ s.journal.filterMap rollback?

/-- What is confirmed leaves the queue when the request is written. -/
structure LimboNode.Confirming (s : LimboNode) : Prop where
  covered : ∀ e ∈ s.limbo.queue, e.lsn ≠ -1 → e.lsn ≤ s.limbo.confirmedLsn →
    ∃ lsn ∈ s.confirming, e.lsn ≤ lsn
  owner : s.confirming ≠ [] → s.limbo.ownerId = s.instanceId
  le : ∀ lsn ∈ s.confirming, lsn ≤ s.limbo.confirmedLsn
  remote : s.limbo.ownerId ≠ s.instanceId → s.limbo.confirmedLsn = 0
  le_wal : s.limbo.confirmedLsn ≤ s.walLsn
  lt_written : ∀ w ∈ s.written, s.limbo.confirmedLsn < w.2

/-- One ROLLBACK is written at a time, for the first transaction of the queue. -/
structure LimboNode.RollingBack (s : LimboNode) : Prop where
  none : s.isInRollback = false → s.rollingBack = []
  one : s.isInRollback = true →
    ∃ txn, s.rollingBack = [txn] ∧ ∀ e ∈ s.limbo.queue.head?, e.txn = txn
  above : s.isInRollback = true → ∀ e ∈ s.limbo.queue, e.lsn ≠ -1 → s.limbo.confirmedLsn < e.lsn

/-- No transaction has got an LSN that is confirmed, or the first place of a queue that is rolled
back. -/
def LimboNode.KeepsLsns (s : LimboNode) (queue : List LimboEntry) : Prop :=
  (∀ e ∈ queue, e.lsn ≠ -1 → e.lsn ≤ s.limbo.confirmedLsn → ∃ d ∈ s.limbo.queue, d.lsn = e.lsn) ∧
    (s.isInRollback = true → ∀ e ∈ queue.head?, ∃ d ∈ s.limbo.queue.head?, d.txn = e.txn)

/-- The same LSNs are being confirmed. -/
structure LimboNode.Undisturbed (s s' : LimboNode) : Prop where
  queue : s.KeepsLsns s'.limbo.queue
  confirmed : s'.limbo.confirmedLsn = s.limbo.confirmedLsn := by rfl
  owner : s'.limbo.ownerId = s.limbo.ownerId := by rfl
  instance_eq : s'.instanceId = s.instanceId := by rfl
  confirming : s'.confirming = s.confirming := by rfl
  wal : s.walLsn ≤ s'.walLsn := by exact Int.le_refl _
  written : ∀ w ∈ s'.written, w ∈ s.written ∨ s.walLsn < w.2 := by exact fun w hw => .inl hw

variable {s s' : LimboNode} {kept back : List LimboEntry}

namespace LimboNode

lemma KeepsLsns.of_append (hq : s.limbo.queue = kept ++ back) : s.KeepsLsns kept := by
  refine ⟨fun e he _ _ => ⟨e, ?_, rfl⟩, fun _ e he => ⟨e, ?_, rfl⟩⟩ <;> rw [hq]
  · exact mem_append_left _ he
  · exact mem_head?_append_of_mem_head? he

lemma KeepsLsns.refl (s : LimboNode) : s.KeepsLsns s.limbo.queue := .of_append (append_nil _).symm

/-- A change of one entry that leaves its LSN alone, or moves it above what is confirmed. -/
lemma KeepsLsns.of_update (txn : Nat) {f : LimboEntry → LimboEntry} (ht : ∀ e, (f e).txn = e.txn)
    (hl : ∀ e, (f e).lsn = e.lsn ∨ s.limbo.confirmedLsn < (f e).lsn) :
    s.KeepsLsns (s.limbo.update txn f).queue := by
  constructor
  · intro e he _ hle
    obtain ⟨d, hd, rfl⟩ := mem_map.mp he
    refine ⟨d, hd, ?_⟩
    by_cases ht : d.txn = txn
    · rw [if_pos ht] at hle ⊢
      exact ((hl d).resolve_right (Int.not_lt.mpr hle)).symm
    · rw [if_neg ht]
  · intro _ e he
    rw [TxnLimbo.update, head?_map] at he
    obtain ⟨d, hd, rfl⟩ := map_eq_some_iff.mp he
    refine ⟨d, hd, ?_⟩
    split
    · exact (ht d).symm
    · rfl

lemma KeepsLsns.push {d : LimboEntry} (h : s.Confirming) (hi : s.isInRollback = false)
    (hl : d.lsn = -1 ∨ s.limbo.ownerId ≠ s.instanceId ∧ 0 < d.lsn) :
    s.KeepsLsns (s.limbo.queue ++ [d]) := by
  refine ⟨fun e he hn hle => ?_, fun ht => absurd (hi.symm.trans ht) (by simp)⟩
  rcases mem_append.mp he with he | he
  · exact ⟨e, he, rfl⟩
  · obtain rfl := mem_singleton.mp he
    obtain ⟨ho, hp⟩ := hl.resolve_left hn
    rw [h.remote ho] at hle
    exact absurd hp (Int.not_lt.mpr hle)

lemma Undisturbed.confirming_inv (hu : s.Undisturbed s') (h : s.Confirming) : s'.Confirming := by
  refine ⟨fun e he hl hle => ?_, ?_, ?_, ?_, ?_, fun w hw => ?_⟩
  · rw [hu.confirmed] at hle
    obtain ⟨d, hd, heq⟩ := hu.queue.1 e he hl hle
    rw [hu.confirming, ← heq]
    exact h.covered d hd (heq ▸ hl) (heq ▸ hle)
  · rw [hu.confirming, hu.owner, hu.instance_eq]
    exact h.owner
  · rw [hu.confirming, hu.confirmed]
    exact h.le
  · rw [hu.owner, hu.instance_eq, hu.confirmed]
    exact h.remote
  · rw [hu.confirmed]
    exact h.le_wal.trans hu.wal
  · rw [hu.confirmed]
    rcases hu.written w hw with hw | hlt
    · exact h.lt_written w hw
    · exact h.le_wal.trans_lt hlt

lemma Undisturbed.rollingBack_inv (hu : s.Undisturbed s') (h : s.RollingBack)
    (hi' : s'.isInRollback = s.isInRollback) (hr : s'.rollingBack = s.rollingBack) :
    s'.RollingBack := by
  refine ⟨?_, fun hi => ?_, fun hi e he hl => ?_⟩
  · rw [hi', hr]
    exact h.none
  · obtain ⟨txn, ht, hh⟩ := h.one (hi' ▸ hi)
    refine ⟨txn, hr.trans ht, fun e he => ?_⟩
    obtain ⟨d, hd, heq⟩ := hu.queue.2 (hi' ▸ hi) e he
    exact heq ▸ hh d hd
  · by_contra hle
    rw [hu.confirmed, Int.not_lt] at hle
    obtain ⟨d, hd, heq⟩ := hu.queue.1 e he hl hle
    have ha := h.above (hi' ▸ hi) d hd (heq ▸ hl)
    exact absurd (heq ▸ ha) (Int.not_lt.mpr hle)

variable {front queue : List LimboEntry} {rest : List Fiber}

/-- Nothing up to the LSN is left in the queue behind a transaction that is not to be
confirmed. -/
lemma Lined.lt_of_stop {rest : List LimboEntry} {lsn : Int} (h : s.Lined) (ho : s.Ordered)
    (hq : s.limbo.queue = front ++ rest) (hst : ∀ e ∈ rest.head?, ¬ e.Passes lsn) :
    ∀ e ∈ rest, e.lsn ≠ -1 → lsn < e.lsn := by
  intro e he hne
  cases rest with
  | nil => cases he
  | cons d rest =>
    obtain ⟨ha, hl⟩ := not_not.mp (hst d rfl)
    have hs : s.limbo.queue.Pairwise fun a b => a.lsn ≠ -1 → b.lsn ≠ -1 → a.lsn < b.lsn :=
      pairwise_map.mp ho.increasing
    have hf := h.assigned_first
    rw [hq] at hs hf
    have hs := pairwise_cons.mp (pairwise_append.mp hs).2.1
    have hf := pairwise_cons.mp (pairwise_append.mp hf).2.1
    rcases mem_cons.mp he with rfl | he
    · exact hl.resolve_right hne
    · have hd : d.lsn ≠ -1 := fun hn => hne (hf.1 e he ha hn)
      exact (hl.resolve_right hd).trans (hs.1 e he hd hne)

lemma Confirming.confirm {lsn : Int} {waiter : Option Nat} (h : s.Confirming) (hl : s.Lined)
    (ho : s.Ordered) (hr : s.ready = .confirmed lsn waiter :: rest)
    (hq : s.limbo.queue = front ++ queue) (hs : ∀ e ∈ queue.head?, ¬ e.Passes lsn) :
    Confirming { s with ready := rest, limbo := s.limbo.confirmFront front queue } := by
  have hco : s.confirming = lsn :: confirming { s with ready := rest } := by
    simp [confirming, hr, Fiber.confirmed?]
  have hwr : LimboNode.written { s with ready := rest } = s.written := by
    simp [LimboNode.written, hr, Fiber.written?, filterMap_cons]
  have hsu {c : Int} (hc : c ∈ confirming { s with ready := rest }) :
      c ∈ s.confirming := hco ▸ mem_cons_of_mem _ hc
  refine ⟨fun e he hn hle => ?_, fun hso => ?_, fun c hc => h.le c (hsu hc), h.remote,
    h.le_wal, fun w hw => h.lt_written w (hwr ▸ hw)⟩
  · obtain ⟨c, hc, hle⟩ := h.covered e (hq ▸ mem_append_right _ he) hn hle
    have hg := hl.lt_of_stop ho hq hs e he hn
    rw [hco] at hc
    rcases mem_cons.mp hc with rfl | hc
    · exact absurd hle (Int.not_le.mpr hg)
    · exact ⟨c, hc, hle⟩
  · exact h.owner (by rw [hco]; simp)

/-- While a ROLLBACK is being written, CONFIRM finds nothing to confirm. -/
lemma RollingBack.confirm {lsn : Int} {waiter : Option Nat} (h : s.RollingBack)
    (hc : s.Confirming) (hl : s.Lined) (hr : s.ready = .confirmed lsn waiter :: rest)
    (hq : s.limbo.queue = front ++ queue) (hp : ∀ e ∈ front, e.Passes lsn) :
    RollingBack { s with ready := rest, limbo := s.limbo.confirmFront front queue } := by
  have hle : lsn ≤ s.limbo.confirmedLsn := hc.le lsn (by simp [confirming, hr, Fiber.confirmed?])
  have hro : rollingBack { s with ready := rest } = s.rollingBack := by
    simp [rollingBack, hr, Fiber.rolledBack?, filterMap_cons]
  have hn (hi : s.isInRollback = true) : front = [] := by
    cases front with
    | nil => rfl
    | cons d front =>
      have ha := hl.head d (by simp [hq])
      refine absurd (hp d mem_cons_self) (not_not.mpr ⟨ha, ?_⟩)
      by_cases hls : d.lsn = -1
      · exact .inr hls
      · exact .inl (hle.trans_lt (h.above hi d (by simp [hq]) hls))
  refine ⟨fun hi => hro.trans (h.none hi), fun hi => ?_, fun hi e he hne => ?_⟩
  · obtain ⟨u, hu, hh⟩ := h.one hi
    rw [hq, hn hi] at hh
    exact ⟨u, hro.trans hu, hh⟩
  · exact h.above hi e (hq ▸ mem_append_right _ he) hne

lemma Confirming.writeConfirm {lsn : Int} {waiter : Option Nat} {confirms : List (Int × Int)}
    (h : s.Confirming) (ho : s.Ordered) (hcn : s.Counted) (hg : s.limbo.confirmedLsn < lsn)
    (hq : ∃ e ∈ s.limbo.queue, e.waitAck = true ∧ e.lsn = lsn ∧ s.quorum ≤ s.ackCount e.txn) :
    Confirming { s with
      limbo := { s.limbo with confirmedLsn := lsn }
      journal := s.journal ++ [.confirm lsn waiter]
      confirms := confirms } := by
  obtain ⟨d, hd, -, rfl, hq⟩ := hq
  have hs : d.slot ∈ s.slots := mem_map_of_mem hd
  have how : s.limbo.ownerId = s.instanceId := by
    by_contra hot
    have hz : s.ackCount d.txn = 0 := hcn.uncounted d.slot hs (.inr hot)
    have hp := hcn.quorum_pos
    omega
  have hco : confirming { s with
      journal := s.journal ++ [.confirm d.lsn waiter] } = s.confirming ++ [d.lsn] := by
    simp [confirming, confirm?]
  refine ⟨fun e he hn hl => ?_, fun _ => how, ?_, fun hot => absurd how hot,
    ho.lsn_le how d.slot hs, fun w hw => ho.written_lt how w hw d.slot hs⟩
  · exact ⟨d.lsn, hco ▸ mem_append_right _ (mem_singleton_self _), hl⟩
  · change ∀ c ∈ confirming { s with
      journal := s.journal ++ [.confirm d.lsn waiter] }, c ≤ d.lsn
    rw [hco, forall_mem_append, forall_mem_singleton]
    exact ⟨fun c hc => (h.le c hc).trans hg.le, Int.le_refl _⟩

lemma RollingBack.writeRollback {e : LimboEntry} {rest : List LimboEntry} (h : s.RollingBack)
    (ho : s.Ordered) (hq : s.limbo.queue = e :: rest) (hg : s.limbo.confirmedLsn < e.lsn)
    (hp : 0 < e.lsn) (hi : s.isInRollback = false) :
    RollingBack { s with
      isInRollback := true, journal := s.journal ++ [.rollback e.lsn e.txn] } := by
  have hs : s.limbo.queue.Pairwise fun a b => a.lsn ≠ -1 → b.lsn ≠ -1 → a.lsn < b.lsn :=
    pairwise_map.mp ho.increasing
  rw [hq] at hs
  refine ⟨fun hf => absurd hf (by simp), fun _ => ⟨e.txn, ?_, ?_⟩, fun _ d hd hne => ?_⟩
  · have hn := h.none hi
    simp only [rollingBack, append_eq_nil_iff] at hn
    simp [rollingBack, hn.1, hn.2, rollback?]
  · intro d hd
    rw [hq] at hd
    exact congrArg LimboEntry.txn (some.inj hd).symm
  · rw [hq] at hd
    rcases mem_cons.mp hd with rfl | hd
    · exact hg
    · exact hg.trans ((pairwise_cons.mp hs).1 d hd (by omega) hne)

lemma RollingBack.inRollback {txn : Nat} (h : s.RollingBack)
    (hr : s.ready = .rolledBack txn :: rest) : s.isInRollback = true := by
  by_contra hf
  have hn := h.none (by simpa using hf)
  simp [rollingBack, hr, Fiber.rolledBack?] at hn

lemma RollingBack.rollBack {txn : Nat} {rest : List Fiber} {signature : Int}
    (h : s.RollingBack) (hr : s.ready = .rolledBack txn :: rest) :
    RollingBack { s with
      ready := rest, isInRollback := false
      limbo := s.limbo.rollBackEnd signature kept back } := by
  have hro : s.rollingBack = txn :: rollingBack { s with ready := rest } := by
    simp [rollingBack, hr, Fiber.rolledBack?]
  obtain ⟨u, hu, -⟩ := h.one (h.inRollback hr)
  rw [hro] at hu
  have hn : rollingBack { s with ready := rest } = [] := (List.cons.inj hu).2
  exact ⟨fun _ => hn, fun ht => absurd ht (by simp), fun ht => absurd ht (by simp)⟩

lemma Undisturbed.pending (hu : s.Undisturbed s') (hc : s.Confirming) (hr : s.RollingBack)
    (hi : s'.isInRollback = s.isInRollback) (hro : s'.rollingBack = s.rollingBack) :
    s'.Confirming ∧ s'.RollingBack :=
  ⟨hu.confirming_inv hc, hu.rollingBack_inv hr hi hro⟩

end LimboNode

section

attribute [local simp] confirming rollingBack LimboNode.written filterMap_cons
  confirm? rollback? Fiber.confirmed? Fiber.rolledBack? Fiber.written?

lemma LimboNode.Effect.pending (he : s.Effect s') (ho : s.Ordered) (hcn : s.Counted)
    (hl : s.Lined) (hc : s.Confirming) (hr : s.RollingBack) : s'.Confirming ∧ s'.RollingBack := by
  have hs (hu : s.Undisturbed s') := hu.pending hc hr
  have hpo {f : Fiber} {rest : List Fiber} (hr : s.ready = f :: rest) (hr' : s'.ready = rest) :
      ∀ w ∈ s'.written, w ∈ s.written ∨ s.walLsn < w.2 := by
    intro w hw
    rw [LimboNode.written, hr'] at hw
    rw [LimboNode.written, hr]
    exact .inl (((sublist_cons_self _ _).filterMap _).mem hw)
  cases he with
  | wait _ _ | unwait | tune _ | count _ _ _ _ _ _ => exact hs { queue := .refl _ } rfl rfl
  | request _ => exact hs { queue := .refl _, confirming := by simp } rfl (by simp)
  | @written txn blocking lsn signature rest hj hls hsi =>
    have hq := KeepsLsns.of_update (s := s) txn (f := fun e => { e with signature := signature })
      (fun _ => rfl) fun _ => .inl rfl
    cases blocking with
    | false => exact hs { queue := hq, confirming := by simp [hj] } rfl (by simp [hj])
    | true =>
      refine hs
        { queue := hq, confirming := by simp [hj], wal := hls.le, written := fun w hw => ?_ } rfl
        (by simp [hj])
      have hw : w ∈ s.written ∨ w = (txn, lsn) := by simpa using hw
      rcases hw with hw | rfl
      · exact .inl hw
      · exact .inr hls
  | confirmDone hj hls | rollbackDone hj hls =>
    refine hs
      { queue := .refl _, confirming := by simp [hj], wal := hls.le,
        written := fun w hw => .inl ?_ } rfl (by simp [hj])
    simpa using hw
  | fail hj hre =>
    refine hs
      { queue := .of_update _ (fun _ => rfl) fun _ => .inl rfl, confirming := by simp [hj],
        written := fun w hw => .inl ?_ } rfl (by simp [hj])
    simpa using hw
  | failRemote hj hq htx =>
    exact hs { queue := .of_append hq, confirming := by simp [hj] } rfl (by simp [hj])
  | failPlain hj _ | failSynchro hj =>
    exact hs { queue := .refl _, confirming := by simp [hj] } rfl (by simp [hj])
  | pop hr' hf =>
    rcases hf with ⟨⟨lsn, rfl⟩, -⟩ | ⟨rfl, -⟩
    all_goals
      exact hs { queue := .refl _, confirming := by simp [hr'], written := hpo hr' rfl } rfl
        (by simp [hr'])
  | @assign txn lsn rest hr' how hen =>
    have hlt : s.limbo.confirmedLsn < lsn := hc.lt_written (txn, lsn) (by simp [hr'])
    exact hs
      { queue := .of_update _ (fun _ => rfl) fun _ => .inr hlt, confirming := by simp [hr'],
        written := hpo hr' rfl } rfl (by simp [hr'])
  | abort hr' hq htx =>
    exact hs { queue := .of_append hq, confirming := by simp [hr'], written := hpo hr' rfl } rfl
      (by simp [hr'])
  | confirm hr' hco =>
    obtain ⟨front, rest, hq, hp, -, hst, rfl⟩ := readConfirm_some hco
    exact ⟨hc.confirm hl ho hr' hq hst, hr.confirm hc hl hr' hq hp⟩
  | rollBack hr' hq hd hb =>
    refine ⟨Undisturbed.confirming_inv ?_ hc, hr.rollBack hr'⟩
    exact { queue := .of_append hq, confirming := by simp [hr'], written := hpo hr' rfl }
  | writeConfirm hg hi hfr hqu =>
    refine ⟨hc.writeConfirm ho hcn hg hqu, fun _ => ?_, fun ht => ?_, fun ht => ?_⟩
    · have hn := hr.none hi
      simpa using hn
    · exact absurd (hi.symm.trans ht) (by simp)
    · exact absurd (hi.symm.trans ht) (by simp)
  | @writeRollback txn e rest hq htx hg hps hi hfr =>
    subst htx
    refine ⟨Undisturbed.confirming_inv ?_ hc, hr.writeRollback ho hq hg hps hi⟩
    exact { queue := .refl _, confirming := by simp }

end

lemma LimboNode.RollingBack.queue_nil (h : s.RollingBack) (hf : s.Fibered)
    (ho : s.limbo.ownerId ≠ s.instanceId) (hi : s.isInRollback = true) :
    s.limbo.queue = [] := by
  obtain ⟨txn, ht, hh⟩ := h.one hi
  have hfi : txn ∈ s.fibers := by
    have hm : txn ∈ s.rollingBack := by simp [ht]
    rcases mem_append.mp hm with hm | hm
    · obtain ⟨f, hf, he⟩ := mem_filterMap.mp hm
      refine mem_fibers_of_ready hf ?_
      cases f with
      | rolledBack id => exact he
      | written _ _ | failed _ | confirmed _ _ => cases he
    · obtain ⟨w, hw, he⟩ := mem_filterMap.mp hm
      refine mem_append_left _ (mem_append_right _ (mem_filterMap.mpr ⟨w, hw, ?_⟩))
      cases w with
      | rollback lsn id => exact he
      | txn _ _ | synchro _ | confirm _ _ => cases he
  cases hq : s.limbo.queue with
  | nil => rfl
  | cons e queue =>
    refine absurd hfi ?_
    rw [← hh e (by simp [hq])]
    exact hf.foreign ho e.slot (mem_map_of_mem (by simp [hq]))

lemma process_refused {l l' : TxnLimbo} {req : SynchroRequest}
    (hp : txnLimboProcess l req = some l') (ht : req.type.isPromoteRequest = true)
    (hn : ¬ l.Accepts req) : l' = l := by
  obtain ⟨hte, hg⟩ := not_or.mp hn
  unfold txnLimboProcess at hp
  obtain ⟨-, hp⟩ := assert_bind_eq_some.mp hp
  rw [if_neg hte, if_pos ⟨ht, Nat.not_le.mp hg⟩] at hp
  exact (some.inj hp).symm

/-- What a request does to the limbo of a calm instance: CONFIRM and ROLLBACK come from another
owner, and a new owner comes when everything is settled. -/
inductive LimboNode.Processed (s : LimboNode) : TxnLimbo → Prop
  | ignored {map : Vclock} {greatest : Nat} : Processed s
      { s.limbo with promoteTermMap := map, promoteGreatestTerm := greatest }
  | confirmed {map : Vclock} {greatest : Nat} {front rest : List LimboEntry}
      (hother : s.limbo.ownerId ≠ s.instanceId) (hq : s.limbo.queue = front ++ rest) : Processed s
      { s.limbo.confirmFront front rest with
        promoteTermMap := map, promoteGreatestTerm := greatest }
  | rolledBack {map : Vclock} {greatest : Nat} {kept back : List LimboEntry}
      (hother : s.limbo.ownerId ≠ s.instanceId) (hq : s.limbo.queue = kept ++ back) : Processed s
      { s.limbo.rollBackEnd txnSignatureSyncRollback kept back with
        promoteTermMap := map, promoteGreatestTerm := greatest }
  | handedOver {map : Vclock} {greatest ownerId : Nat} {front back : List LimboEntry}
      (hsettled : ∀ e ∈ s.limbo.queue, e.Settled) (hnone : s.confirming = [])
      (hq : s.limbo.queue = front ++ back) : Processed s
      { s.limbo.handOver front back ownerId with
        promoteTermMap := map, promoteGreatestTerm := greatest }

lemma LimboNode.Admits.processed {req : SynchroRequest} {rest : List JournalEntry}
    {limbo : TxnLimbo} (h : s.Admits { s with journal := rest, limbo := limbo })
    (hj : s.journal = .synchro req :: rest) (hse : req.Sent s.instanceId)
    (hp : txnLimboProcess s.limbo req = some limbo) : s.Processed limbo := by
  obtain ⟨map, greatest, -, hd⟩ := process_decision hp
  have hot (ht : req.type.isPromoteRequest = false)
      (ho : req.replicaId = s.limbo.ownerId) : s.limbo.ownerId ≠ s.instanceId := by
    rw [← ho, (hse.decision ht).1]
    exact hse.origin_ne
  cases hd with
  | ignore => exact .ignored
  | confirm ht ho hq _ _ _ => exact .confirmed (hot ht ho) hq
  | rollBack ht ho hq _ => exact .rolledBack (hot ht ho) hq
  | handOver ht hq _ _ _ _ =>
    by_cases ha : s.limbo.Accepts req
    · obtain ⟨hs, hn⟩ := h.handOver rfl req (by simp [hj, synchro?]) ht ha
      exact .handedOver hs hn hq
    · rw [process_refused hp ht ha]
      exact .ignored

lemma LimboNode.Input.pending (he : s.Input s') (ha : s.Admits s') (ho : s.Ordered)
    (hf : s.Fibered) (hc : s.Confirming) (hr : s.RollingBack) :
    s'.Confirming ∧ s'.RollingBack := by
  have hs (hu : s.Undisturbed s') := hu.pending hc hr
  cases he with
  | skip => exact hs { queue := .refl _ } rfl rfl
  | push hin how hni hh =>
    refine hs { queue := .push hc hin (.inl rfl), confirming := ?_ } rfl ?_
    · simp [confirming, confirm?, filterMap_cons]
    · simp [rollingBack, rollback?, filterMap_cons]
  | pushRemote hin how hni hh hla hls =>
    refine hs { queue := .push hc hin ?_, confirming := ?_ } rfl ?_
    · rcases hls with ⟨-, hpo, -⟩ | ⟨-, hn⟩
      · exact .inr ⟨how, hpo⟩
      · exact .inl hn
    · simp [confirming, confirm?, filterMap_cons]
    · simp [rollingBack, rollback?, filterMap_cons]
  | reject ht hcm hls hl =>
    subst hl
    exact hs { queue := .refl _ } rfl rfl
  | @process req rest limbo hj hse hi hp =>
    have hco : confirming { s with journal := rest, limbo := limbo } =
        s.confirming := by
      simp [confirming, hj, confirm?, filterMap_cons]
    have hro : rollingBack { s with journal := rest, limbo := limbo } =
        s.rollingBack := by
      simp [rollingBack, hj, rollback?, filterMap_cons]
    cases ha.processed hj hse hp with
    | ignored => exact hs { queue := .refl _, confirming := hco } rfl hro
    | @confirmed _ _ front kept hot hq =>
      have hk : s.KeepsLsns kept :=
        ⟨fun e he _ _ => ⟨e, hq ▸ mem_append_right _ he, rfl⟩, fun hin e he => by
          rw [hr.queue_nil hf hot hin] at hq
          rw [(append_eq_nil_iff.mp hq.symm).2] at he
          cases he⟩
      exact hs { queue := hk, confirming := hco } rfl hro
    | rolledBack hot hq => exact hs { queue := .of_append hq, confirming := hco } rfl hro
    | handedOver hst hn hq =>
      rw [hn] at hco
      have hem {e : LimboEntry} (he : e ∈ ([] : List LimboEntry)) : False := by cases he
      refine ⟨⟨fun e he => (hem he).elim, fun hso => absurd hco hso, ?_,
        fun _ => rfl, ho.wal_nonneg, fun w hw => (ho.written_le w hw).1⟩,
        fun hin => hro.trans (hr.none hin), fun hin => ?_,
        fun _ e he => (hem he).elim⟩
      · rw [hco]
        exact fun c hm => by cases hm
      · obtain ⟨txn, ht, -⟩ := hr.one hin
        exact ⟨txn, hro.trans ht, fun e he => by cases he⟩

end TarantoolStorage
