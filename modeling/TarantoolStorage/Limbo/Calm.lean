import TarantoolStorage.Limbo.Acks
import TarantoolStorage.Limbo.Handover
import TarantoolStorage.Limbo.Phases

/-!
Runs in which no assertion fails: a failed transaction leaves the limbo before another one enters
it or a confirmation comes.
-/
namespace TarantoolStorage

open Checked Relation Transition List LimboNode

def Fiber.confirmed? : Fiber → Option Int
  | .confirmed lsn _ => some lsn
  | _ => none

def JournalEntry.confirm? : JournalEntry → Option Int
  | .confirm lsn _ => some lsn
  | _ => none

def JournalEntry.synchro? : JournalEntry → Option SynchroRequest
  | .synchro req => some req
  | _ => none

/-- The LSNs whose confirmation has begun and is not finished. -/
def LimboNode.confirming (s : LimboNode) : List Int :=
  s.ready.filterMap Fiber.confirmed? ++ s.journal.filterMap JournalEntry.confirm?

/-- No transaction of the queue waits for its abortion. -/
def LimboNode.NoneFailed (s : LimboNode) : Prop := ∀ e ∈ s.limbo.queue, e.isDone = false

instance (s : LimboNode) : Decidable s.NoneFailed :=
  inferInstanceAs (Decidable (∀ e ∈ s.limbo.queue, _))

instance (l : TxnLimbo) (req : SynchroRequest) : Decidable (l.Accepts req) :=
  inferInstanceAs (Decidable (_ ∨ _))

def LimboNode.Calm (s : LimboNode) : NodeAction → Prop
  | .commit _ _ => s.NoneFailed
  | .run => ∀ f ∈ s.ready.head?, f.confirmed?.isSome = true → s.NoneFailed
  | .walDone _ _ => ∀ req ∈ s.journal.head?.bind JournalEntry.synchro?,
      req.type.isPromoteRequest = true → s.limbo.Accepts req →
        (∀ e ∈ s.limbo.queue, e.Settled) ∧ s.confirming = []
  | .ack replicaId lsn => ∀ ack ∈ s.acked, ack.1 = replicaId → ack.2 ≤ lsn
  | _ => True

instance (s : LimboNode) : (a : NodeAction) → Decidable (s.Calm a)
  | .commit _ _ => inferInstanceAs (Decidable s.NoneFailed)
  | .run => inferInstanceAs (Decidable (∀ f ∈ s.ready.head?, _ → s.NoneFailed))
  | .walDone _ _ => inferInstanceAs (Decidable (∀ req ∈ s.journal.head?.bind JournalEntry.synchro?,
      req.type.isPromoteRequest = true → s.limbo.Accepts req →
        (∀ e ∈ s.limbo.queue, e.Settled) ∧ s.confirming = []))
  | .ack replicaId lsn => inferInstanceAs (Decidable (∀ ack ∈ s.acked, _ = replicaId → _ ≤ lsn))
  | .applyTx _ _ _ _ | .request _ | .walFail _ _ | .setQuorum _ | .timeout _ => .isTrue trivial

/-- The order of the queue: first a synchronous transaction, those with LSNs before those without,
and those that have failed at the end. -/
structure LimboNode.Lined (s : LimboNode) : Prop where
  head : ∀ e ∈ s.limbo.queue.head?, e.waitAck = true
  done_last : s.limbo.queue.Pairwise fun a b => a.isDone = true → b.isDone = true
  assigned_first : s.limbo.queue.Pairwise fun a b => a.waitAck = true → a.lsn = -1 → b.lsn = -1
  failing_order : s.failing.Pairwise fun t u =>
    (∃ e ∈ s.limbo.queue, e.txn = t) → (∃ e ∈ s.limbo.queue, e.txn = u) → u < t

structure LimboNode.Admits (s s' : LimboNode) : Prop where
  push : s'.nextTxn = s.nextTxn + 1 → s.limbo.ownerId = s.instanceId →
    s'.limbo = s.limbo ∨ s.NoneFailed
  handOver : s'.nextTxn = s.nextTxn → ∀ req ∈ s.journal.head?.bind JournalEntry.synchro?,
    req.type.isPromoteRequest = true → s.limbo.Accepts req →
      (∀ e ∈ s.limbo.queue, e.Settled) ∧ s.confirming = []

variable {s s' : LimboNode}

lemma LimboNode.Calm.admits {a : NodeAction} (h : s.Calm a) (ht : s.Takes s' a) : s.Admits s' := by
  cases a with
  | commit waitAck accepted =>
    have htx : s'.nextTxn = s.nextTxn + 1 := ht
    exact ⟨fun _ _ => .inr h, fun hs => by omega⟩
  | applyTx originId waitAck lsn accepted =>
    obtain ⟨htx, hl⟩ : s'.nextTxn = s.nextTxn + 1 ∧ _ := ht
    exact ⟨fun _ ho => .inl (hl ho), fun hs => by omega⟩
  | walDone lsn signature =>
    have htx : s'.nextTxn = s.nextTxn := ht
    exact ⟨fun hn => by omega, fun _ => h⟩
  | _ => exact ht.elim

lemma LimboNode.Lined.sub (h : s.Lined) (hs : s'.limbo.queue.Sublist s.limbo.queue)
    (hh : ∀ e ∈ s'.limbo.queue.head?, e.waitAck = true)
    (hf : s'.failing.Sublist s.failing) : s'.Lined where
  head := hh
  done_last := h.done_last.sublist hs
  assigned_first := h.assigned_first.sublist hs
  failing_order := by
    refine (h.failing_order.sublist hf).imp fun {t u} hl ⟨d, hd, hdt⟩ ⟨e, he, heu⟩ => ?_
    exact hl ⟨d, hs.mem hd, hdt⟩ ⟨e, hs.mem he, heu⟩

/-- The entries are the same, up to what a change of one leaves alone. -/
lemma LimboNode.Lined.map {g : LimboEntry → LimboEntry} (h : s.Lined)
    (hq : s'.limbo.queue = s.limbo.queue.map g) (hac : ∀ e, (g e).waitAck = e.waitAck)
    (ht : ∀ e, (g e).txn = e.txn)
    (hd : s.limbo.queue.Pairwise fun a b => (g a).isDone = true → (g b).isDone = true)
    (ha : s.limbo.queue.Pairwise fun a b => a.waitAck = true → (g a).lsn = -1 → (g b).lsn = -1)
    (hf : s'.failing.Pairwise fun t u =>
      (∃ e ∈ s.limbo.queue, e.txn = t) → (∃ e ∈ s.limbo.queue, e.txn = u) → u < t) :
    s'.Lined := by
  refine ⟨?_, ?_, ?_, ?_⟩
  · simpa [hq, hac] using h.head
  · rw [hq, pairwise_map]
    exact hd
  · rw [hq, pairwise_map]
    simpa only [hac] using ha
  · simpa only [hq, mem_map, exists_exists_and_eq_and, ht] using hf

lemma pairwise_of_key_lt {α : Type} {key : α → Nat} {R : α → α → Prop} {l : List α} {a b : α}
    (hk : l.Pairwise fun c d => key c < key d) (h : l.Pairwise R) (ha : a ∈ l) (hb : b ∈ l)
    (hl : key a < key b) : R a b := by
  induction l with
  | nil => cases ha
  | cons c l ih =>
    obtain ⟨hf, hk⟩ := pairwise_cons.mp hk
    obtain ⟨hR, h⟩ := pairwise_cons.mp h
    rcases mem_cons.mp ha with rfl | hal
    · rcases mem_cons.mp hb with rfl | hb
      · exact absurd hl (Nat.lt_irrefl _)
      · exact hR b hb
    · rcases mem_cons.mp hb with rfl | hb
      · exact absurd (hf a hal) (Nat.lt_asymm hl)
      · exact ih hk h hal hb

lemma LimboNode.Phased.noneFailed_of_remote (h : s.Phased) (hf : s.Fibered)
    (ho : s.limbo.ownerId ≠ s.instanceId) : s.NoneFailed := by
  intro e he
  by_contra hd
  exact ho (h.of_failing hf he (h.failing_of_done he (by simpa using hd))).1

lemma LimboNode.Lined.push {d : LimboEntry} (h : s.Lined) (hf : s.Fibered)
    (hn : s.NoneFailed) (hqu : s'.limbo.queue = s.limbo.queue ++ [d])
    (htx : d.txn = s.nextTxn) (hr : s'.ready = s.ready)
    (hh : d.waitAck = true ∨ s.limbo.queue ≠ [])
    (hag : d.lsn = -1 ∨ ∀ e ∈ s.limbo.queue, e.waitAck = true → e.lsn ≠ -1) :
    s'.Lined := by
  refine ⟨?_, ?_, ?_, ?_⟩
  · rw [hqu]
    cases hq : s.limbo.queue with
    | nil =>
      intro e he
      obtain rfl : d = e := by simpa using he
      exact hh.resolve_right fun hne => hne hq
    | cons c queue =>
      intro e he
      exact h.head e (by simpa [hq] using he)
  · rw [hqu]
    refine pairwise_append.mpr ⟨h.done_last, pairwise_singleton _ _, ?_⟩
    intro a ha b _ hd
    exact absurd (hd.symm.trans (hn a ha)) (by simp)
  · rw [hqu]
    refine pairwise_append.mpr ⟨h.assigned_first, pairwise_singleton _ _, ?_⟩
    intro a ha b hb hac hl
    rw [mem_singleton.mp hb]
    exact hag.resolve_right fun hal => hal a ha hac hl
  · have hfa : s'.failing = s.failing := by simp [failing, hr]
    have ho {t : Nat} (ht : t ∈ s.failing) (hex : ∃ e ∈ s'.limbo.queue, e.txn = t) :
        ∃ e ∈ s.limbo.queue, e.txn = t := by
      obtain ⟨e, he, heq⟩ := hex
      rw [hqu] at he
      rcases mem_append.mp he with he | he
      · exact ⟨e, he, heq⟩
      · have hlt := hf.lt t (mem_fibers_of_ready (mem_failing.mp ht) rfl)
        rw [← heq, mem_singleton.mp he, htx] at hlt
        exact absurd hlt (Nat.lt_irrefl _)
    rw [hfa]
    exact h.failing_order.imp_of_mem fun {t u} ht hu hlt het hexu => hlt (ho ht het) (ho hu hexu)

lemma LimboNode.Input.lined (he : s.Input s') (ha : s.Admits s') (hf : s.Fibered)
    (hp : s.Phased) (h : s.Lined) : s'.Lined := by
  cases he with
  | skip => exact h.sub (Sublist.refl _) h.head (Sublist.refl _)
  | push hin ho hni hh =>
    have hn : s.NoneFailed := by
      refine (ha.push rfl ho).resolve_left fun heq => ?_
      exact absurd (congrArg List.length (congrArg TxnLimbo.queue heq)) (by simp)
    exact h.push hf hn rfl rfl rfl hh (.inl rfl)
  | pushRemote hin ho hni hh hla hls =>
    refine h.push hf (hp.noneFailed_of_remote hf ho) rfl rfl rfl hh (.inr ?_)
    intro e he hac
    have hpo := hp.remote ho e he hac
    omega
  | reject _ _ _ hl =>
    subst hl
    exact h.sub (Sublist.refl _) h.head (Sublist.refl _)
  | process hj hse hi hp =>
    obtain ⟨map, greatest, -, hd⟩ := process_decision hp
    cases hd with
    | ignore => exact h.sub (Sublist.refl _) h.head (Sublist.refl _)
    | confirm _ _ hq _ _ hs =>
      refine h.sub ?_ (fun e he => ?_) (Sublist.refl _)
      · have hq : s.limbo.queue = _ := hq
        rw [hq]
        exact sublist_append_right _ _
      · exact (not_not.mp (hs e he)).1
    | rollBack _ _ hq _ =>
      have hq : s.limbo.queue = _ := hq
      refine h.sub ?_ (fun e he => h.head e ?_) (Sublist.refl _)
      · rw [hq]
        exact sublist_append_left _ _
      · rw [hq]
        exact mem_head?_append_of_mem_head? he
    | handOver _ _ _ _ _ _ => exact h.sub (nil_sublist _) (fun e he => by cases he) (Sublist.refl _)

/-- Those behind a transaction that is being written are being written, or have failed. -/
lemma LimboNode.Phased.behind_journaled (h : s.Phased) (ho : s.Ordered) {a b : LimboEntry}
    (hb : b ∈ s.limbo.queue) (ha : a.txn ∈ s.journaled) (hl : a.txn < b.txn) :
    b.txn ∈ s.journaled ∨ b.isDone = true := by
  cases h.phase b hb with
  | sent hm _ _ => exact .inl (mem_journaled.mpr ⟨_, hm⟩)
  | written _ hw _ => exact absurd (written_lt_journaled ho hw ha) (Nat.lt_asymm hl)
  | failed _ _ hd _ _ => exact .inr hd
  | resting _ _ hbe _ _ => exact absurd (hbe _ ha) (Nat.lt_asymm hl)

lemma LimboNode.Phased.assigned_before (h : s.Phased) (ho : s.Ordered) (hl : s.Lined)
    {a b : LimboEntry} {flight : List Nat} (ha : a ∈ s.limbo.queue) (hb : b ∈ s.limbo.queue)
    (hf : s.inFlight = b.txn :: flight) (hsi : 0 ≤ b.signature) (hlt : a.txn < b.txn)
    (hac : a.waitAck = true) : a.lsn ≠ -1 := by
  have hsm {t : Nat} (ht : t ∈ s.inFlight) : b.txn ≤ t := by
    have hs := ho.flight
    rw [hf] at ht hs
    rcases mem_cons.mp ht with rfl | ht
    · exact Nat.le_refl _
    · exact ((pairwise_cons.mp hs).1 t ht).le
  intro hn
  cases h.phase a ha with
  | sent hm _ _ =>
    have hle := hsm (mem_inFlight.mpr (.inr (mem_journaled.mpr ⟨_, hm⟩)))
    omega
  | written _ hw _ =>
    have hle := hsm (mem_inFlight.mpr (.inl hw))
    omega
  | failed _ _ hd _ _ =>
    have hd' := pairwise_of_key_lt ho.queue_ids hl.done_last ha hb hlt hd
    simp only [LimboEntry.isDone, decide_eq_true_eq] at hd'
    omega
  | resting _ hp _ _ _ =>
    have hp' := hp hac
    omega

/-- Writes fail from the end of the queue on. -/
lemma LimboNode.Lined.lt_of_failing (h : s.Lined) (ho : s.Ordered) (hf : s.Fibered) (hp : s.Phased)
    {a b : LimboEntry} (ha : a ∈ s.limbo.queue) (hb : b ∈ s.limbo.queue)
    (hfa : a.txn ∈ s.failing) (hj : b.txn ∈ s.journaled) : b.txn < a.txn := by
  obtain ⟨-, hd, -, hfl⟩ := hp.of_failing hf ha hfa
  obtain ⟨-, hun, -⟩ := hp.of_journaled ho hb hj
  have hud : b.isDone = false := by simp [LimboEntry.isDone, hun]
  rcases Nat.lt_trichotomy b.txn a.txn with hlt | heq | hlt
  · exact hlt
  · exact absurd (mem_inFlight.mpr (.inr (heq ▸ hj))) hfl
  · have hd' := pairwise_of_key_lt ho.queue_ids h.done_last ha hb hlt hd
    exact absurd (hud.symm.trans hd') (by simp)

lemma LimboNode.Effect.lined (he : s.Effect s') (ho : s.Ordered) (hf : s.Fibered)
    (hp : s.Phased) (h : s.Lined) : s'.Lined := by
  have hsa (hq : s'.limbo.queue = s.limbo.queue) (hfa : s'.failing.Sublist s.failing) :
      s'.Lined := by
    refine h.sub (hq ▸ Sublist.refl _) ?_ hfa
    rw [hq]
    exact h.head
  have hk {kept back : List LimboEntry} (hq : s.limbo.queue = kept ++ back)
      (hq' : s'.limbo.queue = kept) (hfa : s'.failing.Sublist s.failing) : s'.Lined := by
    refine h.sub ?_ (fun e he => h.head e ?_) hfa
    · rw [hq', hq]
      exact sublist_append_left _ _
    · rw [hq]
      exact mem_head?_append_of_mem_head? (hq' ▸ he)
  have hpo {fiber : Fiber} {rest : List Fiber} (hr : s.ready = fiber :: rest)
      (hr' : s'.ready = rest) : s'.failing.Sublist s.failing := by
    rw [failing, failing, hr, hr']
    exact (sublist_cons_self _ _).filterMap _
  cases he with
  | wait _ _ | unwait | tune _ | count _ _ _ _ _ _ | request _ | writeConfirm _ _ _ _
  | writeRollback _ _ _ _ _ _ | failPlain _ _ | failSynchro _ => exact hsa rfl (Sublist.refl _)
  | @written txn blocking lsn signature rest hj hls hsi =>
    have hm : txn ∈ s.journaled := mem_journaled.mpr ⟨blocking, by simp [hj]⟩
    have hd (e : LimboEntry) (he : e ∈ s.limbo.queue) :
        (if e.txn = txn then LimboEntry.sign signature e else e).isDone = e.isDone := by
      split
      · rename_i htx
        obtain ⟨-, hun, -⟩ := hp.of_journaled ho he (htx ▸ hm)
        have hps : ¬ signature < 0 := Int.not_lt.mpr hsi
        simp [LimboEntry.isDone, LimboEntry.sign, hun, hps]
      · rfl
    refine h.map rfl (fun e => by split <;> rfl) (fun e => by split <;> rfl) ?_ ?_ ?_
    · refine h.done_last.imp_of_mem fun {a b} ha hb hi => ?_
      rw [hd a ha, hd b hb]
      exact hi
    · simpa only [apply_ite LimboEntry.lsn, LimboEntry.sign, ite_self] using h.assigned_first
    · cases blocking <;> simpa [failing, Fiber.failed?, filterMap_cons] using h.failing_order
  | confirmDone _ _ | rollbackDone _ _ =>
    refine hsa rfl ?_
    simp [failing, Fiber.failed?, filterMap_cons]
  | @fail txn res kept hj hre =>
    have hm : txn ∈ s.journaled := mem_journaled.mpr ⟨true, by simp [hj]⟩
    have hl {t : Nat} (ht : t ∈ s.journaled) : t ≤ txn := by
      have hs := journaled_increasing ho
      rw [journaled, hj, filterMap_append] at ht hs
      rcases mem_append.mp ht with ht | ht
      · exact ((pairwise_append.mp hs).2.2 t ht txn (by simp [JournalEntry.txn?])).le
      · simp only [JournalEntry.txn?, filterMap_cons, filterMap_nil, mem_singleton] at ht
        exact ht.le
    have hfd (e : LimboEntry) : (LimboEntry.fail res e).isDone = true := by
      rcases hre with rfl | rfl <;> rfl
    refine h.map rfl (fun e => by split <;> rfl) (fun e => by split <;> rfl) ?_ ?_ ?_
    · refine (pairwise_and_iff.mpr ⟨ho.queue_ids, h.done_last⟩).imp_of_mem fun {a b} _ hb hab => ?_
      obtain ⟨hlt, hi⟩ := hab
      by_cases hbt : b.txn = txn
      · simp [hbt, hfd]
      rw [if_neg hbt]
      by_cases hat : a.txn = txn
      · -- what was sent behind the transaction has failed before it
        rcases hp.behind_journaled ho hb (hat ▸ hm) hlt with hj | hd
        · have hle := hl hj
          omega
        · exact fun _ => hd
      · rwa [if_neg hat]
    · simpa only [apply_ite LimboEntry.lsn, LimboEntry.fail, ite_self] using h.assigned_first
    · have hfn : failing { s with
          journal := kept
          limbo := s.limbo.update txn (LimboEntry.fail res)
          ready := s.ready ++ [.failed txn] } = s.failing ++ [txn] := by
        simp [failing, Fiber.failed?]
      rw [hfn]
      refine pairwise_append.mpr ⟨h.failing_order, pairwise_singleton _ _, ?_⟩
      rintro t ht u hu ⟨a, ha, hat⟩ ⟨b, hb, hbu⟩
      obtain rfl := mem_singleton.mp hu
      subst hat hbu
      exact h.lt_of_failing ho hf hp ha hb ht hm
  | failRemote hj hq htx => exact hk hq rfl (Sublist.refl _)
  | pop hr hfi => exact hsa rfl (hpo hr rfl)
  | @assign txn lsn rest hr how hen =>
    have hps : 0 < lsn := (ho.written_le (txn, lsn) (mem_written.mpr (by simp [hr]))).1
    refine h.map rfl (fun e => by split <;> rfl) (fun e => by split <;> rfl) ?_ ?_ ?_
    · have hd (e : LimboEntry) : (LimboEntry.assign lsn e).isDone = e.isDone := rfl
      simpa only [apply_ite LimboEntry.isDone, hd, ite_self] using h.done_last
    · refine (pairwise_and_iff.mpr ⟨ho.queue_ids, h.assigned_first⟩).imp_of_mem
        fun {a b} ha hb hab hac hn => ?_
      obtain ⟨hlt, hi⟩ := hab
      by_cases hat : a.txn = txn
      · rw [if_pos hat] at hn
        have hls : lsn = -1 := hn
        omega
      rw [if_neg hat] at hn
      by_cases hbt : b.txn = txn
      · have hw : b.txn ∈ s.written.map Prod.fst := mem_written_fst.mpr ⟨lsn, by simp [hr, hbt]⟩
        have hfl : s.inFlight = b.txn :: (({ s with ready := rest } : LimboNode).inFlight) := by
          simp [LimboNode.inFlight, LimboNode.written, hr, Fiber.written?, hbt]
        exact absurd hn (hp.assigned_before ho h ha hb hfl (hp.of_written ho hb hw).2 hlt hac)
      · rw [if_neg hbt]
        exact hi hac hn
    · exact h.failing_order.sublist (hpo hr rfl)
  | abort hr hq htx => exact hk hq rfl (hpo hr rfl)
  | confirm hr hc =>
    obtain ⟨front, rest, hq, -, -, hst, rfl⟩ := readConfirm_some hc
    refine h.sub ?_ (fun e he => (not_not.mp (hst e he)).1) (hpo hr rfl)
    rw [hq]
    exact sublist_append_right _ _
  | rollBack hr hq hd hk' => exact hk hq rfl (hpo hr rfl)

end TarantoolStorage
