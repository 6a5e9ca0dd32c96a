import TarantoolStorage.Limbo.Steps

/-!
The life of an entry: it is sent to the WAL, written or failed, and rests until it is decided.
-/
namespace TarantoolStorage

open Checked Relation Transition List Option TarantoolStorage.Fiber

def Fiber.failed? : Fiber → Option Nat
  | .failed id => some id
  | _ => none

def LimboNode.journaled (s : LimboNode) : List Nat := s.journal.filterMap JournalEntry.txn?

/-- The transactions whose fibers are about to abort them. -/
def LimboNode.failing (s : LimboNode) : List Nat := s.ready.filterMap failed?

inductive LimboNode.Phase (s : LimboNode) (e : LimboEntry) : Prop
  | sent (h : .txn e.txn (decide (s.limbo.ownerId = s.instanceId)) ∈ s.journal)
      (hsig : e.signature = txnSignatureUnknown) (hprepared : e.isPrepared = true)
  | written (howner : s.limbo.ownerId = s.instanceId) (h : e.txn ∈ s.written.map Prod.fst)
      (hsig : 0 ≤ e.signature)
  | failed (howner : s.limbo.ownerId = s.instanceId) (h : e.txn ∈ s.failing)
      (hdone : e.isDone = true) (hlsn : e.lsn = -1) (hflight : e.txn ∉ s.inFlight)
  | resting (hsig : 0 ≤ e.signature) (hlsn : e.waitAck = true → 0 < e.lsn)
      (hbefore : ∀ txn ∈ s.journaled, e.txn < txn) (hwritten : e.txn ∉ s.written.map Prod.fst)
      (hfailing : e.txn ∉ s.failing)

structure LimboNode.Phased (s : LimboNode) : Prop where
  phase : ∀ e ∈ s.limbo.queue, s.Phase e
  async : ∀ e ∈ s.limbo.queue, e.waitAck = false → e.lsn = -1
  remote : s.limbo.ownerId ≠ s.instanceId → ∀ e ∈ s.limbo.queue, e.waitAck = true → 0 < e.lsn

variable {s s' : LimboNode} {e : LimboEntry} {txn u : Nat} {w : JournalEntry}

lemma txn?_eq_some : w.txn? = some txn ↔ ∃ blocking, w = .txn txn blocking := by
  cases w <;> simp [JournalEntry.txn?]

lemma failed?_eq_some {f : Fiber} : f.failed? = some txn ↔ f = .failed txn := by
  cases f <;> simp [failed?]

lemma written?_eq_some {f : Fiber} {p : Nat × Int} :
    f.written? = some p ↔ f = .written p.1 p.2 := by
  cases f <;> simp [written?, Prod.ext_iff]

lemma mem_journaled : txn ∈ s.journaled ↔ ∃ blocking, .txn txn blocking ∈ s.journal := by
  simp only [LimboNode.journaled, mem_filterMap, txn?_eq_some]
  exact ⟨fun ⟨_, hw, b, he⟩ => ⟨b, he ▸ hw⟩, fun ⟨b, hw⟩ => ⟨_, hw, b, rfl⟩⟩

lemma mem_failing : txn ∈ s.failing ↔ .failed txn ∈ s.ready := by
  simp [LimboNode.failing, failed?_eq_some]

lemma mem_written {lsn : Int} : (txn, lsn) ∈ s.written ↔ .written txn lsn ∈ s.ready := by
  simp [LimboNode.written, written?_eq_some]

lemma mem_written_fst : txn ∈ s.written.map Prod.fst ↔ ∃ lsn, .written txn lsn ∈ s.ready := by
  constructor
  · intro h
    obtain ⟨⟨id, lsn⟩, hm, rfl⟩ := mem_map.mp h
    exact ⟨lsn, mem_written.mp hm⟩
  · rintro ⟨lsn, h⟩
    exact mem_map_of_mem (f := Prod.fst) (mem_written.mpr h)

lemma mem_inFlight : txn ∈ s.inFlight ↔ txn ∈ s.written.map Prod.fst ∨ txn ∈ s.journaled :=
  mem_append

lemma journaled_increasing (ho : s.Ordered) : s.journaled.Pairwise (· < ·) :=
  (pairwise_append.mp ho.flight).2.1

/-- Those written before are smaller than those still being written. -/
lemma written_lt_journaled {t : Nat} (ho : s.Ordered) (ht : t ∈ s.written.map Prod.fst)
    (hu : u ∈ s.journaled) : t < u :=
  (pairwise_append.mp ho.flight).2.2 t ht u hu

lemma eq_of_nodup_filterMap {α β : Type} {f : α → Option β} {l : List α} {a a' : α} {b : β}
    (hn : (l.filterMap f).Nodup) (h : a ∈ l) (h' : a' ∈ l) (hb : f a = some b)
    (hb' : f a' = some b) : a = a' := by
  induction l with
  | nil => cases h
  | cons d l ih =>
    have hh {c : α} (hd : f d = some b) (hc : f c = some b) : c ∉ l := by
      rw [filterMap_cons_some hd] at hn
      exact fun hm => (nodup_cons.mp hn).1 (mem_filterMap.mpr ⟨c, hm, hc⟩)
    rcases mem_cons.mp h with rfl | hl
    · rcases mem_cons.mp h' with rfl | hl'
      · rfl
      · exact absurd hl' (hh hb hb')
    · rcases mem_cons.mp h' with rfl | hl'
      · exact absurd hl (hh hb' hb)
      · exact ih (hn.sublist ((sublist_cons_self d l).filterMap _)) hl hl'

lemma ready_unique (hf : s.Fibered) {f g : Fiber} (h : f ∈ s.ready) (h' : g ∈ s.ready)
    (ht : f.txn? = some txn) (ht' : g.txn? = some txn) : f = g :=
  eq_of_nodup_filterMap (nodup_append.mp (nodup_append.mp hf.nodup).1).1 h h' ht ht'

lemma ready_not_asleep (hf : s.Fibered) {f : Fiber} (h : f ∈ s.ready)
    (ht : f.txn? = some txn) : .txn txn true ∉ s.journal ∧ txn ∉ s.waiting := by
  have hm : txn ∈ s.ready.filterMap txn? := mem_filterMap.mpr ⟨f, h, ht⟩
  obtain ⟨hfr, -, hb⟩ := nodup_append.mp hf.nodup
  refine ⟨fun hj => ?_, fun hw => ?_⟩
  · exact (nodup_append.mp hfr).2.2 txn hm txn (mem_filterMap.mpr ⟨_, hj, rfl⟩) rfl
  · exact hb txn (mem_append_left _ hm) txn hw rfl

lemma mem_fibers_of_ready {f : Fiber} (h : f ∈ s.ready) (ht : f.txn? = some txn) : txn ∈ s.fibers :=
  mem_append_left _ (mem_append_left _ (mem_filterMap.mpr ⟨f, h, ht⟩))

lemma owner_of_fiber (hf : s.Fibered) (he : e ∈ s.limbo.queue) (h : e.txn ∈ s.fibers) :
    s.limbo.ownerId = s.instanceId := by
  by_contra hother
  exact hf.foreign hother e.slot (mem_map_of_mem he) h

namespace LimboNode.Phased

lemma of_journaled (h : s.Phased) (ho : s.Ordered) (he : e ∈ s.limbo.queue)
    (hj : e.txn ∈ s.journaled) :
    .txn e.txn (decide (s.limbo.ownerId = s.instanceId)) ∈ s.journal ∧
      e.signature = txnSignatureUnknown ∧ e.isPrepared = true := by
  cases h.phase e he with
  | sent hm hs hp => exact ⟨hm, hs, hp⟩
  | written _ hw _ => exact absurd (written_lt_journaled ho hw hj) (Nat.lt_irrefl _)
  | failed _ _ _ _ hf => exact absurd (mem_inFlight.mpr (.inr hj)) hf
  | resting _ _ hb _ _ => exact absurd (hb _ hj) (Nat.lt_irrefl _)

lemma of_written (h : s.Phased) (ho : s.Ordered) (he : e ∈ s.limbo.queue)
    (hw : e.txn ∈ s.written.map Prod.fst) :
    s.limbo.ownerId = s.instanceId ∧ 0 ≤ e.signature := by
  cases h.phase e he with
  | sent hm _ _ =>
    exact absurd (written_lt_journaled ho hw (mem_journaled.mpr ⟨_, hm⟩)) (Nat.lt_irrefl _)
  | written how _ hs => exact ⟨how, hs⟩
  | failed _ _ _ _ hf => exact absurd (mem_inFlight.mpr (.inl hw)) hf
  | resting _ _ _ hn _ => exact absurd hw hn

lemma of_failing (h : s.Phased) (hf : s.Fibered) (he : e ∈ s.limbo.queue)
    (hfa : e.txn ∈ s.failing) :
    s.limbo.ownerId = s.instanceId ∧ e.isDone = true ∧ e.lsn = -1 ∧ e.txn ∉ s.inFlight := by
  have hr := mem_failing.mp hfa
  have ho := owner_of_fiber hf he (mem_fibers_of_ready hr rfl)
  cases h.phase e he with
  | sent hm _ _ =>
    rw [decide_eq_true ho] at hm
    exact absurd hm (ready_not_asleep hf hr rfl).1
  | written _ hw _ =>
    obtain ⟨lsn, hw⟩ := mem_written_fst.mp hw
    cases ready_unique hf hr hw rfl rfl
  | failed _ _ hd hl hfl => exact ⟨ho, hd, hl, hfl⟩
  | resting _ _ _ _ hn => exact absurd hfa hn

lemma failing_of_done (h : s.Phased) (he : e ∈ s.limbo.queue) (hd : e.isDone = true) :
    e.txn ∈ s.failing := by
  have hn : e.signature < 0 ∧ e.signature ≠ txnSignatureUnknown := by
    simpa [LimboEntry.isDone] using hd
  cases h.phase e he with
  | sent _ hs _ => exact absurd hs hn.2
  | failed _ hf _ _ _ => exact hf
  | written _ _ hs | resting hs _ _ _ _ => exact absurd hn.1 (Int.not_lt.mpr hs)

end LimboNode.Phased

/-- The lists in which a transaction can stand are the same for this one. -/
structure LimboNode.SamePlace (s s' : LimboNode) (txn : Nat) : Prop where
  journal : ∀ b, .txn txn b ∈ s.journal → .txn txn b ∈ s'.journal := by exact fun _ h => h
  before : ∀ u ∈ s'.journaled, u ∈ s.journaled ∨ txn < u := by exact fun _ h => .inl h
  written : txn ∈ s'.written.map Prod.fst ↔ txn ∈ s.written.map Prod.fst := by exact .rfl
  failing : txn ∈ s'.failing ↔ txn ∈ s.failing := by exact .rfl

lemma LimboNode.Phase.keep (h : s.Phase e) (hp : s.SamePlace s' e.txn)
    (ho : s'.limbo.ownerId = s.limbo.ownerId) (hi : s'.instanceId = s.instanceId) :
    s'.Phase e := by
  have hj (hm : e.txn ∈ s'.journaled) : e.txn ∈ s.journaled :=
    (hp.before _ hm).resolve_right (Nat.lt_irrefl _)
  cases h with
  | sent hm hs hpr =>
    refine .sent ?_ hs hpr
    rw [ho, hi]
    exact hp.journal _ hm
  | written hl hm hs => exact .written (by rw [ho, hi, hl]) (hp.written.mpr hm) hs
  | failed hl hm hd hls hfl =>
    refine .failed (by rw [ho, hi, hl]) (hp.failing.mpr hm) hd hls ?_
    intro hm'
    refine hfl (mem_inFlight.mpr ((mem_inFlight.mp hm').imp hp.written.mp hj))
  | resting hs hls hb hw hf =>
    refine .resting hs hls (fun u hu => ?_) (fun hm => hw (hp.written.mp hm))
      fun hm => hf (hp.failing.mp hm)
    exact (hp.before u hu).elim (hb u) id

lemma mem_update {l : TxnLimbo} {f : LimboEntry → LimboEntry} (h : e ∈ (l.update txn f).queue) :
    ∃ d ∈ l.queue, d.txn = txn ∧ e = f d ∨ d.txn ≠ txn ∧ e = d := by
  obtain ⟨d, hd, rfl⟩ := mem_map.mp h
  by_cases he : d.txn = txn
  · exact ⟨d, hd, .inl ⟨he, if_pos he⟩⟩
  · exact ⟨d, hd, .inr ⟨he, if_neg he⟩⟩

namespace LimboNode.Phased

/-- Some entries leave the queue, and the others stay where they are. -/
lemma shrink (h : s.Phased) (hq : ∀ e ∈ s'.limbo.queue, e ∈ s.limbo.queue)
    (hp : ∀ e ∈ s'.limbo.queue, s.SamePlace s' e.txn)
    (ho : s'.limbo.ownerId = s.limbo.ownerId := by rfl)
    (hi : s'.instanceId = s.instanceId := by rfl) : s'.Phased := by
  refine ⟨fun e he => (h.phase e (hq e he)).keep (hp e he) ho hi,
    fun e he => h.async e (hq e he), fun hot e he => ?_⟩
  rw [ho, hi] at hot
  exact h.remote hot e (hq e he)

lemma update {f : LimboEntry → LimboEntry} (h : s.Phased)
    (hq : s'.limbo.queue = (s.limbo.update txn f).queue)
    (hp : ∀ e ∈ s.limbo.queue, e.txn ≠ txn → s.SamePlace s' e.txn)
    (hph : ∀ e ∈ s.limbo.queue, e.txn = txn → s'.Phase (f e))
    (ha : ∀ e ∈ s.limbo.queue, e.txn = txn → (f e).waitAck = false → (f e).lsn = -1)
    (hr : s.limbo.ownerId ≠ s.instanceId → ∀ e ∈ s.limbo.queue, e.txn = txn →
      (f e).waitAck = true → 0 < (f e).lsn)
    (how : s'.limbo.ownerId = s.limbo.ownerId) (hi : s'.instanceId = s.instanceId) :
    s'.Phased := by
  refine ⟨?_, ?_, fun ho => ?_⟩ <;> rw [hq] <;> intro e he <;>
    obtain ⟨d, hd, ⟨ht, rfl⟩ | ⟨ht, rfl⟩⟩ := mem_update he
  · exact hph d hd ht
  · exact (h.phase _ hd).keep (hp _ hd ht) how hi
  · exact ha d hd ht
  · exact h.async _ hd
  · rw [how, hi] at ho
    exact hr ho d hd ht
  · rw [how, hi] at ho
    exact h.remote ho _ hd

lemma push {d : LimboEntry} (h : s.Phased) (ho : s.Ordered)
    (hq : s'.limbo.queue = s.limbo.queue ++ [d]) (ht : d.txn = s.nextTxn)
    (hs : d.signature = txnSignatureUnknown) (hp : d.isPrepared = true)
    (hj : s'.journal = s.journal ++ [.txn s.nextTxn (decide (s.limbo.ownerId = s.instanceId))])
    (hr : s'.ready = s.ready) (ha : d.waitAck = false → d.lsn = -1)
    (hre : s.limbo.ownerId ≠ s.instanceId → d.waitAck = true → 0 < d.lsn)
    (how : s'.limbo.ownerId = s.limbo.ownerId) (hi : s'.instanceId = s.instanceId) :
    s'.Phased := by
  have hpl (e : LimboEntry) (he : e ∈ s.limbo.queue) : s.SamePlace s' e.txn := by
    have hl : e.txn < s.nextTxn := ho.id_lt e.slot (mem_map_of_mem he)
    refine ⟨fun b hb => ?_, fun u hu => ?_, ?_, ?_⟩
    · rw [hj]
      exact mem_append_left _ hb
    · have hjo : s'.journaled = s.journaled ++ [s.nextTxn] := by
        simp [LimboNode.journaled, hj, JournalEntry.txn?]
      rw [hjo] at hu
      refine (mem_append.mp hu).imp id fun hu => ?_
      rw [mem_singleton.mp hu]
      exact hl
    · simp [LimboNode.written, hr]
    · simp [LimboNode.failing, hr]
  refine ⟨?_, ?_, fun hot => ?_⟩ <;> rw [hq, forall_mem_append, forall_mem_singleton]
  · refine ⟨fun e he => (h.phase e he).keep (hpl e he) how hi, .sent ?_ hs hp⟩
    rw [hj, how, hi, ht]
    exact mem_append_right _ (mem_singleton_self _)
  · exact ⟨h.async, ha⟩
  · rw [how, hi] at hot
    exact ⟨h.remote hot, hre hot⟩

end LimboNode.Phased

lemma pop_written (s' : LimboNode) {lsn : Int} {rest : List Fiber} (ho : s.Ordered)
    (hf : s.Fibered) (hr : s.ready = .written txn lsn :: rest) (hre : s'.ready = rest)
    (hjo : s'.journal = s.journal) :
    (∀ u ∈ s'.journaled, txn < u) ∧ txn ∉ s'.written.map Prod.fst ∧ txn ∉ s'.failing := by
  have hw : s.written = (txn, lsn) :: s'.written := by
    simp [LimboNode.written, hr, hre, written?]
  have hm : txn ∈ s.written.map Prod.fst := by simp [hw]
  have hj : s'.journaled = s.journaled := by simp [LimboNode.journaled, hjo]
  refine ⟨fun u hu => written_lt_journaled ho hm (hj ▸ hu), ?_, ?_⟩
  · have hn := (pairwise_append.mp ho.flight).1
    rw [hw, map_cons, pairwise_cons] at hn
    exact fun hm' => Nat.lt_irrefl _ (hn.1 txn hm')
  · intro hfa
    have hfa : .failed txn ∈ s.ready := by
      rw [hr]
      exact mem_cons_of_mem _ (hre ▸ mem_failing.mp hfa)
    have hh : .written txn lsn ∈ s.ready := by simp [hr]
    cases ready_unique hf hfa hh rfl rfl

lemma samePlace_pop {fiber : Fiber} {rest : List Fiber} (hr : s.ready = fiber :: rest)
    (hre : s'.ready = rest) (hj : s'.journal = s.journal)
    (hw : ∀ lsn, fiber ≠ .written u lsn) (hf : fiber ≠ .failed u) :
    s.SamePlace s' u := by
  refine ⟨fun b hb => hj ▸ hb, fun v hv => .inl ?_, ?_, ?_⟩
  · simpa [LimboNode.journaled, hj] using hv
  · rw [mem_written_fst, mem_written_fst, hr, hre]
    constructor
    · exact fun ⟨lsn, h⟩ => ⟨lsn, mem_cons_of_mem _ h⟩
    · exact fun ⟨lsn, h⟩ => ⟨lsn, (mem_cons.mp h).resolve_left fun he => hw lsn he.symm⟩
  · rw [mem_failing, mem_failing, hr, hre]
    constructor
    · exact mem_cons_of_mem _
    · exact fun h => (mem_cons.mp h).resolve_left fun he => hf he.symm

lemma samePlace_journal (woken : List Fiber)
    (hj : ∀ b, .txn u b ∈ s.journal → .txn u b ∈ s'.journal)
    (hs : ∀ v b, .txn v b ∈ s'.journal → .txn v b ∈ s.journal)
    (hr : s'.ready = s.ready ++ woken)
    (hwo : ∀ f ∈ woken, f.written? = none ∧ f.failed? = none ∨ f.txn? ≠ some u) :
    s.SamePlace s' u := by
  have hn {f : Fiber} (hf : f.written? ≠ none ∨ f.failed? ≠ none) (ht : f.txn? = some u) :
      f ∈ s'.ready ↔ f ∈ s.ready := by
    rw [hr, mem_append, or_iff_left_iff_imp]
    intro hm
    rcases hwo f hm with ⟨hw, hfa⟩ | hne
    · exact (hf.elim (· hw) (· hfa)).elim
    · exact absurd ht hne
  refine ⟨hj, fun v hv => .inl ?_, ?_, ?_⟩
  · obtain ⟨b, hb⟩ := mem_journaled.mp hv
    exact mem_journaled.mpr ⟨b, hs v b hb⟩
  · simp only [mem_written_fst, hn (f := .written u _) (.inl (by simp [written?])) rfl]
  · rw [mem_failing, mem_failing, hn (.inr (by simp [failed?])) rfl]

lemma samePlace_refl (u : Nat) (hj : s'.journal = s.journal) (hr : s'.ready = s.ready) :
    s.SamePlace s' u :=
  samePlace_journal [] (fun _ h => hj ▸ h) (fun _ _ h => hj ▸ h) (by simp [hr]) (by simp)

lemma samePlace_answer (woken : List Fiber) (hj : s.journal.Perm (w :: s'.journal))
    (hn : ∀ b, w ≠ .txn u b) (hr : s'.ready = s.ready ++ woken)
    (hw : ∀ f ∈ woken, f.written? = none ∧ f.failed? = none ∨ f.txn? ≠ some u) :
    s.SamePlace s' u :=
  samePlace_journal woken (fun b hb => (mem_cons.mp (hj.mem_iff.mp hb)).resolve_left (hn b).symm)
    (fun _ _ hb => hj.mem_iff.mpr (mem_cons_of_mem _ hb)) hr hw

lemma LimboNode.Input.phased (he : s.Input s') (ho : s.Ordered) (h : s.Phased) : s'.Phased := by
  cases he with
  | skip => exact h.shrink (fun _ he => he) fun _ _ => samePlace_refl _ rfl rfl
  | @push waitAck hin how hn hh =>
    refine h.push ho rfl rfl rfl rfl (by simp [how]) rfl (fun _ => rfl) ?_ rfl rfl
    exact fun hot => absurd how hot
  | pushRemote hin how hn hh hla hls =>
    refine h.push ho rfl rfl rfl rfl (by simp [how]) rfl ?_ ?_ rfl rfl
    · intro ha
      exact (hls.resolve_left fun hl => absurd (hl.1.symm.trans ha) (by simp)).2
    · intro _ ha
      exact (hls.resolve_right fun hl => absurd (hl.1.symm.trans ha) (by simp)).2.1
  | reject _ _ _ hli =>
    subst hli
    exact h.shrink (fun _ he => he) fun _ _ => samePlace_refl _ rfl rfl
  | @process req rest limbo hj hs hi hp =>
    rcases process_some hp with ⟨hq, how, -⟩ | ⟨hq, -, -⟩
    · refine h.shrink (fun e he => hq.mem he) (fun e _ => ?_) how
      exact samePlace_answer [] (.of_eq hj) (by simp) (by simp) (by simp)
    · constructor <;> simp [hq]

lemma samePlace_send (hj : s'.journal = s.journal ++ [w]) (hw : w.txn? = none)
    (hr : s'.ready = s.ready) : s.SamePlace s' u := by
  refine samePlace_journal [] (fun b hb => ?_) (fun v b hb => ?_) (by simp [hr]) (by simp)
  · rw [hj]
    exact mem_append_left _ hb
  · rw [hj] at hb
    refine (mem_append.mp hb).resolve_right fun hl => ?_
    rw [← mem_singleton.mp hl] at hw
    cases hw

/-- A transaction stands in the journal once, as what its owner makes it. -/
lemma LimboNode.Phased.journal_head (h : s.Phased) (ho : s.Ordered) (he : e ∈ s.limbo.queue)
    {blocking : Bool} {rest : List JournalEntry} (hj : s.journal = .txn e.txn blocking :: rest) :
    blocking = decide (s.limbo.ownerId = s.instanceId) ∧
      ∀ txn ∈ rest.filterMap JournalEntry.txn?, e.txn < txn := by
  obtain ⟨hbl, -, -⟩ := h.of_journaled ho he (mem_journaled.mpr ⟨blocking, by simp [hj]⟩)
  have hjo : s.journaled = e.txn :: rest.filterMap JournalEntry.txn? := by
    simp [LimboNode.journaled, hj, JournalEntry.txn?]
  have hi := journaled_increasing ho
  rw [hjo, pairwise_cons] at hi
  refine ⟨?_, hi.1⟩
  rw [hj] at hbl
  rcases mem_cons.mp hbl with heq | hm
  · cases heq
    rfl
  · exact absurd (hi.1 e.txn (mem_filterMap.mpr ⟨_, hm, rfl⟩)) (Nat.lt_irrefl _)

/-- Every effect moves the entries from phase to phase. -/
lemma LimboNode.Effect.phased (he : s.Effect s') (ho : s.Ordered) (hf : s.Fibered)
    (h : s.Phased) : s'.Phased := by
  have hl {d e : LimboEntry} {kept : List LimboEntry} (hq : s.limbo.queue = kept ++ [e])
      (hd : d ∈ kept) : d ∈ s.limbo.queue ∧ e.txn ≠ d.txn := by
    have hp := ho.queue_ids
    rw [hq] at hp ⊢
    exact ⟨mem_append_left _ hd, Nat.ne_of_gt ((pairwise_append.mp hp).2.2 d hd e (by simp))⟩
  cases he with
  | wait _ _ | unwait | tune _ | count _ _ _ _ _ _ =>
    exact h.shrink (fun _ he => he) fun _ _ => samePlace_refl _ rfl rfl
  | request _ | writeConfirm _ _ _ _ | writeRollback _ _ _ _ _ _ =>
    exact h.shrink (fun _ he => he) fun _ _ => samePlace_send rfl rfl rfl
  | @written txn blocking lsn signature rest hj hls hsi =>
    have hm : txn ∈ s.journaled := mem_journaled.mpr ⟨blocking, by simp [hj]⟩
    refine h.update rfl (fun e he hne => ?_) (fun e he ht => ?_) (fun e he ht => h.async e he)
      (fun hot e he ht => h.remote hot e he) rfl rfl
    · cases blocking with
      | true =>
        refine samePlace_answer [.written txn lsn] (.of_eq hj) (by simpa using hne.symm) rfl ?_
        exact forall_mem_singleton.mpr (.inr fun heq => hne (some.inj heq).symm)
      | false => exact samePlace_answer [] (.of_eq hj) (by simpa using hne.symm) (by simp) (by simp)
    · subst ht
      obtain ⟨hsa, hi⟩ := h.journal_head ho he hj
      cases blocking with
      | true =>
        have how : s.limbo.ownerId = s.instanceId := by simpa using hsa.symm
        refine .written how (mem_written_fst.mpr ⟨lsn, ?_⟩) hsi
        simp [LimboEntry.sign]
      | false =>
        have hot : s.limbo.ownerId ≠ s.instanceId := by simpa using hsa.symm
        refine .resting hsi (h.remote hot e he) hi (fun hw => ?_) fun hfai => ?_
        · exact Nat.lt_irrefl _ (written_lt_journaled ho hw hm)
        · refine hot (owner_of_fiber hf he ?_)
          exact mem_fibers_of_ready (mem_failing.mp hfai) rfl
  | confirmDone hj hls =>
    refine h.shrink (fun _ he => he) fun e _ => ?_
    exact samePlace_answer [.confirmed _ _] (.of_eq hj) (by simp) rfl (by simp [written?, failed?])
  | rollbackDone hj hls =>
    refine h.shrink (fun _ he => he) fun e _ => ?_
    exact samePlace_answer [.rolledBack _] (.of_eq hj) (by simp) rfl (by simp [written?, failed?])
  | @fail txn res kept hj hre =>
    have hm : txn ∈ s.journaled := mem_journaled.mpr ⟨true, by simp [hj]⟩
    refine h.update rfl (fun e he hne => ?_) (fun e he ht => ?_) (fun e he ht => h.async e he)
      (fun hot e he ht => h.remote hot e he) rfl rfl
    · refine samePlace_answer [.failed txn] (hj ▸ perm_append_singleton _ _)
        (by simpa using hne.symm) rfl ?_
      exact forall_mem_singleton.mpr (.inr fun heq => hne (some.inj heq).symm)
    · subst ht
      have hfl : s.inFlight = LimboNode.inFlight { s with
          journal := kept
          limbo := s.limbo.update e.txn (LimboEntry.fail res)
          ready := s.ready ++ [.failed e.txn] } ++ [e.txn] := by
        simp [LimboNode.inFlight, LimboNode.written, hj, JournalEntry.txn?, written?]
      have how : s.limbo.ownerId = s.instanceId := by
        refine owner_of_fiber hf he (mem_append_left _ (mem_append_right _ ?_))
        exact mem_filterMap.mpr ⟨.txn e.txn true, by simp [hj], rfl⟩
      refine .failed how (mem_failing.mpr (by simp [LimboEntry.fail])) ?_ ?_ ?_
      · rcases hre with rfl | rfl <;> rfl
      · exact ho.unassigned how e.txn (by simp [hfl]) e.slot (mem_map_of_mem he) (Nat.le_refl _)
      · intro hin
        have hs := ho.flight
        rw [hfl] at hs
        exact Nat.lt_irrefl _ ((pairwise_append.mp hs).2.2 _ hin e.txn (by simp))
  | failRemote hj hq ht =>
    refine h.shrink (fun d hd => (hl hq hd).1) fun d hd => ?_
    have hne := (hl hq hd).2
    rw [ht] at hne
    exact samePlace_answer [] (hj ▸ perm_append_singleton _ _) (by simpa using hne)
      (by simp) (by simp)
  | failPlain hj hpl =>
    refine h.shrink (fun _ he => he) fun e he => ?_
    have hne := (hpl e he).symm
    exact samePlace_answer [] (hj ▸ perm_append_singleton _ _) (by simpa using hne)
      (by simp) (by simp)
  | failSynchro hj =>
    refine h.shrink (fun _ he => he) fun e he => ?_
    exact samePlace_answer [] (hj ▸ perm_append_singleton _ _) (by simp) (by simp) (by simp)
  | @pop txn fiber rest hr hfi =>
    rcases hfi with ⟨⟨lsn, rfl⟩, ha⟩ | ⟨rfl, hn⟩
    · have hm : txn ∈ s.written.map Prod.fst := mem_written_fst.mpr ⟨lsn, by simp [hr]⟩
      obtain ⟨hb, hwr, hfa⟩ := pop_written { s with ready := rest } ho hf hr rfl rfl
      refine ⟨fun e he => ?_, h.async, h.remote⟩
      by_cases hne : e.txn = txn
      · subst hne
        refine .resting (h.of_written ho he hm).2 (fun hac => ?_) hb hwr hfa
        exact absurd (hac.symm.trans (ha e he rfl)) (by simp)
      · refine (h.phase e he).keep (samePlace_pop hr rfl rfl ?_ (by simp)) rfl rfl
        simpa using fun heq => hne heq.symm
    · refine h.shrink (fun _ he => he) fun e he => samePlace_pop hr rfl rfl (by simp) ?_
      simpa using fun heq => hn e he heq.symm
  | @assign txn lsn rest hr how hen =>
    have hm : (txn, lsn) ∈ s.written := mem_written.mpr (by simp [hr])
    obtain ⟨d, hd, hdt, hac⟩ := hen
    obtain ⟨hb, hwr, hfa⟩ := pop_written { s with
      ready := rest
      limbo := s.limbo.update txn (LimboEntry.assign lsn)
      ackCount := Function.update s.ackCount txn (vclockCount s.vclock lsn)
      acked := s.acked ++ [(s.limbo.ownerId, lsn)] } ho hf hr rfl rfl
    refine h.update rfl (fun e he hne => ?_) (fun e he ht => ?_) (fun e he ht hfs => ?_)
      (fun hot => absurd how hot) rfl rfl
    · refine samePlace_pop hr rfl rfl ?_ (by simp)
      simpa using fun heq => hne heq.symm
    · subst ht
      refine .resting (h.of_written ho he (mem_map_of_mem (f := Prod.fst) hm)).2
        (fun _ => (ho.written_le _ hm).1) hb hwr hfa
    · obtain rfl : e = d := ho.unique he hd (ht.trans hdt.symm)
      exact absurd (hac.symm.trans hfs) (by simp)
  | @abort txn rest queue e hr hq ht =>
    refine h.shrink (fun d hd => (hl hq hd).1) fun d hd => ?_
    have hne := (hl hq hd).2
    rw [ht] at hne
    exact samePlace_pop hr rfl rfl (by simp) (by simpa using hne)
  | confirm hr hc =>
    obtain ⟨front, rest, hq, -, -, -, rfl⟩ := readConfirm_some hc
    refine h.shrink (fun d hd => ?_) fun d _ => samePlace_pop hr rfl rfl (by simp) (by simp)
    rw [hq]
    exact mem_append_right _ hd
  | rollBack hr hq hdo hk =>
    refine h.shrink (fun d hd => ?_) fun d _ => samePlace_pop hr rfl rfl (by simp) (by simp)
    rw [hq]
    exact mem_append_left _ hd

end TarantoolStorage
