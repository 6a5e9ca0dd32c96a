import TarantoolStorage.Limbo.Decisions
import TarantoolStorage.Limbo.Pending

/-!
What is decided stays decided: in calm runs nothing is rolled back that a confirmed LSN covers.
-/
namespace TarantoolStorage

open Checked Relation Transition Deque List LimboNode LimboEntry

/-- Whoever was rolled back has an LSN above the one that was confirmed before, if any. -/
def TxnLimbo.Spares (l l' : TxnLimbo) (confirmedLsn : Int) : Prop :=
  ∀ e ∈ l'.completed, e ∈ l.completed ∨ (e.isRollback = true → 0 < e.lsn → confirmedLsn < e.lsn)

structure LimboNode.Safe (s : LimboNode) : Prop where
  rising : Rising s.foreignAcks
  counted : s.Counted
  phased : s.Phased
  lined : s.Lined
  confirming : s.Confirming
  rollingBack : s.RollingBack
  logged : ∃ moves, s.limbo.Logged s.nextTxn moves

variable {s s' s'' : LimboNode} {l l' : TxnLimbo} {a : NodeAction} {bound : Int}

lemma TxnLimbo.Spares.refl (l : TxnLimbo) (bound : Int) : l.Spares l bound := fun _ he => .inl he

lemma TxnLimbo.Spares.of_append (more : List LimboEntry) (h : l'.completed = l.completed ++ more)
    (hm : ∀ e ∈ more, e.isRollback = true → 0 < e.lsn → bound < e.lsn) : l.Spares l' bound := by
  intro e he
  rw [h] at he
  rcases mem_append.mp he with he | he
  · exact .inl he
  · exact .inr (hm e he)

lemma TxnLimbo.Spares.mono {bound' : Int} (h : l.Spares l' bound') (hl : bound ≤ bound') :
    l.Spares l' bound :=
  fun e he => (h e he).imp_right fun hg hb hp => hl.trans_lt (hg hb hp)

lemma TxnLimbo.Spares.trans {l'' : TxnLimbo} (h : l.Spares l' bound)
    (h' : l'.Spares l'' bound) : l.Spares l'' bound := by
  intro e he
  rcases h' e he with he | hg
  · exact h e he
  · exact .inr hg

lemma TxnLimbo.Spares.confirmFront {front : List LimboEntry} (rest : List LimboEntry)
    (hu : ∀ e ∈ front, e.isRollback = false) : l.Spares (l.confirmFront front rest) bound := by
  refine .of_append _ rfl fun e he hb => ?_
  obtain ⟨d, hd, rfl⟩ := mem_map.mp he
  have hf : d.isRollback = false := hu d (mem_filter.mp hd).1
  exact absurd (hf.symm.trans hb) (by simp)

lemma TxnLimbo.Spares.rollBackEnd {back : List LimboEntry} {signature : Int}
    (kept : List LimboEntry)
    (h : ∀ e ∈ back, 0 < e.lsn → bound < e.lsn) :
    l.Spares (l.rollBackEnd signature kept back) bound := by
  refine .of_append _ rfl fun e he _ => ?_
  obtain ⟨d, hd, rfl⟩ := mem_map.mp he
  exact h d (mem_reverse.mp hd)

lemma LimboNode.Safe.not_rolledBack (h : s.Safe) : ∀ e ∈ s.limbo.queue, e.isRollback = false := by
  obtain ⟨moves, hl⟩ := h.logged
  exact fun e he => (hl.undecided e he).2

/-- A transaction whose write is not waited for is one of another instance. -/
lemma LimboNode.Safe.remote_of_journaled {e : LimboEntry} (h : s.Safe) (ho : s.Ordered)
    (he : e ∈ s.limbo.queue) (hj : .txn e.txn false ∈ s.journal) :
    s.limbo.ownerId ≠ s.instanceId := by
  intro how
  obtain ⟨hm, -⟩ := h.phased.of_journaled ho he (mem_journaled.mpr ⟨false, hj⟩)
  have hn : s.journaled.Nodup := (journaled_increasing ho).imp fun hl => Nat.ne_of_lt hl
  have heq := eq_of_nodup_filterMap hn hj hm rfl rfl
  simp [how] at heq

lemma LimboNode.Effect.spares (he : s.Effect s') (ho : s.Ordered) (hf : s.Fibered)
    (h : s.Safe) : s.limbo.Spares s'.limbo s.limbo.confirmedLsn := by
  cases he with
  | @failRemote txn res kept queue e hj hq ht =>
    have hm : e ∈ s.limbo.queue := by simp [hq]
    have hot := h.remote_of_journaled ho hm (by simp [hj, ht])
    refine .of_append [_] rfl fun d hd _ hp => ?_
    rw [h.confirming.remote hot]
    exact hp
  | @abort txn rest queue e hr hq ht =>
    have hfa : e.txn ∈ s.failing := mem_failing.mpr (by simp [hr, ht])
    obtain ⟨-, -, hl, -⟩ := h.phased.of_failing hf (by simp [hq]) hfa
    refine .of_append [_] rfl fun d hd _ hp => ?_
    rw [mem_singleton.mp hd] at hp
    have hp : 0 < e.lsn := hp
    omega
  | confirm hr hc =>
    obtain ⟨front, rest, hq, -, -, -, rfl⟩ := readConfirm_some hc
    exact .confirmFront _ fun e he => h.not_rolledBack e (hq ▸ mem_append_left _ he)
  | rollBack hr hq hdo hk =>
    have hi := h.rollingBack.inRollback hr
    refine .rollBackEnd _ fun e he hp => ?_
    exact h.rollingBack.above hi e (hq ▸ mem_append_right _ he) (by omega)
  | _ => exact .refl _ _

lemma LimboNode.Input.spares (he : s.Input s') (ha : s.Admits s') (h : s.Safe) :
    s.limbo.Spares s'.limbo s.limbo.confirmedLsn := by
  cases he with
  | skip | push _ _ _ _ | pushRemote _ _ _ _ _ _ => exact .refl _ _
  | @reject e limbo ht hc hls hl =>
    subst hl
    refine .of_append [_] rfl fun d hd _ hpo => ?_
    rw [mem_singleton.mp hd] at hpo ⊢
    rcases hls with hn | ⟨ho, -⟩
    · exact absurd hpo (by simp [hn])
    · rw [h.confirming.remote ho]
      exact hpo
  | process hj hs hi hp =>
    have hu {front back : List LimboEntry} (hq : s.limbo.queue = front ++ back) :
        ∀ e ∈ front, e.isRollback = false :=
      fun e he => h.not_rolledBack e (hq ▸ mem_append_left _ he)
    cases ha.processed hj hs hp with
    | ignored => exact .refl _ _
    | @confirmed _ _ _ rest _ hq => exact TxnLimbo.Spares.confirmFront (l := s.limbo) rest (hu hq)
    | @rolledBack _ _ kept back ho hq =>
      refine TxnLimbo.Spares.rollBackEnd (l := s.limbo) kept fun e _ hpo => ?_
      rw [h.confirming.remote ho]
      exact hpo
    | @handedOver map greatest ownerId front back hse hn hq =>
      -- with no confirmation under way, none of them is covered
      have hb : ∀ e ∈ back, 0 < e.lsn → s.limbo.confirmedLsn < e.lsn := by
        intro e he hpo
        by_contra hle
        obtain ⟨lsn, hls, -⟩ := h.confirming.covered e (hq ▸ mem_append_right _ he)
          (by omega) (Int.not_lt.mp hle)
        rw [hn] at hls
        cases hls
      exact (TxnLimbo.Spares.confirmFront (l := s.limbo) _ (hu hq)).trans
        (.rollBackEnd (l := s.limbo.confirmFront front back) [] hb)

lemma LimboNode.Effect.confirmedLsn_le (he : s.Effect s') :
    s.limbo.confirmedLsn ≤ s'.limbo.confirmedLsn := by
  cases he with
  | confirm hr hc =>
    obtain ⟨front, rest, -, -, -, -, rfl⟩ := readConfirm_some hc
    exact Int.le_refl _
  | writeConfirm hg _ _ _ => exact hg.le
  | _ => exact Int.le_refl _

lemma LimboNode.Effect.safe (he : s.Effect s') (ho : s.Ordered) (hf : s.Fibered)
    (h : s.Safe) : s'.Safe := by
  have hs := he.shape
  have hr : Rising s'.foreignAcks := hs.foreignAcks_eq.1 ▸ h.rising
  obtain ⟨hc, hro⟩ := he.pending ho h.counted h.lined h.confirming h.rollingBack
  obtain ⟨moves, hl⟩ := h.logged
  exact ⟨hr, hs.counted ho hf (fun _ => h.counted) fun _ => hr,
    he.phased ho hf h.phased, he.lined ho hf h.phased h.lined, hc, hro,
    he.logged hl⟩

lemma LimboNode.Input.safe (he : s.Input s') (ha : s.Admits s') (ho : s.Ordered)
    (hf : s.Fibered) (h : s.Safe) : s'.Safe := by
  have hs := he.shape
  have hr : Rising s'.foreignAcks := hs.foreignAcks_eq.1 ▸ h.rising
  obtain ⟨hc, hro⟩ := he.pending ha ho hf h.confirming h.rollingBack
  obtain ⟨moves, hl⟩ := h.logged
  exact ⟨hr, hs.counted ho hf (fun _ => h.counted) fun _ => hr,
    he.phased ho h.phased, he.lined ha hf h.phased h.lined, hc, hro,
    he.logged hl⟩

lemma LimboNode.Phased.hear (h : s.Phased) : (s.hearing a).Phased := by
  refine ⟨fun e he => ?_, h.async, h.remote⟩
  cases h.phase e he with
  | sent hm hs hp => exact .sent hm hs hp
  | written ho hw hs => exact .written ho hw hs
  | failed ho hm hd hl hfl => exact .failed ho hm hd hl hfl
  | resting hs hl hb hwr hf => exact .resting hs hl hb hwr hf

lemma LimboNode.Calm.rising (h : s.Calm a) (hr : Rising s.foreignAcks) :
    Rising (s.hearing a).foreignAcks := by
  have hs (hn : a.acks = []) : Rising (s.hearing a).foreignAcks := by
    rw [hearing_of_nil hn]
    exact hr
  cases a with
  | ack replicaId lsn =>
    rw [foreignAcks, hearing, filter_append]
    refine pairwise_append.mpr ⟨hr, ?_, ?_⟩
    · split
      · exact (pairwise_singleton _ _).sublist filter_sublist
      · exact Pairwise.nil
    · intro b hb c hc he
      have hc : c = (replicaId, lsn) := by
        have hc := (mem_filter.mp hc).1
        split at hc
        · exact mem_singleton.mp hc
        · cases hc
      subst hc
      exact h b (mem_filter.mp hb).1 he
  | _ => exact hs rfl

lemma LimboNode.Safe.hear (h : s.Safe) (hv : s.Valid a) (hca : s.Calm a) : (s.hearing a).Safe := by
  have hri := hca.rising h.rising
  have hco : s.CountedIfRising := fun _ => h.counted
  have hl := h.lined
  have hc := h.confirming
  have hr := h.rollingBack
  exact ⟨hri, hco.hear hv fun _ => hri, h.phased.hear,
    ⟨hl.head, hl.done_last, hl.assigned_first, hl.failing_order⟩,
    ⟨hc.covered, hc.owner, hc.le, hc.remote, hc.le_wal, hc.lt_written⟩,
    ⟨hr.none, hr.one, hr.above⟩, h.logged⟩

lemma LimboNode.Effects.safe (he : s.Effects s') (ho : s.Ordered) (hf : s.Fibered)
    (h : s.Safe) : s'.Ordered ∧ s'.Fibered ∧ s'.Safe ∧
      s.limbo.confirmedLsn ≤ s'.limbo.confirmedLsn ∧
        s.limbo.Spares s'.limbo s.limbo.confirmedLsn := by
  induction he with
  | refl => exact ⟨ho, hf, h, Int.le_refl _, .refl _ _⟩
  | tail _ he ih =>
    obtain ⟨ho, hf, h, hl, hs⟩ := ih
    exact ⟨he.ordered ho, he.fibered hf, he.safe ho hf h, hl.trans he.confirmedLsn_le,
      hs.trans ((he.spares ho hf h).mono hl)⟩

/-- One step of a calm instance keeps it safe, and rolls back nothing that is confirmed. -/
lemma LimboNode.Safe.step (h : s.Safe) (ho : s.Ordered) (hf : s.Fibered) (hv : s.Valid a)
    (hc : s.Calm a) (hstep : s.step a = some s') :
    (s'.Ordered ∧ s'.Fibered ∧ s'.Safe) ∧ s.limbo.Spares s'.limbo s.limbo.confirmedLsn := by
  rcases step_effects hv ho hf hstep with ⟨hi, ht⟩ | he
  · have ha := hc.admits ht
    exact ⟨⟨hi.ordered ho, hi.fibered hf, hi.safe ha ho hf h⟩, hi.spares ha h⟩
  · obtain ⟨ho', hf', h', -, hs⟩ := Effects.safe he (ho.hear _) (hf.hear _) (h.hear hv hc)
    exact ⟨⟨ho', hf', h'⟩, hs⟩

lemma LimboNode.Fresh.safe (h : s.Fresh) : s.Safe := by
  have hq := h.queue_eq
  have hr := h.ready_eq
  have hj := h.journal_eq
  have hc : s.confirming = [] := by simp [confirming, hr, hj]
  have hro : s.rollingBack = [] := by simp [rollingBack, hr, hj]
  have hw : s.written = [] := by simp [written, hr]
  have hf : s.failing = [] := by simp [failing, hr]
  refine ⟨?_, h.counted, ?_, ?_, ?_, ?_, [], h.logged⟩
  · simp [foreignAcks, h.acked_eq, Rising]
  · constructor <;> simp [hq]
  · constructor <;> simp [hq, hf]
  · constructor <;> simp [hq, hc, h.confirmed_eq, hw, h.wal_nonneg]
  · constructor <;> simp [hro, h.rollback_eq]

/-- The run has decided about every entry once, as a queue that is decided from both ends. -/
structure TxnLimbo.Final (l : TxnLimbo) (nextTxn : Nat) : Prop where
  once : (l.completed.map txn ++ l.queue.map txn).Nodup
  marks : ∀ e ∈ l.completed, e.isRollback = !e.isCommit
  undecided : ∀ e ∈ l.queue, e.isCommit = false ∧ e.isRollback = false
  committed_in_order : ((l.completed.filter isCommit).map txn).Pairwise (· < ·)
  ends : ∃ moves, l.Logged nextTxn moves
  len : l.len = l.queue.length

lemma TxnLimbo.Logged.final {n : Nat} {moves : List (Move Nat)} (h : l.Logged n moves) :
    l.Final n := by
  have ht : l.completed.map txn = (moves.filterMap Move.decision?).map Prod.fst := by
    have hm := congrArg (List.map Prod.fst) h.decisions
    simpa [List.map_map, Function.comp_def, marks] using hm
  have hc : (l.completed.filter isCommit).map txn =
      ((moves.filterMap Move.decision?).filter Prod.snd).map Prod.fst := by
    have hm := congrArg (fun marks => (marks.filter fun m => m.2.1).map Prod.fst) h.decisions
    simpa [List.filter_map, List.map_map, Function.comp_def, marks] using hm
  refine ⟨?_, fun e he => ?_, h.undecided, ?_, ⟨moves, h⟩, h.len⟩
  · have hp := pushed_perm h.queue
    rw [nil_append] at hp
    have hpu : (moves.filterMap Move.pushed?).Nodup := h.increasing.imp fun hl => Nat.ne_of_lt hl
    rw [ht]
    exact (hp.nodup_iff.mp hpu).sublist (Sublist.append (decided_sublist moves) (Sublist.refl _))
  · have hme : e.marks ∈ (moves.filterMap Move.decision?).map fun d => (d.1, d.2, !d.2) :=
      h.decisions ▸ mem_map_of_mem he
    obtain ⟨d, -, hd⟩ := mem_map.mp hme
    simp only [marks, Prod.mk.injEq] at hd
    rw [← hd.2.1, ← hd.2.2]
  · have hs := front_sublist h.queue
    rw [nil_append] at hs
    rw [hc]
    exact h.increasing.sublist ((accepted_sublist moves).trans ((sublist_append_left _ _).trans hs))

/-- Nothing that the step rolls back was covered by the confirmed LSN. -/
def LimboNode.SparesConfirmed (s : LimboNode) (a : NodeAction) : Prop :=
  ∀ s', s.step a = some s' → s.limbo.Spares s'.limbo s.limbo.confirmedLsn

/-- In every calm run the limbo decides about each transaction once, commits in the order of the
queue, rolls back from its end, and never rolls back what is confirmed. -/
theorem decisions_final {start : LimboNode} {actions : List NodeAction} (hfresh : start.Fresh)
    (hvalid : Along step Valid start actions)
    (hcalm : Along step Calm start actions)
    (hrun : run step start actions = some s) :
    s.limbo.Final s.nextTxn ∧ Along step SparesConfirmed start actions := by
  have hs : start.Ordered ∧ start.Fibered ∧ start.Safe :=
    ⟨hfresh.ordered, hfresh.fibered, hfresh.safe⟩
  constructor
  · obtain ⟨moves, hl⟩ := run_logged hfresh hvalid hrun
    exact hl.final
  · refine along_of_invariant (P := fun u => u.Ordered ∧ u.Fibered ∧ u.Safe) ?_ ?_
      (hvalid.and hcalm) hs
    · rintro u a u' hstep ⟨hv, hc⟩ ⟨ho, hf, h⟩
      exact (h.step ho hf hv hc hstep).1
    · rintro u a ⟨hv, hc⟩ ⟨ho, hf, h⟩ u' hstep
      exact (h.step ho hf hv hc hstep).2

/-- One transaction is confirmed, the next one times out and takes its follower along. -/
def confirmedThenTimedOut : List NodeAction :=
  [.commit true true, .walDone 1 1, .run, .ack 2 1, .walDone 2 2, .run,
    .commit true true, .commit false true, .walDone 3 3, .walDone 4 4, .run, .run, .timeout 1,
    .walDone 5 5, .run]

theorem decisions_final_of_timeout :
    ∃ s, run step (owningNode false 2) confirmedThenTimedOut = some s ∧
      s.limbo.completed.map (fun e => (e.txn, e.isRollback)) =
        [(0, false), (2, true), (1, true)] ∧ s.limbo.Final s.nextTxn := by
  have hf : (owningNode false 2).Fresh := owningNode_fresh (by decide)
  have hv : Along step Valid (owningNode false 2)
      confirmedThenTimedOut := by decide
  have hc : Along step Calm (owningNode false 2)
      confirmedThenTimedOut := by decide
  exact ⟨_, rfl, by decide, (decisions_final hf hv hc rfl).1⟩

/-- A PROMOTE that does not know the transaction comes while CONFIRM for it is being written. -/
def handoverDuringConfirm : List NodeAction :=
  [.commit true true, .walDone 1 1, .run, .ack 3 1, .request (promoteTo 0), .walDone 2 2]

/-- A transaction is appended before the fiber of the one before it, whose write has failed,
has aborted it. -/
def appendedBehindFailed : List NodeAction :=
  [.commit true true, .walFail 1 journalEntryErrIo, .commit true true]

/-- The transaction is rolled back although its LSN is confirmed; and an entry has to be
rolled back that is not the last one, against an assertion of `txn_limbo_pop`. -/
theorem confirmed_rolled_back :
    (∃ s s', run step (owningNode false 2) handoverDuringConfirm = some s ∧
      Along step Valid (owningNode false 2) handoverDuringConfirm ∧
      s.limbo.confirmedLsn = 1 ∧ s.step (.walDone 3 3) = some s' ∧
      s'.limbo.completed.map (fun e => (e.lsn, e.isRollback)) = [(1, true)]) ∧
    ∃ s, run step (owningNode false 2) appendedBehindFailed = some s ∧
      Along step Valid (owningNode false 2) appendedBehindFailed ∧
      s.step .run = none :=
  ⟨⟨_, _, rfl, by decide, rfl, rfl, rfl⟩, ⟨_, rfl, by decide, rfl⟩⟩

end TarantoolStorage
