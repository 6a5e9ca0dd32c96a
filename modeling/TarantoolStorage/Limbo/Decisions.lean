import TarantoolStorage.Lib.Deque
import TarantoolStorage.Limbo.Acks
import TarantoolStorage.Limbo.Handover

/-! Which transactions are decided, when and in what order. -/
namespace TarantoolStorage

open Checked Relation Transition Deque List LimboEntry

/-- The marks of an entry, which only a decision sets. -/
def LimboEntry.marks (e : LimboEntry) : Nat × Bool × Bool := (e.txn, e.isCommit, e.isRollback)

/-- The limbo with the moves that have led to its queue and to its decisions. -/
structure TxnLimbo.Logged (l : TxnLimbo) (nextTxn : Nat) (moves : List (Move Nat)) : Prop where
  queue : run Deque.step [] moves = some (l.queue.map txn)
  decisions : l.completed.map LimboEntry.marks =
    (moves.filterMap Move.decision?).map fun d => (d.1, d.2, !d.2)
  undecided : ∀ e ∈ l.queue, e.isCommit = false ∧ e.isRollback = false
  increasing : (moves.filterMap Move.pushed?).Pairwise (· < ·)
  pushed_lt : ∀ txn ∈ moves.filterMap Move.pushed?, txn < nextTxn
  len : l.len = l.queue.length

def LimboEntry.confirmMove (e : LimboEntry) : Move Nat :=
  if e.Unwritten then .release e.txn else .accept e.txn

variable {s s' : LimboNode} {l l' : TxnLimbo} {n n' : Nat} {moves : List (Move Nat)}
  {front rest kept back : List LimboEntry}

lemma TxnLimbo.Logged.keep (h : l.Logged n moves)
    (hq : l'.queue.map LimboEntry.marks = l.queue.map LimboEntry.marks)
    (hc : l'.completed = l.completed) (hle : l'.len = l.len) (hn : n ≤ n') :
    l'.Logged n' moves := by
  have htx : l'.queue.map txn = l.queue.map txn := by
    simpa [List.map_map, Function.comp_def, LimboEntry.marks] using congrArg (List.map Prod.fst) hq
  have hl : l'.queue.length = l.queue.length := by simpa using congrArg List.length hq
  refine ⟨htx ▸ h.queue, hc ▸ h.decisions, fun e he => ?_, h.increasing, fun t ht =>
    (h.pushed_lt t ht).trans_le hn, by rw [hle, hl, h.len]⟩
  have hme : e.marks ∈ l.queue.map LimboEntry.marks := hq ▸ mem_map_of_mem he
  obtain ⟨d, hd, hm⟩ := mem_map.mp hme
  have hu := h.undecided d hd
  simp only [LimboEntry.marks, Prod.mk.injEq] at hm
  rw [← hm.2.1, ← hm.2.2]
  exact hu

lemma marks_update (l : TxnLimbo) (txn : Nat) {f : LimboEntry → LimboEntry}
    (hf : ∀ e, (f e).marks = e.marks) :
    (l.update txn f).queue.map LimboEntry.marks = l.queue.map LimboEntry.marks := by
  simp only [TxnLimbo.update, List.map_map]
  refine List.map_congr_left fun e _ => ?_
  by_cases he : e.txn = txn <;> simp [he, hf]

lemma TxnLimbo.Logged.push {e : LimboEntry} (h : l.Logged n moves) (htx : e.txn = n)
    (hco : e.isCommit = false) (hr : e.isRollback = false)
    (hq : l'.queue = l.queue ++ [e]) (hc : l'.completed = l.completed)
    (hl : l'.len = l.len + 1) : l'.Logged (n + 1) (moves ++ [.push n]) := by
  refine ⟨?_, ?_, ?_, ?_, ?_, ?_⟩
  · rw [run_append, h.queue, hq]
    simp [Deque.step, htx]
  · rw [hc, h.decisions]
    simp [Move.decision?, filterMap_cons]
  · rw [hq, forall_mem_append, forall_mem_singleton]
    exact ⟨h.undecided, hco, hr⟩
  · rw [filterMap_append]
    refine pairwise_append.mpr ⟨h.increasing, pairwise_singleton _ _, ?_⟩
    simpa [Move.pushed?] using h.pushed_lt
  · rw [filterMap_append, forall_mem_append]
    exact ⟨fun t ht => Nat.lt_succ_of_lt (h.pushed_lt t ht), by simp [Move.pushed?]⟩
  · rw [hl, hq, h.len]
    simp

lemma decision_confirmMoves (front : List LimboEntry) :
    (front.map confirmMove).filterMap Move.decision? =
      (decided front).map fun e => (e.txn, true) := by
  induction front with
  | nil => rfl
  | cons e front ih =>
    by_cases hu : e.Unwritten
    · have hd : decided (e :: front) = decided front := by simp [decided, hu]
      rw [hd, ← ih]
      simp [confirmMove, hu, Move.decision?, filterMap_cons]
    · have hd : decided (e :: front) = e :: decided front := by simp [decided, hu]
      rw [hd, map_cons, map_cons, ← ih]
      simp [confirmMove, hu, Move.decision?]

lemma front?_confirmMove (e : LimboEntry) : e.confirmMove.front? = some e.txn := by
  unfold confirmMove
  split <;> rfl

lemma pushed_confirmMoves (front : List LimboEntry) :
    (front.map confirmMove).filterMap Move.pushed? = [] := by
  rw [filterMap_eq_nil_iff]
  intro m hm
  obtain ⟨e, -, rfl⟩ := mem_map.mp hm
  unfold confirmMove
  split <;> rfl

section

variable (h : l.Logged n moves)
include h

lemma TxnLimbo.Logged.confirm (hq : l.queue = front ++ rest) :
    (l.confirmFront front rest).Logged n (moves ++ front.map confirmMove) := by
  have hp := pushed_confirmMoves front
  refine ⟨?_, ?_, ?_, ?_, ?_, ?_⟩
  · rw [run_append, h.queue, hq, map_append]
    exact run_front front?_confirmMove front _
  · rw [filterMap_append, decision_confirmMoves]
    simp only [TxnLimbo.confirmFront, List.map_append, h.decisions, List.map_map]
    congr 1
    refine List.map_congr_left fun e he => ?_
    have hu := h.undecided e (by
      rw [hq]
      exact mem_append_left _ (mem_of_mem_filter he))
    simp [LimboEntry.marks, committed, hu.2]
  · intro e he
    exact h.undecided e (by rw [hq]; exact mem_append_right _ he)
  · rw [filterMap_append, hp, append_nil]
    exact h.increasing
  · rw [filterMap_append, hp, append_nil]
    exact h.pushed_lt
  · simp only [TxnLimbo.confirmFront, h.len, hq, length_append]
    omega

/-- The end of the queue is rolled back in the reverse order. -/
lemma TxnLimbo.Logged.rollBack {g : LimboEntry → LimboEntry}
    (hg : ∀ e ∈ back, e.isCommit = false → (g e).marks = (e.txn, false, true))
    (hq : l.queue = kept ++ back) (hqu : l'.queue = kept)
    (hc : l'.completed = l.completed ++ back.reverse.map g)
    (hl : l'.len = l.len - back.length) :
    l'.Logged n (moves ++ (back.map txn).reverse.map .reject) := by
  have hp : ((back.map txn).reverse.map Move.reject).filterMap Move.pushed? = [] := by
    simp [Move.pushed?]
  refine ⟨?_, ?_, ?_, ?_, ?_, ?_⟩
  · rw [run_append, h.queue, hq, hqu, map_append]
    exact run_back _ _
  · rw [hc, filterMap_append, map_append, map_append, h.decisions]
    congr 1
    have hr : Move.decision? ∘ Move.reject ∘ txn =
        some ∘ fun e : LimboEntry => (e.txn, false) := rfl
    rw [List.map_map, ← List.map_reverse, List.map_map, List.filterMap_map, hr,
      List.filterMap_eq_map, List.map_map]
    refine map_congr_left fun e he => ?_
    have he : e ∈ back := mem_reverse.mp he
    exact hg e he (h.undecided e (by rw [hq]; exact mem_append_right _ he)).1
  · intro e he
    rw [hqu] at he
    exact h.undecided e (by rw [hq]; exact mem_append_left _ he)
  · rw [filterMap_append, hp, append_nil]
    exact h.increasing
  · rw [filterMap_append, hp, append_nil]
    exact h.pushed_lt
  · rw [hl, hqu, h.len, hq, length_append]
    omega

lemma TxnLimbo.Logged.reject {e : LimboEntry} (htx : e.txn = n)
    (hco : e.isCommit = false) (hq : l'.queue = l.queue)
    (hc : l'.completed = l.completed ++ [{ e with isRollback := true }])
    (hl : l'.len = l.len) : l'.Logged (n + 1) (moves ++ [.push n, .reject n]) := by
  have hp : [Move.push n, Move.reject n].filterMap Move.pushed? = [n] := rfl
  refine ⟨?_, ?_, hq ▸ h.undecided, ?_, ?_, by rw [hl, hq, h.len]⟩
  · rw [run_append, h.queue, hq]
    simp [Deque.step]
  · rw [hc, filterMap_append, map_append, map_append, h.decisions]
    simp [Move.decision?, LimboEntry.marks, htx, hco, filterMap_cons]
  · rw [filterMap_append, hp]
    exact pairwise_append.mpr ⟨h.increasing, pairwise_singleton _ _, by simpa using h.pushed_lt⟩
  · rw [filterMap_append, hp, forall_mem_append, forall_mem_singleton]
    exact ⟨fun t ht => Nat.lt_succ_of_lt (h.pushed_lt t ht), Nat.lt_succ_self _⟩

lemma TxnLimbo.Logged.handOver (hq : l.queue = front ++ back)
    (ownerId : Nat) : ∃ moves', (l.handOver front back ownerId).Logged n moves' := by
  have hf := h.confirm hq
  refine ⟨_, (hf.rollBack (g := rolledBack txnSignatureSyncRollback)
    (fun e _ hc => ?_) rfl rfl rfl rfl)⟩
  simp [LimboEntry.marks, rolledBack, hc]

lemma TxnLimbo.Logged.decide {req : SynchroRequest}
    (hd : l.Decision req l') : ∃ moves', l'.Logged n moves' := by
  cases hd with
  | ignore => exact ⟨_, h⟩
  | confirm _ _ hq _ _ _ => exact ⟨_, h.confirm hq⟩
  | rollBack _ _ hq _ =>
    refine ⟨_, h.rollBack (g := rolledBack txnSignatureSyncRollback)
      (fun e _ hc => ?_) hq rfl rfl rfl⟩
    simp [LimboEntry.marks, rolledBack, hc]
  | handOver _ hq _ _ _ _ => exact h.handOver hq _

end

lemma LimboNode.Input.logged (he : s.Input s') (h : s.limbo.Logged s.nextTxn moves) :
    ∃ moves', s'.limbo.Logged s'.nextTxn moves' := by
  cases he with
  | skip => exact ⟨_, h.keep rfl rfl rfl (Nat.le_succ _)⟩
  | push _ _ _ _ => exact ⟨_, h.push rfl rfl rfl rfl rfl rfl⟩
  | pushRemote _ _ _ _ _ _ => exact ⟨_, h.push rfl rfl rfl rfl rfl rfl⟩
  | reject htx hc _ hl =>
    subst hl
    exact ⟨_, h.reject htx hc rfl rfl rfl⟩
  | process _ _ _ hp =>
    obtain ⟨map, greatest, -, hd⟩ := process_decision hp
    have ht : TxnLimbo.Logged
        { s.limbo with promoteTermMap := map, promoteGreatestTerm := greatest } s.nextTxn moves :=
      h.keep rfl rfl rfl (Nat.le_refl _)
    exact ht.decide hd

lemma TxnLimbo.Logged.pop {e d : LimboEntry} (h : l.Logged n moves)
    (hq : l.queue = kept ++ [e]) (hd : e.isCommit = false → d.marks = (e.txn, false, true)) :
    ∃ moves', ((txnLimboPop l kept).complete d).Logged n moves' := by
  refine ⟨_, h.rollBack (g := fun _ => d) (fun b hb hc => ?_) hq rfl rfl rfl⟩
  rw [mem_singleton.mp hb] at hc ⊢
  exact hd hc

lemma LimboNode.Effect.logged (he : s.Effect s') (h : s.limbo.Logged s.nextTxn moves) :
    ∃ moves', s'.limbo.Logged s'.nextTxn moves' := by
  cases he with
  | written hj _ _ => exact ⟨_, h.keep (marks_update _ _ fun _ => rfl) rfl rfl (Nat.le_refl _)⟩
  | fail _ _ => exact ⟨_, h.keep (marks_update _ _ fun _ => rfl) rfl rfl (Nat.le_refl _)⟩
  | failRemote _ hq _ => exact h.pop hq fun hco => by simp [LimboEntry.marks, LimboEntry.fail, hco]
  | assign _ _ _ => exact ⟨_, h.keep (marks_update _ _ fun _ => rfl) rfl rfl (Nat.le_refl _)⟩
  | abort _ hq _ => exact h.pop hq fun hco => by simp [LimboEntry.marks, hco]
  | confirm _ hc =>
    obtain ⟨front, rest, hq, -, -, -, rfl⟩ := readConfirm_some hc
    exact ⟨_, h.confirm hq⟩
  | rollBack _ hq _ _ =>
    refine ⟨_, h.rollBack (g := rolledBack txnSignatureQuorumTimeout)
      (fun e _ hco => ?_) hq rfl rfl rfl⟩
    simp [LimboEntry.marks, rolledBack, hco]
  | writeConfirm _ _ _ _ => exact ⟨_, h.keep rfl rfl rfl (Nat.le_refl _)⟩
  | _ => exact ⟨_, h⟩

lemma LimboNode.Fresh.logged (h : s.Fresh) : s.limbo.Logged s.nextTxn [] := by
  constructor <;> simp [h.queue_eq, h.completed_eq, h.len_eq]

/-- In every run the limbo is a queue that is decided from both ends. -/
lemma run_logged {start : LimboNode} {actions : List NodeAction} (hf : start.Fresh)
    (hv : Along LimboNode.step LimboNode.Valid start actions)
    (hr : run LimboNode.step start actions = some s) :
    ∃ moves, s.limbo.Logged s.nextTxn moves := by
  obtain ⟨-, -, h⟩ := run_effects_invariant (P := fun s => ∃ moves, s.limbo.Logged s.nextTxn moves)
    (fun he _ _ ⟨_, h⟩ => he.logged h) (fun he _ _ ⟨_, h⟩ => he.logged h) (fun _ h => h) hf
    hv hr ⟨_, hf.logged⟩
  exact h

end TarantoolStorage
