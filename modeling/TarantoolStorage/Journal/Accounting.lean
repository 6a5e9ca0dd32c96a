import TarantoolStorage.Journal.Queue
import TarantoolStorage.Lib.Run

/-!
The account of the journal queue and the order of its writes. An entry that the journal refuses is
never taken off again.
-/
namespace TarantoolStorage.Journal

open Transition List State

inductive Call where
  | wal (action : Action)
  /-- A write to a journal that completes entries at once: `wal_write_none_async`,
  `recovery_journal_write` and `bootstrap_journal_write`. -/
  | writeNone (approxLen : Nat)

def State.writeNone (s : State) (approxLen : Nat) : State :=
  { s.prepare with
    size := s.size + approxLen - approxLen
    log := s.prepare.log ++ [.committed s.prepared] }

/-- Only the WAL journal has waiters. -/
def State.call (s : State) : Call → Option State
  | .wal action => step s action
  | .writeNone approxLen =>
    if s.isFull ∨ s.waiting ≠ [] then none else some (s.writeNone approxLen)

/-- The entry that an action passes to the WAL journal, and whether that is out of memory. -/
def State.submits (s : State) : Action → Option (Bool × Entry)
  | .writeTryAsync isOom approxLen =>
    if s.isFull ∨ s.waiting ≠ [] then none else some (isOom, ⟨s.prepared, approxLen⟩)
  | .writeSync isOom approxLen =>
    if s.waiting ≠ [] then none else some (isOom, ⟨s.prepared, approxLen⟩)
  | .resume isOom => s.ready.head?.map (isOom, ·)
  | _ => none

def lengthOf (entries : List Entry) : Int :=
  ((entries.map Entry.approxLen).sum : Nat)

/-- What the account shows beyond the entries in flight. -/
def State.excess (s : State) : Int :=
  s.size - lengthOf s.sent

/-- The length of the entry that `wal_write_async` refuses. -/
def State.refused (s : State) : Call → Nat
  | .wal action =>
    match s.submits action with
    | some (isOom, entry) => if isOom ∨ s.rollback ≠ [] then entry.approxLen else 0
    | none => 0
  | _ => 0

variable {s t : State} {c : Call} {a : Action} {calls : List Call} {isOom : Bool} {entry : Entry}
  {entries : List Entry}

@[simp] lemma lengthOf_append (first last : List Entry) :
    lengthOf (first ++ last) = lengthOf first + lengthOf last := by
  simp [lengthOf]

lemma lengthOf_addEntry (input : List Msg) : lengthOf ((addEntry entry input).flatMap Msg.entries) =
      lengthOf (input.flatMap Msg.entries) + entry.approxLen := by
  unfold addEntry
  split
  · simp only [flatMap_cons, Msg.entries, lengthOf_append]
    simp [lengthOf]
    omega
  · simp [lengthOf, Msg.entries]

lemma wakeup_excess (s : State) : s.wakeup.excess = s.excess := by
  obtain ⟨ready, waiters, -, h⟩ := wakeup_eq s
  rw [h]
  rfl

lemma write_excess : (s.write isOom entry).excess =
    s.excess + ((if isOom ∨ s.rollback ≠ [] then entry.approxLen else 0 : Nat) : Int) := by
  unfold State.write
  split_ifs
  · change s.size + entry.approxLen - lengthOf s.sent = _
    rw [excess]
    omega
  · simp only [excess, sent, flatMap_append, lengthOf_append, lengthOf_addEntry]
    omega

lemma schedule_excess (event : Entry → Event) :
    (s.schedule event entries).excess = s.excess - lengthOf entries := by
  rw [schedule, wakeup_excess]
  change s.size - lengthOf entries - lengthOf s.sent = _
  rw [excess]
  omega

lemma collectRollback_excess :
    (s.collectRollback entries).excess = s.excess - lengthOf entries := by
  unfold collectRollback completeRollback
  split_ifs with he
  · simp [he, lengthOf]
  · simp only [excess, sent, lengthOf_append]
    omega
  · dsimp only [schedule]
    obtain ⟨ready, waiters, -, hw⟩ := wakeup_eq _
    rw [hw]
    simp only [excess, sent, lengthOf, flatMap_append, map_append, sum_append, map_reverse,
      sum_reverse, flatMap_cons, flatMap_nil, Msg.entries, map_nil, sum_nil, nil_append]
    omega

/-- The entry that a call passes to the current journal. -/
def State.passes (s : State) : Call → Option Entry
  | .wal action => (s.submits action).map Prod.snd
  | .writeNone approxLen => some ⟨s.prepared, approxLen⟩

/-- Of the waiters only the first one is woken up. -/
def Call.Due : Call → Prop
  | .wal (.wakeupWaiter index) => index = 0
  | _ => True

/-- From `s` to `t` calls keep their order: `passed` has gone to the journal, `moved` are waiters
that went on, `fresh` is the entry of a new call. -/
def Follows (s : State) (passed : List Entry) (t : State) : Prop :=
  ∃ moved fresh, passed ++ t.ready = s.ready ++ moved ∧ moved ++ t.waiters = s.waiters ++ fresh ∧
    range s.prepared ++ fresh.map Entry.id = range t.prepared

variable {passed : List Entry}

lemma Follows.refl (s : State) : Follows s [] s :=
  ⟨[], [], (append_nil _).symm, (append_nil _).symm, append_nil _⟩

lemma Follows.trans {u : State} (h : Follows s passed t) (h' : Follows t [] u) :
    Follows s passed u := by
  obtain ⟨moved, fresh, hr, hw, hp⟩ := h
  obtain ⟨moved', fresh', hr', hw', hp'⟩ := h'
  rw [nil_append] at hr'
  refine ⟨moved ++ moved', fresh ++ fresh', ?_, ?_, ?_⟩
  · rw [hr', ← append_assoc, hr, append_assoc]
  · rw [append_assoc, hw', ← append_assoc, hw, append_assoc]
  · rw [map_append, ← append_assoc, hp, hp']

lemma Follows.wakeup (s : State) : Follows s [] s.wakeup := by
  unfold State.wakeup
  split
  · exact .refl s
  · rename_i entry rest hw
    split_ifs
    · exact .refl s
    · exact ⟨[entry], [], rfl, by rw [hw, append_nil]; rfl, append_nil _⟩

lemma Follows.collectRollback (s : State) : Follows s [] (s.collectRollback entries) := by
  unfold State.collectRollback State.completeRollback
  split_ifs
  · exact .refl s
  · exact .refl s
  · exact Follows.wakeup _

lemma Follows.write (h : Follows s passed t) : Follows s passed (t.write isOom entry) := by
  unfold State.write
  split_ifs <;> exact h

lemma Follows.wait (s : State) (approxLen : Nat) :
    Follows s [] (s.prepare.wait ⟨s.prepared, approxLen⟩) :=
  ⟨[], [⟨s.prepared, approxLen⟩], (append_nil _).symm, rfl, range_succ.symm⟩

/-- A fiber that finds nobody waiting passes its entry. -/
lemma Follows.pass (h : s.waiting = []) (approxLen : Nat) :
    Follows s [⟨s.prepared, approxLen⟩] s.prepare := by
  obtain ⟨hr, hw⟩ := append_eq_nil_iff.mp h
  refine ⟨[⟨s.prepared, approxLen⟩], [⟨s.prepared, approxLen⟩], ?_, ?_, range_succ.symm⟩
  · simp [State.prepare, hr]
  · simp [State.prepare, hw]

lemma completeBatch_spec (h : s.completeBatch = some t) : t.excess = s.excess ∧ Follows s [] t := by
  unfold completeBatch at h
  split at h
  · cases h
  · rename_i batch rest ho
    rw [← Option.some.inj h]
    refine ⟨?_, (Follows.collectRollback { s with output := rest }).trans (Follows.wakeup _)⟩
    rw [schedule_excess, collectRollback_excess]
    simp only [excess, sent, ho, flatMap_cons, Batch.entries, lengthOf_append]
    omega

lemma walStep_spec {written : Nat} (h : s.walStep written = some t) :
    t.excess = s.excess ∧ Follows s [] t := by
  unfold walStep at h
  split at h
  · cases h
  · rename_i entries rest hp
    have hl := fun n => congrArg lengthOf (take_append_drop n entries)
    rw [← Option.some.inj h]
    refine ⟨?_, .refl s⟩
    simp only [lengthOf_append] at hl
    simp only [excess, sent, writeToDisk, hp, flatMap_append, flatMap_cons, flatMap_nil,
      Batch.entries, Msg.entries, lengthOf_append, append_nil, cons_append, hl]
    omega
  · rename_i rest hp
    rw [← Option.some.inj h]
    exact ⟨by simp [excess, sent, hp, Msg.entries], .refl s⟩

/-- The account goes wrong by what the journal refuses; the order, by wakeups that are not due. -/
lemma call_spec (h : s.call c = some t) :
    t.excess = s.excess + s.refused c ∧ (c.Due → Follows s (s.passes c).toList t) := by
  cases c with
  | writeNone approxLen =>
    obtain ⟨hn, ht⟩ := Option.ite_none_left_eq_some.mp h
    rw [← Option.some.inj ht]
    refine ⟨?_, fun _ => Follows.pass (not_not.mp (not_or.mp hn).2) approxLen⟩
    simp [excess, State.writeNone, State.prepare, sent, refused]
  | wal action =>
    cases action with
    | writeTryAsync isOom approxLen =>
      rw [← Option.some.inj h, State.writeTryAsync]
      simp only [refused, passes, submits]
      split_ifs with hn
      · exact ⟨(add_zero s.excess).symm, fun _ => Follows.wait s approxLen⟩
      · exact ⟨write_excess, fun _ => (Follows.pass (not_not.mp (not_or.mp hn).2) _).write⟩
    | writeSync isOom approxLen =>
      rw [← Option.some.inj h, State.writeSync]
      simp only [refused, passes, submits]
      split_ifs with hn
      · have hall : Follows s [] s.wakeAll := ⟨s.waiters, [], rfl, rfl, append_nil _⟩
        exact ⟨(add_zero s.excess).symm, fun _ => hall.trans (Follows.wait s.wakeAll approxLen)⟩
      · exact ⟨write_excess, fun _ => (Follows.pass (not_not.mp hn) approxLen).write⟩
    | resume isOom =>
      change s.resume isOom = some t at h
      unfold State.resume at h
      split at h
      · cases h
      · rename_i entry rest hr
        obtain ⟨ready, waiters, -, hw⟩ := wakeup_eq { s with ready := rest }
        have hf : Follows s [entry] { s with ready := rest } :=
          ⟨[], [], by rw [hr, append_nil]; rfl, (append_nil _).symm, append_nil _⟩
        rw [← Option.some.inj h]
        simp only [refused, passes, submits, hr, head?_cons, Option.map_some]
        refine ⟨?_, fun _ => (hf.trans (Follows.wakeup _)).write⟩
        rw [hw, write_excess]
        rfl
    | flushInput =>
      rw [← Option.some.inj h]
      exact ⟨by simp [excess, State.flushInput, sent, refused, submits], fun _ => .refl s⟩
    | walStep written =>
      obtain ⟨he, hf⟩ := walStep_spec h
      exact ⟨he.trans (add_zero _).symm, fun _ => hf⟩
    | completeBatch =>
      obtain ⟨he, hf⟩ := completeBatch_spec h
      exact ⟨he.trans (add_zero _).symm, fun _ => hf⟩
    | setMaxSize size =>
      rw [← Option.some.inj h]
      exact ⟨(wakeup_excess _).trans (add_zero s.excess).symm,
        fun _ => Follows.wakeup { s with maxSize := size }⟩
    | wakeupWaiter index =>
      obtain ⟨entry, -, ht⟩ := Option.bind_eq_some_iff.mp h
      refine ⟨by rw [← Option.some.inj ht]; exact (add_zero s.excess).symm, ?_⟩
      rintro rfl
      obtain ⟨entry, rest, hw, rfl⟩ := wakeupWaiter_zero h
      exact ⟨[entry], [], rfl, by rw [hw, append_nil]; rfl, append_nil _⟩

lemma run_excess (h : run State.call s calls = some t) : s.excess ≤ t.excess ∧
    (t.excess = s.excess ↔ Along State.call (fun s c => s.refused c = 0) s calls) := by
  induction calls generalizing s with
  | nil =>
    obtain rfl := Option.some.inj h
    exact ⟨le_rfl, iff_of_true rfl trivial⟩
  | cons c calls ih =>
    obtain ⟨u, hc, hr⟩ := Option.bind_eq_some_iff.mp h
    have he := (call_spec hc).1
    obtain ⟨hle, hiff⟩ := ih hr
    refine ⟨by omega, fun ht => ?_, fun ha => ?_⟩
    · exact along_cons (by omega) hc (hiff.mp (by omega))
    · have h0 := ha.1
      have hu := hiff.mpr (ha.2 u hc)
      omega

/-- The size of the journal queue is the length of the entries in flight, after any sequence of
calls, if and only if the journal has refused none. -/
theorem queue_size_exact_iff (maxSize : Int) (calls : List Call) (t : State)
    (h : run State.call { maxSize := maxSize } calls = some t) : t.size = lengthOf t.sent ↔
      Along State.call (fun s c => s.refused c = 0) { maxSize := maxSize } calls := by
  have he : State.excess { maxSize := maxSize } = 0 := rfl
  rw [← (run_excess h).2, he, excess]
  exact sub_eq_zero.symm

/-- The second entry waits until the first one is written, and is on its way then. -/
def waiterSent : List Call :=
  [.wal (.writeTryAsync false 7), .wal (.writeTryAsync false 5), .wal .flushInput,
    .wal (.walStep 1), .wal .completeBatch, .wal (.resume false)]

theorem queue_size_exact_of_waiter : ∃ t, run State.call { maxSize := 7 } waiterSent = some t ∧
      t.log = [.prepared 0, .prepared 1, .committed 0] ∧ t.sent = [⟨1, 5⟩] ∧
      t.size = lengthOf t.sent := by
  have ha : Along State.call (fun s c => s.refused c = 0) { maxSize := 7 } waiterSent := by
    decide
  exact ⟨_, rfl, rfl, rfl, (queue_size_exact_iff 7 waiterSent _ rfl).mpr ha⟩

/-- A transaction that comes while a failed write is being rolled back stays on the account. -/
theorem queue_size_after_rollback :
    (run State.call { maxSize := 9 } [.wal (.writeTryAsync false 1), .wal .flushInput,
      .wal (.writeTryAsync false 1), .wal .flushInput, .wal (.walStep 0), .wal .completeBatch,
      .wal (.writeTryAsync false 9), .wal (.walStep 0), .wal .completeBatch]).map
        (fun t => (t.sent, t.waiting, t.size)) = some ([], [], 9) := by
  decide

/-- The queue and the entries that were passed to the journal until now. -/
structure Trace where
  state : State
  passed : List Entry := []

def Trace.call (tr : Trace) (c : Call) : Option Trace :=
  (tr.state.call c).map fun t => ⟨t, tr.passed ++ (tr.state.passes c).toList⟩

variable {tr tr' : Trace}

/-- The entries whose place in the order of the writes is settled. -/
def Trace.front (tr : Trace) : List Nat :=
  (tr.passed ++ tr.state.ready).map Entry.id

def Trace.Ordered (tr : Trace) : Prop :=
  tr.front ++ tr.state.waiters.map Entry.id = range tr.state.prepared

lemma Trace.Ordered.call (h : tr.Ordered) (hc : tr.call c = some tr') (hd : c.Due) :
    tr'.Ordered := by
  obtain ⟨t, ht, rfl⟩ := Option.map_eq_some_iff.mp hc
  obtain ⟨moved, fresh, hr, hw, hp⟩ := (call_spec ht).2 hd
  unfold Ordered front at h ⊢
  rw [append_assoc, hr, ← map_append, append_assoc, append_assoc, hw, ← hp, ← h]
  simp

lemma eq_wakeupWaiter_of_not_due (h : ¬ c.Due) :
    ∃ index, c = .wal (.wakeupWaiter index) ∧ index ≠ 0 := by
  cases c with
  | writeNone approxLen => exact absurd trivial h
  | wal action =>
    cases action with
    | wakeupWaiter index => exact ⟨index, rfl, h⟩
    | _ => exact absurd trivial h

lemma front_wakeupWaiter {index : Nat} (hc : tr.call (.wal (.wakeupWaiter index)) = some tr') :
    ∃ entry, tr.state.waiters[index]? = some entry ∧ tr'.front = tr.front ++ [entry.id] := by
  obtain ⟨t, ht, rfl⟩ := Option.map_eq_some_iff.mp hc
  obtain ⟨entry, he, ht⟩ := Option.bind_eq_some_iff.mp ht
  rw [← Option.some.inj ht]
  exact ⟨entry, he, by simp [Trace.front, passes, submits]⟩

lemma front_call (hc : tr.call c = some tr') : tr.front <+: tr'.front := by
  by_cases hd : c.Due
  · obtain ⟨t, ht, rfl⟩ := Option.map_eq_some_iff.mp hc
    obtain ⟨moved, fresh, hr, -⟩ := (call_spec ht).2 hd
    refine ⟨moved.map Entry.id, ?_⟩
    rw [Trace.front, Trace.front, append_assoc tr.passed, hr]
    simp
  · obtain ⟨index, rfl, -⟩ := eq_wakeupWaiter_of_not_due hd
    obtain ⟨entry, -, hf⟩ := front_wakeupWaiter hc
    exact ⟨[entry.id], hf.symm⟩

/-- A waiter that is not the first one overtakes the first one. -/
lemma Trace.Ordered.overtaken (h : tr.Ordered) (hc : tr.call c = some tr') (hd : ¬ c.Due)
    (n : Nat) : tr'.front ≠ range n := by
  intro hn
  obtain ⟨index, rfl, hi⟩ := eq_wakeupWaiter_of_not_due hd
  obtain ⟨entry, he, hf⟩ := front_wakeupWaiter hc
  have hl : (range n)[tr.front.length]? = some entry.id := by
    rw [← hn, hf]
    simp
  have hw : (range tr.state.prepared)[tr.front.length + index]? = some entry.id := by
    rw [← h, getElem?_append_right (Nat.le_add_right _ _)]
    simp [he]
  have hle := (List.getElem?_eq_some_iff.mp hl).2
  have hwe := (List.getElem?_eq_some_iff.mp hw).2
  rw [getElem_range] at hle hwe
  omega

lemma run_order (h : tr.Ordered) (hr : run Trace.call tr calls = some tr') :
    (∀ c ∈ calls, c.Due) ∧ tr'.Ordered ∨ (∃ c ∈ calls, ¬ c.Due) ∧ ∀ n, tr'.front ≠ range n := by
  induction calls generalizing tr with
  | nil =>
    obtain rfl := Option.some.inj hr
    exact .inl ⟨by simp, h⟩
  | cons c calls ih =>
    obtain ⟨u, hc, hu⟩ := Option.bind_eq_some_iff.mp hr
    by_cases hd : c.Due
    · have hi := ih (h.call hc hd) hu
      simpa [hd] using hi
    · -- the front is never taken back
      refine .inr ⟨⟨c, mem_cons_self, hd⟩, fun n hn => ?_⟩
      have hp : u.front <+: range n := hn ▸ run_invariant (P := fun v => u.front <+: v.front)
        (fun hv hf => hf.trans (front_call hv)) hu (prefix_refl _)
      refine h.overtaken hc hd (min u.front.length n) ?_
      rw [prefix_iff_eq_take.mp hp, take_range]
      simp

/-- Entries are passed in the order of the calls if and only if nobody but the first waiter is
woken up from outside the queue. -/
theorem write_order_iff (maxSize : Int) (calls : List Call) (tr : Trace)
    (h : run Trace.call ⟨{ maxSize := maxSize }, []⟩ calls = some tr) :
    ((∀ c ∈ calls, c.Due) → tr.passed.map Entry.id <+: range tr.state.prepared) ∧
      (tr.state.waiting = [] →
        (tr.passed.map Entry.id = range tr.state.prepared ↔ ∀ c ∈ calls, c.Due)) := by
  have ho := run_order (show Trace.Ordered ⟨{ maxSize := maxSize }, []⟩ from rfl) h
  constructor
  · intro hd
    obtain ⟨-, ho⟩ | ⟨⟨c, hc, hn⟩, -⟩ := ho
    · refine ⟨(tr.state.ready ++ tr.state.waiters).map Entry.id, ?_⟩
      rw [← ho, Trace.front]
      simp
    · exact absurd (hd c hc) hn
  · intro hw
    obtain ⟨hr, hwa⟩ := append_eq_nil_iff.mp hw
    have hf : tr.front = tr.passed.map Entry.id := by
      rw [Trace.front, hr, append_nil]
    obtain ⟨hd, ho⟩ | ⟨⟨c, hc, hn⟩, hno⟩ := ho
    · refine iff_of_true ?_ hd
      rw [← ho, hf, hwa]
      exact (append_nil _).symm
    · exact iff_of_false (hf ▸ hno _) fun hd => hn (hd c hc)

/-- Two calls wait for the first one, and both are woken up from outside. -/
def threeCalls (first second : Nat) : List Call :=
  [.wal (.writeTryAsync false 1), .wal (.writeTryAsync false 1), .wal (.writeTryAsync false 1),
    .wal (.wakeupWaiter first), .wal (.resume false), .wal (.wakeupWaiter second),
    .wal (.resume false)]

theorem write_order_of_waiters :
    ∃ tr, run Trace.call ⟨{ maxSize := 1 }, []⟩ (threeCalls 0 0) = some tr ∧
      tr.state.waiting = [] ∧ tr.state.prepared = 3 ∧ tr.passed.map Entry.id = range 3 :=
  ⟨_, rfl, rfl, rfl,
    ((write_order_iff 1 (threeCalls 0 0) _ rfl).2 rfl).mpr (by simp [threeCalls, Call.Due])⟩

/-- The second waiter is woken up, by a cancellation, before the first one. -/
theorem waiter_overtaken : (run Trace.call ⟨{ maxSize := 1 }, []⟩ (threeCalls 1 0)).map
        (fun tr => (tr.passed.map Entry.id, tr.state.waiting)) = some ([0, 2, 1], []) := by
  decide

end TarantoolStorage.Journal
