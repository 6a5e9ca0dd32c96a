import TarantoolStorage.Journal.Queue
import TarantoolStorage.Lib.Deque

/-! A failed write rolls back every transaction that was prepared after it, in the reverse order. -/
namespace TarantoolStorage.Journal

open Transition List State

/-- Whoever was prepared after a transaction and before its rollback is never committed, and is
not rolled back later than it. -/
def Cascades (log : List Event) : Prop :=
  ∀ start x middle y last after,
    log = start ++ .prepared x :: middle ++ .prepared y :: last ++ .rolledBack x :: after →
      .committed y ∉ log ∧ .rolledBack y ∉ after

def Event.move : Event → Deque.Move Nat
  | .prepared id => .push id
  | .committed id => .accept id
  | .rolledBack id => .reject id

/-- The transactions that are pending according to the log. -/
def Records (log : List Event) (pending : List Entry) : Prop :=
  run Deque.step [] (log.map Event.move) = some (pending.map Entry.id)

variable {log : List Event} {pending entries rollback : List Entry} {prepared : Nat}
  {output : List Batch} {msgs : List Msg} {t : State} {batch : Batch}

lemma Records.append {moves : List Event} {rest : List Entry} (h : Records log pending)
    (hm : run Deque.step (pending.map Entry.id) (moves.map Event.move) = some (rest.map Entry.id)) :
    Records (log ++ moves) rest := by
  unfold Records at h ⊢
  rw [map_append, run_append, h, Option.bind_some, hm]

lemma Records.prepare (h : Records log pending) (entry : Entry) :
    Records (log ++ [.prepared entry.id]) (pending ++ [entry]) := by
  refine h.append ?_
  simp [Event.move, Deque.step]

lemma Records.commit (h : Records log (entries ++ pending)) :
    Records (log ++ entries.map fun entry => .committed entry.id) pending := by
  refine h.append ?_
  rw [map_append, map_map]
  exact Deque.run_front (fun _ => rfl) entries (pending.map Entry.id)

lemma Records.rollBack (h : Records log (pending ++ entries)) :
    Records (log ++ entries.reverse.map fun entry => .rolledBack entry.id) pending := by
  refine h.append ?_
  have hb := Deque.run_back (pending.map Entry.id) (entries.map Entry.id)
  rw [← map_reverse, map_map] at hb
  rw [map_append, map_map]
  exact hb

/-- Transactions have the numbers of their preparations. -/
def Numbered (log : List Event) (prepared : Nat) : Prop :=
  (log.map Event.move).filterMap Deque.Move.pushed? = List.range prepared

lemma Numbered.complete (h : Numbered log prepared) (event : Entry → Event)
    (he : ∀ entry, (event entry).move.pushed? = none) (entries : List Entry) :
    Numbered (log ++ entries.map event) prepared := by
  have hn : ((entries.map event).map Event.move).filterMap Deque.Move.pushed? = [] := by
    simp [he]
  unfold Numbered at h ⊢
  rw [map_append, filterMap_append, h, hn, append_nil]

lemma Numbered.nodup (h : Numbered log prepared) :
    ((log.map Event.move).filterMap Deque.Move.pushed?).Nodup := by
  rw [h]
  exact nodup_range

lemma Records.nodup (h : Records log pending) (hn : Numbered log prepared) :
    (pending.map Entry.id).Nodup := by
  have hp := Deque.pushed_perm h
  rw [nil_append] at hp
  exact (nodup_append.mp (hp.nodup_iff.mp hn.nodup)).2.1

lemma move_eq_reject {event : Event} {id : Nat} (h : event.move = .reject id) :
    event = .rolledBack id := by
  cases event with
  | prepared n | committed n => cases h
  | rolledBack n => rw [Deque.Move.reject.inj h]

lemma Records.cascades (h : Records log pending) (hn : Numbered log prepared) : Cascades log := by
  intro start x middle y last after hl
  have hu := pairwise_map.mp (Deque.removed_unique h hn.nodup)
  have hno := hn.nodup
  unfold Records at h
  rw [hl, map_append, run_append] at h
  obtain ⟨queue, hb, ha⟩ := Option.bind_eq_some_iff.mp h
  obtain ⟨queue', hr, -⟩ := Option.bind_eq_some_iff.mp ha
  obtain rfl := Deque.back_of_step hr
  rw [hl, map_append, filterMap_append] at hno
  have hme : .rolledBack y ∈ start ++ .prepared x :: middle ++ .prepared y :: last := by
    simp only [map_append, map_cons] at hb hno
    have hm := Deque.mem_of_rejected hb (nodup_append.mp hno).1
    have hma : .reject y ∈
        (start ++ .prepared x :: middle ++ .prepared y :: last).map Event.move := by
      simpa only [map_append, map_cons, Event.move] using hm
    obtain ⟨event, hev, hmo⟩ := mem_map.mp hma
    exact move_eq_reject hmo ▸ hev
  have hs : Std.Symm fun e e' : Event =>
      ∀ a, e.move.removed? = some a → e'.move.removed? ≠ some a :=
    ⟨fun e e' hee a he' he => hee a he he'⟩
  constructor
  · intro hc
    have hro : .rolledBack y ∈ log := by
      rw [hl]
      exact mem_append_left _ hme
    exact hu.forall hc hro (by simp) y rfl rfl
  · intro hag
    rw [hl] at hu
    exact (pairwise_append.mp hu).2.2 _ hme _ (mem_cons_of_mem _ hag) y rfl rfl

/-- The WAL thread has failed: batches that come back commit nothing behind the first entry that
is rolled back. -/
inductive Collecting : List Entry → List Batch → Prop where
  | awaited {first last : List Batch} {batch : Batch} :
    (∀ b ∈ first, b.rollback = []) → batch.rollback ≠ [] → (∀ b ∈ last, b.commit = []) →
      Collecting [] (first ++ batch :: last)
  | begun {rollback : List Entry} {output : List Batch} :
    rollback ≠ [] → (∀ b ∈ output, b.commit = []) → Collecting rollback output

/-- The rollback as the two threads and the pipe between them know it. -/
inductive Stage : Bool → List Entry → List Batch → List Msg → Prop where
  | normal {output : List Batch} {msgs : List Msg} :
    (∀ b ∈ output, b.rollback = []) → .completeRollback ∉ msgs → Stage false [] output msgs
  | failed {rollback : List Entry} {output : List Batch} {msgs : List Msg} :
    Collecting rollback output → .completeRollback ∉ msgs → Stage true rollback output msgs
  | completed {msgs : List Msg} :
    .completeRollback ∉ msgs → Stage true [] [] (.completeRollback :: msgs)

/-- A failed write that is not rolled back yet. -/
def State.Failing (s : State) : Prop :=
  s.rollback ≠ [] ∨ ∃ b ∈ s.output, b.rollback ≠ []

def IsLast (sent : List Entry) (lastEntry : Option Nat) : Prop :=
  sent ≠ [] → sent.getLast?.map Entry.id = lastEntry

lemma IsLast.of_append {first later : List Entry} {lastEntry : Option Nat}
    (h : IsLast (first ++ later) lastEntry) : IsLast later lastEntry := by
  intro hn
  rw [← getLast?_append_of_ne_nil first hn]
  exact h (append_ne_nil_of_right_ne_nil first hn)

/-- Nothing was sent after an entry that is the last one. -/
lemma IsLast.eq_nil {first later : List Entry} {lastEntry : Option Nat}
    (h : IsLast (first ++ later) lastEntry) (hf : first ≠ [])
    (he : first.getLast?.map Entry.id = lastEntry)
    (hn : ((first ++ later).map Entry.id).Nodup) : later = [] := by
  by_contra hne
  have hl : (later.map Entry.id).getLast? = (first.map Entry.id).getLast? := by
    rw [getLast?_map, getLast?_map, he]
    exact h.of_append hne
  obtain ⟨id, hi⟩ := Option.isSome_iff_exists.mp (getLast?_isSome.mpr (mt map_eq_nil_iff.mp hf) :
      (first.map Entry.id).getLast?.isSome)
  rw [map_append] at hn
  exact (nodup_append.mp hn).2.2 id (mem_of_getLast? hi) id (mem_of_getLast? (hl.trans hi)) rfl

/-- What holds while the entries move through the stages. -/
structure Core (s : State) : Prop where
  records : Records s.log s.pending
  numbered : Numbered s.log s.prepared
  last : IsLast s.sent s.lastEntry
  stage : Stage s.isInRollback s.rollback s.output (s.pipe ++ s.input)
  /-- No batch is empty. -/
  msgs_ne : .batch [] ∉ s.pipe ++ s.input
  output_ne : ∀ b ∈ s.output, b.entries ≠ []
  /-- New entries join the only batch of the input. -/
  input_eq : ∀ entries rest, s.input = .batch entries :: rest → rest = []

/-- Nobody waits for space while a failed write is not rolled back. -/
structure Inv (s : State) : Prop extends Core s where
  quiet : s.Failing → s.waiting = []

variable {s : State}

/-- Who is woken up, and what the limits are, does not matter. -/
lemma Inv.requeue (h : Inv s) {ready waiters : List Entry}
    (hw : ready ++ waiters = s.waiting) (size maxSize : Int) :
    Inv { s with ready := ready, waiters := waiters, size := size, maxSize := maxSize } where
  records := by
    have hr := h.records
    rw [State.pending, ← hw] at hr
    exact hr
  numbered := h.numbered
  last := h.last
  stage := h.stage
  msgs_ne := h.msgs_ne
  output_ne := h.output_ne
  input_eq := h.input_eq
  quiet := fun hf => hw.trans (h.quiet hf)

lemma Inv.wakeup (h : Inv s) : Inv s.wakeup := by
  obtain ⟨ready, waiters, hw, he⟩ := wakeup_eq s
  rw [he]
  exact h.requeue hw s.size s.maxSize

lemma Inv.setMaxSize (h : Inv s) (size : Int) : Inv (s.setMaxSize size) :=
  (h.requeue rfl s.size size).wakeup

lemma Inv.wakeupFirst (h : Inv s) (hstep : s.wakeupWaiter 0 = some t) : Inv t := by
  obtain ⟨entry, rest, hw, rfl⟩ := wakeupWaiter_zero hstep
  exact h.requeue (by simp [waiting, hw]) s.size s.maxSize

lemma flushInput_sent (s : State) : s.flushInput.sent = s.sent := by
  simp [State.flushInput, State.sent]

lemma Inv.flushInput (h : Inv s) : Inv s.flushInput where
  records := by
    rw [State.pending, flushInput_sent]
    exact h.records
  numbered := h.numbered
  last := by
    rw [flushInput_sent]
    exact h.last
  stage := by simpa [State.flushInput] using h.stage
  msgs_ne := by simpa [State.flushInput] using h.msgs_ne
  output_ne := h.output_ne
  input_eq := by simp [State.flushInput]
  quiet := h.quiet

/-- The entry is the last one of the last message, whose other entries were there before. -/
lemma addEntry_eq {input : List Msg}
    (h : ∀ entries rest, input = .batch entries :: rest → rest = []) (entry : Entry) :
    ∃ first entries, addEntry entry input = first ++ [.batch (entries ++ [entry])] ∧
      (input = first ++ [.batch entries] ∨ input = first ∧ entries = []) := by
  cases input with
  | nil => exact ⟨[], [], rfl, .inr ⟨rfl, rfl⟩⟩
  | cons msg rest =>
    cases msg with
    | batch entries =>
      obtain rfl := h entries rest rfl
      exact ⟨[], entries, rfl, .inl rfl⟩
    | completeRollback => exact ⟨.completeRollback :: rest, [], rfl, .inr ⟨rfl, rfl⟩⟩

lemma addEntry_single {input : List Msg}
    (h : ∀ entries rest, input = .batch entries :: rest → rest = []) {entry : Entry} :
    ∀ entries rest, addEntry entry input = .batch entries :: rest → rest = [] := by
  intro entries rest he
  cases input with
  | nil => exact (cons_eq_cons.mp he).2.symm
  | cons msg later =>
    cases msg with
    | batch old =>
      rw [← (cons_eq_cons.mp he).2]
      exact h old later rfl
    | completeRollback => cases (cons_eq_cons.mp he).1

lemma Stage.addBatch {isInRollback : Bool} {first : List Msg}
    (h : Stage isInRollback rollback output msgs) (old new : List Entry)
    (hm : msgs = first ++ [.batch old] ∨ msgs = first) :
    Stage isInRollback rollback output (first ++ [.batch new]) := by
  have hme : ∀ {l}, l = first ++ [.batch old] ∨ l = first →
      .completeRollback ∉ l → .completeRollback ∉ first ++ [.batch new] := by
    rintro l (rfl | rfl) hl
    · simpa using hl
    · simpa using hl
  cases h with
  | normal ho hl => exact .normal ho (hme hm hl)
  | failed hc hl => exact .failed hc (hme hm hl)
  | @completed later hl =>
    -- the message about the rollback stays the first one
    obtain ⟨first', rfl, hf⟩ : ∃ first', first = .completeRollback :: first' ∧
        .completeRollback ∉ first' := by
      cases first with
      | nil => simp at hm
      | cons msg first' =>
        rcases hm with hm | hm <;> obtain ⟨rfl, rfl⟩ := cons_eq_cons.mp hm
        · exact ⟨first', rfl, fun hi => hl (mem_append_left _ hi)⟩
        · exact ⟨_, rfl, hl⟩
    exact .completed (by simpa using hf)

lemma Core.prepareWait (h : Core s) (approxLen : Nat) :
    Core (s.prepare.wait ⟨s.prepared, approxLen⟩) where
  records := by
    have hr := h.records.prepare ⟨s.prepared, approxLen⟩
    rw [State.pending, waiting, append_assoc, append_assoc] at hr
    exact hr
  numbered := by
    have hn := h.numbered
    unfold Numbered at hn ⊢
    simp [wait, prepare, hn, Event.move, Deque.Move.pushed?, range_succ]
  last := h.last
  stage := h.stage
  msgs_ne := h.msgs_ne
  output_ne := h.output_ne
  input_eq := h.input_eq

/-- The fiber that waits first writes its entry. The others still wait if the entry is sent. -/
lemma Core.write (h : Core s) {entry : Entry} {ready waiters : List Entry}
    (hw : s.waiting = entry :: (ready ++ waiters)) (isOom : Bool)
    (hl : isOom ∨ s.rollback ≠ [] → ready ++ waiters = []) :
    Core (State.write { s with ready := ready, waiters := waiters } isOom entry) := by
  have hp : s.pending = s.sent ++ [entry] ++ (ready ++ waiters) := by
    rw [State.pending, hw, append_assoc, singleton_append]
  unfold State.write
  split
  · rename_i hre
    have he := hl hre
    refine ⟨?_, ?_, h.last, h.stage, h.msgs_ne, h.output_ne, h.input_eq⟩
    · have hr := h.records
      rw [hp, he, append_nil] at hr
      have hrs : Records (s.log ++ [.rolledBack entry.id]) (s.sent ++ (ready ++ waiters)) := by
        rw [he, append_nil]
        exact hr.rollBack
      exact hrs
    · exact h.numbered.complete (fun entry => .rolledBack entry.id) (fun _ => rfl) [entry]
  · obtain ⟨first, entries, ha, hi⟩ := addEntry_eq h.input_eq entry
    have hs : s.rollback ++ s.output.flatMap Batch.entries ++
        (s.pipe ++ addEntry entry s.input).flatMap Msg.entries = s.sent ++ [entry] := by
      rw [State.sent, ha]
      rcases hi with hi | ⟨hi, rfl⟩ <;> simp [hi, Msg.entries]
    refine ⟨?_, h.numbered, ?_, ?_, ?_, h.output_ne, ?_⟩
    · have hr := h.records
      rw [hp, ← hs] at hr
      exact hr
    · intro _
      unfold State.sent
      dsimp only
      rw [hs]
      simp
    · dsimp only
      rw [ha, ← append_assoc]
      refine h.stage.addBatch entries _ ?_
      rcases hi with hi | ⟨hi, -⟩
      · exact .inl (by rw [hi, append_assoc])
      · exact .inr (by rw [hi])
    · have hm := h.msgs_ne
      dsimp only
      rw [ha]
      rcases hi with hi | ⟨hi, -⟩ <;> rw [hi] at hm <;> simp_all
    · exact addEntry_single h.input_eq

def State.Fails (s : State) (written : Nat) : Prop :=
  written < (s.pipe.head?.elim [] Msg.entries).length

instance (s : State) (written : Nat) : Decidable (s.Fails written) :=
  inferInstanceAs (Decidable (written < (s.pipe.head?.elim [] Msg.entries).length))

instance (s : State) : Decidable s.Failing :=
  inferInstanceAs (Decidable (s.rollback ≠ [] ∨ ∃ b ∈ s.output, b.rollback ≠ []))

/-- Nobody waits in the journal queue while a failed write is on its way, a fiber that waited gets
memory for its batch unless it is the last one, and who is woken up from outside waits first. -/
def Action.Fits (s : State) : Action → Prop
  | .writeTryAsync _ _ => s.Failing → ¬ s.isFull
  | .resume isOom => isOom → s.waiting.tail = []
  | .walStep written => s.Fails written → s.waiting = []
  | .wakeupWaiter index => index = 0
  | _ => True

lemma Inv.writeNow (h : Inv s) (hw : s.waiting = []) (isOom : Bool) (approxLen : Nat) :
    Inv (s.prepare.write isOom ⟨s.prepared, approxLen⟩) := by
  obtain ⟨hr, hwa⟩ := append_eq_nil_iff.mp hw
  have hwt : (s.prepare.wait ⟨s.prepared, approxLen⟩).waiting =
      ⟨s.prepared, approxLen⟩ :: (s.ready ++ s.waiters) := by
    simp [wait, prepare, waiting, hr, hwa]
  have hc := (h.prepareWait approxLen).write hwt isOom fun _ => hw
  refine ⟨hc, fun _ => ?_⟩
  unfold State.write
  split <;> exact hw

lemma Inv.writeTryAsync (h : Inv s) {isOom : Bool} {approxLen : Nat}
    (hfi : (Action.writeTryAsync isOom approxLen).Fits s) :
    Inv (s.writeTryAsync isOom approxLen) := by
  unfold State.writeTryAsync
  split
  · rename_i hwa
    refine ⟨h.prepareWait approxLen, fun hf => ?_⟩
    rcases hwa with hfu | hw
    · exact absurd hfu (hfi hf)
    · exact absurd (h.quiet hf) hw
  · rename_i hn
    exact h.writeNow (not_not.mp (not_or.mp hn).2) isOom approxLen

lemma Inv.writeSync (h : Inv s) (isOom : Bool) (approxLen : Nat) :
    Inv (s.writeSync isOom approxLen) := by
  unfold State.writeSync
  split
  · rename_i hw
    have hc := h.prepareWait approxLen
    have hi : Inv (s.prepare.wait ⟨s.prepared, approxLen⟩) := ⟨hc, fun hf => absurd (h.quiet hf) hw⟩
    refine hi.requeue ?_ s.size s.maxSize
    simp [waiting, wait, prepare, wakeAll]
  · rename_i hn
    exact h.writeNow (not_not.mp hn) isOom approxLen

lemma Inv.resume (h : Inv s) {isOom : Bool} (hfi : (Action.resume isOom).Fits s)
    (hstep : s.resume isOom = some t) : Inv t := by
  unfold State.resume at hstep
  split at hstep
  · cases hstep
  · rename_i entry rest hre
    rw [← Option.some.inj hstep]
    obtain ⟨ready, waiters, hrs, he⟩ := wakeup_eq { s with ready := rest }
    have hw : s.waiting = entry :: (ready ++ waiters) := by
      rw [hrs]
      simp [waiting, hre]
    have hc : ¬ s.Failing := fun hf => by
      rw [h.quiet hf] at hw
      cases hw
    have hl : isOom ∨ s.rollback ≠ [] → ready ++ waiters = [] := by
      rintro (ho | hr)
      · have ht := hfi ho
        rwa [hw, tail_cons] at ht
      · exact absurd (.inl hr) hc
    rw [he]
    refine ⟨h.write hw isOom hl, fun hf => absurd ?_ hc⟩
    unfold State.write at hf
    split at hf <;> exact hf

lemma Collecting.failing (h : Collecting rollback output) :
    rollback ≠ [] ∨ ∃ b ∈ output, b.rollback ≠ [] := by
  cases h with
  | @awaited first last batch _ hb _ => exact .inr ⟨batch, by simp, hb⟩
  | begun hr _ => exact .inl hr

lemma Collecting.append (h : Collecting rollback output) (hba : batch.commit = []) :
    Collecting rollback (output ++ [batch]) := by
  cases h with
  | awaited hfi hf hl =>
    rw [append_assoc, cons_append]
    refine .awaited hfi hf fun b hb => ?_
    rcases mem_append.mp hb with hb | hb
    · exact hl b hb
    · rwa [mem_singleton.mp hb]
  | begun hr ho =>
    refine .begun hr fun b hb => ?_
    rcases mem_append.mp hb with hb | hb
    · exact ho b hb
    · rwa [mem_singleton.mp hb]

section Stage

variable {isInRollback : Bool} {rollback : List Entry} {output : List Batch} {msgs : List Msg}

lemma Stage.collecting (h : Stage true rollback output (.batch entries :: msgs)) :
    Collecting rollback output := by
  cases h with
  | failed hc _ => exact hc

lemma Stage.complete (h : Stage isInRollback rollback output (.completeRollback :: msgs)) :
    Stage false rollback output msgs := by
  cases h with
  | normal _ hn | failed _ hn => exact absurd mem_cons_self hn
  | completed hn => exact .normal (by simp) hn

/-- A batch that comes back without failures, before any that has one. -/
lemma Stage.commit {batch : Batch} (h : Stage isInRollback rollback (batch :: output) msgs)
    (hr : batch.rollback = []) (he : batch.entries ≠ []) :
    rollback = [] ∧ Stage isInRollback [] output msgs := by
  cases h with
  | normal ho hm => exact ⟨rfl, .normal (fun b hb => ho b (mem_cons_of_mem _ hb)) hm⟩
  | failed hco hm =>
    generalize hba : batch :: output = batches at hco
    cases hco with
    | @awaited first last failed hfi hf hl =>
      cases first with
      | nil =>
        obtain ⟨rfl, -⟩ := cons_eq_cons.mp hba
        exact absurd hr hf
      | cons b first =>
        obtain ⟨-, rfl⟩ := cons_eq_cons.mp hba
        have hre : ∀ c ∈ first, c.rollback = [] := fun c hc => hfi c (mem_cons_of_mem _ hc)
        exact ⟨rfl, .failed (.awaited hre hf hl) hm⟩
    | begun _ hcm =>
      rw [← hba] at hcm
      exact absurd (by rw [Batch.entries, hcm batch mem_cons_self, hr]; rfl) he

lemma Stage.rolledBack {batch : Batch} (h : Stage isInRollback rollback (batch :: output) msgs)
    (hbt : batch.rollback ≠ []) :
    isInRollback = true ∧ .completeRollback ∉ msgs ∧ (rollback = [] ∨ batch.commit = []) ∧
      ∀ b ∈ output, b.commit = [] := by
  cases h with
  | normal ho _ => exact absurd (ho batch mem_cons_self) hbt
  | failed hc hm =>
    refine ⟨rfl, hm, ?_⟩
    generalize hba : batch :: output = batches at hc
    cases hc with
    | @awaited first last failed hf _ hl =>
      cases first with
      | nil =>
        obtain ⟨-, rfl⟩ := cons_eq_cons.mp hba
        exact ⟨.inl rfl, hl⟩
      | cons b first =>
        obtain ⟨rfl, -⟩ := cons_eq_cons.mp hba
        exact absurd (hf batch mem_cons_self) hbt
    | begun _ hco =>
      rw [← hba] at hco
      exact ⟨.inr (hco batch mem_cons_self), fun b hb => hco b (mem_cons_of_mem _ hb)⟩

end Stage

lemma Stage.writeToDisk {isInRollback : Bool}
    (h : Stage isInRollback rollback output (.batch entries :: msgs)) (written : Nat) :
    Stage (isInRollback || !(entries.drop (if isInRollback then 0 else written)).isEmpty) rollback
      (output ++ [⟨entries.take (if isInRollback then 0 else written),
        entries.drop (if isInRollback then 0 else written)⟩]) msgs := by
  cases h with
  | normal ho hm =>
    have hm' : .completeRollback ∉ msgs := fun hi => hm (mem_cons_of_mem _ hi)
    by_cases hd : entries.drop written = []
    · simp only [Bool.false_eq_true, if_false, hd, isEmpty_nil, Bool.not_true, Bool.or_self]
      refine .normal (fun b hb => ?_) hm'
      rcases mem_append.mp hb with hb | hb
      · exact ho b hb
      · rw [mem_singleton.mp hb]
    · have hn : (entries.drop written).isEmpty = false := by simpa using hd
      simp only [Bool.false_eq_true, if_false, hn, Bool.not_false, Bool.or_true]
      exact .failed (.awaited ho hd (by simp)) hm'
  | failed hc hm =>
    simp only [if_true, Bool.true_or, take_zero, drop_zero]
    exact .failed (hc.append rfl) fun hi => hm (mem_cons_of_mem _ hi)

lemma Inv.writeToDisk (h : Inv s) {rest : List Msg} (hp : s.pipe = .batch entries :: rest)
    {written : Nat} (hfi : s.Fails written → s.waiting = []) :
    Inv (State.writeToDisk { s with pipe := rest } written entries) := by
  have hm : s.pipe ++ s.input = .batch entries :: (rest ++ s.input) := by
    rw [hp, cons_append]
  have hs := h.stage
  rw [hm] at hs
  have hse : (State.writeToDisk { s with pipe := rest } written entries).sent = s.sent := by
    simp [State.writeToDisk, State.sent, hm, Msg.entries, Batch.entries]
  refine ⟨⟨?_, h.numbered, ?_, hs.writeToDisk written, ?_, ?_, h.input_eq⟩, ?_⟩
  · rw [State.pending, hse]
    exact h.records
  · rw [hse]
    exact h.last
  · intro hi
    exact h.msgs_ne (hm ▸ mem_cons_of_mem _ hi)
  · intro b hb
    rcases mem_append.mp hb with hb | hb
    · exact h.output_ne b hb
    · rw [mem_singleton.mp hb, Batch.entries, take_append_drop]
      rintro rfl
      exact h.msgs_ne (hm ▸ mem_cons_self)
  · -- the batch fails now, or an earlier one did
    intro hf
    change s.waiting = []
    cases hi : s.isInRollback with
    | true =>
      rw [hi] at hs
      exact h.quiet hs.collecting.failing
    | false =>
      by_cases hw : written < entries.length
      · exact hfi (by simpa [Fails, hp, Msg.entries] using hw)
      · refine h.quiet ?_
        rcases hf with hr | ⟨b, hb, hn⟩
        · exact .inl hr
        · rcases mem_append.mp hb with hb | hb
          · exact .inr ⟨b, hb, hn⟩
          · rw [mem_singleton.mp hb] at hn
            simp [hi, Nat.not_lt.mp hw] at hn

lemma Inv.walStep (h : Inv s) {written : Nat} (hf : (Action.walStep written).Fits s)
    (hstep : s.walStep written = some t) : Inv t := by
  unfold State.walStep at hstep
  split at hstep
  · cases hstep
  · rename_i entries rest hp
    rw [← Option.some.inj hstep]
    exact h.writeToDisk hp hf
  · rename_i rest hp
    rw [← Option.some.inj hstep]
    have hm : s.pipe ++ s.input = .completeRollback :: (rest ++ s.input) := by
      rw [hp, cons_append]
    have hse : State.sent { s with pipe := rest, isInRollback := false } = s.sent := by
      simp [State.sent, hm, Msg.entries]
    have hs : Stage false s.rollback s.output (rest ++ s.input) := by
      have hs := h.stage
      rw [hm] at hs
      exact hs.complete
    refine ⟨⟨?_, h.numbered, ?_, hs, ?_, h.output_ne, h.input_eq⟩, h.quiet⟩
    · rw [State.pending, hse]
      exact h.records
    · rw [hse]
      exact h.last
    · exact fun hi => h.msgs_ne (hm ▸ mem_cons_of_mem _ hi)

lemma Inv.commitBatch (h : Inv s) {rest : List Batch} (ho : s.output = batch :: rest)
    (hr : batch.rollback = []) :
    Inv (schedule { s with output := rest } (fun entry => .committed entry.id) batch.commit) := by
  have hs := h.stage
  rw [ho] at hs
  obtain ⟨hn, hs⟩ := hs.commit hr (h.output_ne batch (ho ▸ mem_cons_self))
  have hse : s.sent = batch.commit ++ State.sent { s with output := rest } := by
    simp [State.sent, hn, ho, Batch.entries, hr]
  have hre := h.records
  rw [State.pending, hse, append_assoc] at hre
  have hi : Inv { s with
      output := rest
      log := s.log ++ batch.commit.map fun entry => .committed entry.id } := by
    refine ⟨⟨hre.commit, ?_, ?_, ?_, h.msgs_ne, ?_, h.input_eq⟩, ?_⟩
    · exact h.numbered.complete (fun entry => .committed entry.id) (fun _ => rfl) batch.commit
    · have hl := h.last
      rw [hse] at hl
      exact hl.of_append
    · rw [← hn] at hs
      exact hs
    · exact fun b hb => h.output_ne b (ho ▸ mem_cons_of_mem _ hb)
    · rintro (hf | ⟨b, hb, hne⟩)
      · exact absurd hn hf
      · exact h.quiet (.inr ⟨b, ho ▸ mem_cons_of_mem _ hb, hne⟩)
  exact (hi.requeue rfl _ s.maxSize).wakeup

lemma schedule_of_waiting (h : s.waiting = []) (event : Entry → Event) (entries : List Entry) :
    s.schedule event entries = { s with
      size := s.size - ((entries.map Entry.approxLen).sum : Nat)
      log := s.log ++ entries.map event } := by
  have hw : s.waiters = [] := (append_eq_nil_iff.mp h).2
  unfold schedule wakeup
  rw [hw]

lemma completeRollback_of_last (h : s.waiting = [])
    (hl : s.rollback.getLast?.map Entry.id = s.lastEntry) :
    s.completeRollback = { s with
      size := s.size - ((s.rollback.reverse.map Entry.approxLen).sum : Nat)
      log := s.log ++ s.rollback.reverse.map fun entry => .rolledBack entry.id
      rollback := []
      input := s.input ++ [.completeRollback] } := by
  unfold completeRollback
  rw [if_neg (not_not.mpr hl), schedule_of_waiting h]

lemma flatMap_entries_eq_nil (hn : ∀ b ∈ output, b.entries ≠ [])
    (h : output.flatMap Batch.entries = []) : output = [] := by
  cases output with
  | nil => rfl
  | cons b output => exact absurd (append_eq_nil_iff.mp h).1 (hn b mem_cons_self)

lemma flatMap_msgs_eq_nil (hne : .batch [] ∉ msgs) (hn : .completeRollback ∉ msgs)
    (h : msgs.flatMap Msg.entries = []) : msgs = [] := by
  cases msgs with
  | nil => rfl
  | cons msg msgs =>
    have hm : msg.entries = [] := (append_eq_nil_iff.mp h).1
    cases msg with
    | batch entries => exact absurd (hm ▸ mem_cons_self) hne
    | completeRollback => exact absurd mem_cons_self hn

/-- A batch with failures adds to the rollback, and completes it when nothing else was sent. -/
lemma Inv.rollBackBatch (h : Inv s) {rest : List Batch} (ho : s.output = batch :: rest)
    (hro : batch.rollback ≠ []) :
    Inv (schedule (completeRollback
      { s with output := rest, rollback := s.rollback ++ batch.rollback })
      (fun entry => .committed entry.id) batch.commit) := by
  have hs := h.stage
  rw [ho] at hs
  obtain ⟨hin, hm, hon, hco⟩ := hs.rolledBack hro
  have hw : s.waiting = [] := h.quiet (.inr ⟨batch, ho ▸ mem_cons_self, hro⟩)
  have hne : s.rollback ++ batch.rollback ≠ [] := by simp [hro]
  have hrest_ne : ∀ b ∈ rest, b.entries ≠ [] :=
    fun b hb => h.output_ne b (ho ▸ mem_cons_of_mem _ hb)
  generalize hla : rest.flatMap Batch.entries ++ (s.pipe ++ s.input).flatMap Msg.entries = later
  -- what is committed was sent before what is rolled back
  have hse : s.sent = batch.commit ++ (s.rollback ++ batch.rollback ++ later) := by
    rw [← hla, State.sent, ho]
    rcases hon with hno | hno <;> simp [hno, Batch.entries]
  have hr := h.records
  rw [State.pending, hse, hw, append_nil] at hr
  have hl := h.last
  rw [hse] at hl
  have hl := hl.of_append
  by_cases hd : (s.rollback ++ batch.rollback).getLast?.map Entry.id = s.lastEntry
  · -- the rollback has come to its last entry: nothing else is on its way
    have hn := hr.nodup h.numbered
    rw [map_append] at hn
    obtain rfl : later = [] := hl.eq_nil hne hd (nodup_append.mp hn).2.1
    obtain ⟨houtput_nil, hmsgs_nil⟩ := append_eq_nil_iff.mp hla
    obtain rfl := flatMap_entries_eq_nil hrest_ne houtput_nil
    obtain ⟨hp, hi⟩ := append_eq_nil_iff.mp (flatMap_msgs_eq_nil h.msgs_ne hm hmsgs_nil)
    rw [append_nil] at hr
    rw [completeRollback_of_last, schedule_of_waiting]
    · refine ⟨⟨?_, ?_, ?_, ?_, ?_, ?_, ?_⟩, fun _ => hw⟩
      · have hrl := hr.rollBack
        rw [← append_nil batch.commit, ← hw] at hrl
        simpa [State.pending, State.sent, waiting, hp, hi, Msg.entries] using hrl.commit
      · exact (h.numbered.complete (fun entry => .rolledBack entry.id) (fun _ => rfl) _).complete
          (fun entry => .committed entry.id) (fun _ => rfl) _
      · simp [State.sent, hp, hi, Msg.entries, IsLast]
      · simp only [hp, hi, hin]
        exact .completed (by simp)
      · simp [hp, hi]
      · simp
      · simp [hi]
    · exact hw
    · exact hw
    · exact hd
  · have hiv : Inv { s with
        output := rest
        rollback := s.rollback ++ batch.rollback
        log := s.log ++ batch.commit.map fun entry => .committed entry.id } := by
      refine ⟨⟨?_, ?_, ?_, ?_, h.msgs_ne, hrest_ne, h.input_eq⟩, fun _ => hw⟩
      · have hc := hr.commit
        rw [← hla, ← append_nil (s.rollback ++ _ ++ _), ← hw,
          ← append_assoc (s.rollback ++ _)] at hc
        exact hc
      · exact h.numbered.complete (fun entry => .committed entry.id) (fun _ => rfl) batch.commit
      · rw [← hla, ← append_assoc] at hl
        exact hl
      · dsimp only
        rw [hin]
        exact .failed (.begun hne hco) hm
    unfold completeRollback
    rw [if_pos hd]
    exact (hiv.requeue rfl _ s.maxSize).wakeup

lemma Inv.completeBatch (h : Inv s) (hstep : s.completeBatch = some t) : Inv t := by
  unfold State.completeBatch at hstep
  split at hstep
  · cases hstep
  · rename_i batch rest ho
    rw [← Option.some.inj hstep]
    unfold collectRollback
    split
    · rename_i hr
      exact h.commitBatch ho hr
    · rename_i hr
      exact h.rollBackBatch ho hr

lemma inv_step {action : Action} (hstep : step s action = some t) (hf : action.Fits s)
    (h : Inv s) : Inv t := by
  cases action with
  | writeTryAsync isOom approxLen =>
    rw [← Option.some.inj hstep]
    exact h.writeTryAsync hf
  | writeSync isOom approxLen =>
    rw [← Option.some.inj hstep]
    exact h.writeSync isOom approxLen
  | resume isOom => exact h.resume hf hstep
  | flushInput =>
    rw [← Option.some.inj hstep]
    exact h.flushInput
  | walStep written => exact h.walStep hf hstep
  | completeBatch => exact h.completeBatch hstep
  | setMaxSize size =>
    rw [← Option.some.inj hstep]
    exact h.setMaxSize size
  | wakeupWaiter index =>
    obtain rfl : index = 0 := hf
    exact h.wakeupFirst hstep

def initial (maxSize : Int) : State where
  maxSize := maxSize

lemma inv_initial (maxSize : Int) : Inv (initial maxSize) where
  records := rfl
  numbered := rfl
  last := fun hn => absurd rfl hn
  stage := .normal (by simp [initial]) (by simp [initial])
  msgs_ne := by simp [initial]
  output_ne := by simp [initial]
  input_eq := by simp [initial]
  quiet := fun _ => rfl

/-- Cascading rollback is complete in every run in which nobody waits in the journal queue while
a failed write is on its way. -/
theorem rollback_cascades {maxSize : Int} {actions : List Action} {s : State}
    (hfits : Along step (fun s action => action.Fits s) (initial maxSize) actions)
    (hrun : run step (initial maxSize) actions = some s) : Cascades s.log :=
  have hi := run_invariant_along inv_step hrun hfits (inv_initial maxSize)
  hi.records.cascades hi.numbered

instance (s : State) : (action : Action) → Decidable (action.Fits s)
  | .writeTryAsync _ _ => inferInstanceAs (Decidable (s.Failing → ¬ s.isFull))
  | .resume isOom => inferInstanceAs (Decidable (isOom → s.waiting.tail = []))
  | .walStep written => inferInstanceAs (Decidable (s.Fails written → s.waiting = []))
  | .wakeupWaiter index => inferInstanceAs (Decidable (index = 0))
  | .writeSync _ _ | .flushInput | .completeBatch | .setMaxSize _ => isTrue trivial

/-- The second transaction is prepared after the first one and commits after its rollback: it
waited for space meanwhile. -/
def waiter : List Action :=
  [.writeTryAsync false 1, .writeTryAsync false 1, .flushInput, .walStep 0, .completeBatch,
    .resume false, .flushInput, .walStep 0, .walStep 1, .completeBatch]

theorem waiter_committed_after_rollback :
    ∃ s, run step (initial 1) waiter = some s ∧ ¬ Cascades s.log := by
  refine ⟨_, rfl, fun h => ?_⟩
  exact (h [] 0 [] 1 [] [.committed 1] rfl).1 (by decide)

/-- Three transactions, two batches; the second entry cannot be written. A fourth transaction comes
during the rollback, a fifth one after it. -/
def failedWrites : List Action :=
  [.writeTryAsync false 1, .writeSync false 1, .flushInput, .writeTryAsync false 1, .flushInput,
    .walStep 1, .completeBatch, .writeTryAsync false 1, .walStep 1, .completeBatch,
    .writeTryAsync false 1, .flushInput, .walStep 0, .walStep 1, .completeBatch]

theorem failed_writes_cascade : ∃ s, run step (initial 10) failedWrites = some s ∧ Cascades s.log ∧
      s.log = [.prepared 0, .prepared 1, .prepared 2, .committed 0, .prepared 3, .rolledBack 3,
        .rolledBack 2, .rolledBack 1, .prepared 4, .committed 4] := by
  have hf : Along step (fun s action => action.Fits s) (initial 10) failedWrites := by
    decide
  exact ⟨_, rfl, rollback_cascades hf rfl, by decide⟩

/-- In the same runs no transaction is lost or completed twice, wherever it is on its way: each one
that was prepared is committed, rolled back or pending, and they commit in that order. -/
theorem transactions_conserved {maxSize : Int} {actions : List Action} {s : State}
    (hfits : Along step (fun s action => action.Fits s) (initial maxSize) actions)
    (hrun : run step (initial maxSize) actions = some s) :
    ((s.log.map Event.move).filterMap Deque.Move.removed? ++ s.pending.map Entry.id).Perm
        (range s.prepared) ∧
      ((s.log.map Event.move).filterMap Deque.Move.front? ++ s.pending.map Entry.id).Sublist
        (range s.prepared) := by
  have hi := run_invariant_along inv_step hrun hfits (inv_initial maxSize)
  rw [← show _ = range s.prepared from hi.numbered]
  exact ⟨(Deque.pushed_perm hi.records).symm, Deque.front_sublist hi.records⟩

theorem transactions_conserved_failed : ∃ s, run step (initial 10) failedWrites = some s ∧
      s.prepared = 5 ∧
      ((s.log.map Event.move).filterMap Deque.Move.removed? ++ s.pending.map Entry.id).Perm
        (range s.prepared) := by
  have hf : Along step (fun s action => action.Fits s) (initial 10) failedWrites := by
    decide
  exact ⟨_, rfl, rfl, (transactions_conserved hf rfl).1⟩

end TarantoolStorage.Journal
