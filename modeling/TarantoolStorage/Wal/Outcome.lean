import TarantoolStorage.Wal.Commit
import TarantoolStorage.Xlog.ReadBack

/-!
The outcome of a batch, and of every sequence of batches: the entries that are committed are
those in the file.
-/
namespace TarantoolStorage.Wal

open Checked MsgPack Xrow Xlog List Option Progress Writer

def xrowApproxLen (row : Header) : Nat := xrowHeaderLenMax + row.body.flatten.length

def rowsOf (entries : List Entry) : List Header := entries.flatMap Entry.rows

/-- `approx_len` of a batch. -/
def approxLen (entries : List Entry) : Nat := ((rowsOf entries).map xrowApproxLen).sum

/-- A block with no more bytes than the batch has a size that an `int` holds. -/
def Small (env : Env) (entries : List Entry) : Prop :=
  ∀ data : Bytes, data.length ≤ approxLen entries →
    xlogFixheaderSize + (env.data data).length < 2 ^ 31

def Writer.blocks (writer : Writer) : List (List (List Header)) :=
  (writer.closed ++ writer.currentWal.toList).flatMap Log.blocks

structure Ready (env : Env) (log : Log) (pending : List (List Header)) : Prop where
  inv : log.Inv env
  autocommit : log.isAutocommit = true
  pending_eq : log.pending = pending

/-- The entries of a batch that are numbered, and the clocks. -/
structure Progress.Numbered (writer : Writer) (submitted : List Entry) (p : Progress) : Prop where
  committed_le : p.committed ≤ p.entries.length
  written : WrittenEntries writer.vclock submitted p.entries
  clock_eq : batchClock p.diff p.writer.vclock = advanceAll writer.vclock (rowsOf p.entries)
  vclock_eq : p.writer.vclock = advanceAll writer.vclock (rowsOf (p.entries.take p.committed))
  nonempty : ∀ entry ∈ p.entries, entry.rows ≠ []
  approx_le : (rowsBytes (rowsOf p.entries)).length ≤ approxLen submitted

/-- The state of the batch after some of its entries: those that are not committed are in the
buffer. -/
structure Progress.Inv (config : Config) (writer : Writer) (submitted : List Entry)
    (p : Progress) : Prop extends p.Numbered writer submitted where
  closed_eq : p.writer.closed = writer.closed
  log : ∃ log, p.writer.currentWal = some log ∧
    Ready config.env log ((p.entries.drop p.committed).map Entry.rows)
  blocks : ∃ new, p.writer.blocks = writer.blocks ++ new ∧
    new.flatten = (p.entries.take p.committed).map Entry.rows

/-- The state of the batch at its end, whether it failed or not. -/
structure Progress.Done (config : Config) (writer : Writer) (submitted : List Entry)
    (p : Progress) : Prop where
  length_eq : p.entries.length = submitted.length
  committed_le : p.committed ≤ p.entries.length
  written : WrittenEntries writer.vclock (submitted.take p.committed) (p.entries.take p.committed)
  vclock_eq : p.writer.vclock = advanceAll writer.vclock (rowsOf (p.entries.take p.committed))
  closed_eq : p.writer.closed = writer.closed
  log : ∃ log, p.writer.currentWal = some log ∧ Ready config.env log []
  blocks : ∃ new, p.writer.blocks = writer.blocks ++ new ∧
    new.flatten = (p.entries.take p.committed).map Entry.rows

structure Progress.Stopped (config : Config) (writer : Writer) (submitted : List Entry)
    (p : Progress) : Prop extends p.Done config writer submitted where
  committed_lt : p.committed < p.entries.length

section

variable {config : Config} {writer : Writer} {env : Env} {clock base diff : Clock}
  {entry entry' : Entry} {entries entries' submitted : List Entry} {p : Progress}
  {row row' : Header} {rows out : List Header} {log log' : Log} {faults : Faults} {i n : Nat}

@[simp] lemma rowsOf_append (entries more : List Entry) :
    rowsOf (entries ++ more) = rowsOf entries ++ rowsOf more :=
  flatMap_append

@[simp] lemma rowsOf_cons (entry : Entry) (entries : List Entry) :
    rowsOf (entry :: entries) = entry.rows ++ rowsOf entries :=
  flatMap_cons

lemma flatten_map_rows (entries : List Entry) : (entries.map Entry.rows).flatten = rowsOf entries :=
  (flatMap_def ..).symm

lemma approxLen_append (entries more : List Entry) :
    approxLen (entries ++ more) = approxLen entries + approxLen more := by
  simp [approxLen]

lemma length_rowBytes_le (hr : WellFormed row) : (rowBytes row).length ≤ xrowApproxLen row := by
  have hh := length_head hr.replica hr.group 0
  rw [rowBytes, length_append, xrowApproxLen]
  omega

lemma length_rowsBytes_le (hs : List.Forall₂ SameRow rows out) (hw : ∀ row ∈ out, WellFormed row) :
    (rowsBytes out).length ≤ (rows.map xrowApproxLen).sum := by
  induction hs with
  | nil => exact Nat.le_refl 0
  | @cons row row' rows out hro _ ih =>
    obtain ⟨hro', hw⟩ := forall_mem_cons.mp hw
    have hl := length_rowBytes_le hro'
    have ha : xrowApproxLen row' = xrowApproxLen row := by
      rw [xrowApproxLen, xrowApproxLen, hro.body_eq]
    have hr := ih hw
    rw [rowsBytes, flatMap_cons, ← rowsBytes, length_append, map_cons, sum_cons]
    omega

section

variable (h : WrittenEntries clock entries entries')
include h

lemma writtenEntries_length :
    entries'.length = entries.length := by
  fun_induction WrittenEntries clock entries entries' with
  | case1 => rfl
  | case2 clock entry entries entry' entries' ih => rw [length_cons, length_cons, ih h.2]
  | case3 => exact h.elim

lemma writtenEntries_concat
    (he : WrittenEntry (advanceAll clock (rowsOf entries')) entry entry') :
    WrittenEntries clock (entries ++ [entry]) (entries' ++ [entry']) := by
  fun_induction WrittenEntries clock entries entries' with
  | case1 => exact ⟨he, trivial⟩
  | case2 clock first entries first' entries' ih =>
    rw [rowsOf_cons, advanceAll_append] at he
    exact ⟨h.1, ih h.2 he⟩
  | case3 => exact h.elim

lemma writtenEntries_take (n : Nat) :
    WrittenEntries clock (entries.take n) (entries'.take n) := by
  fun_induction WrittenEntries clock entries entries' generalizing n with
  | case1 =>
    rw [take_nil]
    trivial
  | case2 clock entry entries entry' entries' ih =>
    cases n with
    | zero => trivial
    | succ n => exact ⟨h.1, ih h.2 n⟩
  | case3 => exact h.elim

end

lemma sum_batchClock (diff base : Clock) : (batchClock diff base).sum = diff.sum + base.sum :=
  sum_map_add

lemma toInt_of_lt (h : n < 2 ^ 31) : toInt n = n := by
  unfold toInt
  omega

lemma merge_eq : base.merge diff = batchClock diff base := by
  funext id
  exact Nat.add_comm _ _

lemma blocks_setLog (new : List (List (List Header))) (hl : writer.currentWal = some log)
    (hb : log'.blocks = log.blocks ++ new) :
    ({ writer with currentWal := some log' } : Writer).blocks = writer.blocks ++ new := by
  simp [Writer.blocks, hl, hb]

def Progress.add (p : Progress) (log : Log) (diff : Clock) (entry : Entry) : Progress :=
  { p with
    writer := { p.writer with currentWal := some log }
    diff := diff
    entries := p.entries ++ [entry] }

lemma Progress.Numbered.add (log : Log) (h : p.Numbered writer submitted)
    (he : WrittenEntry (advanceAll writer.vclock (rowsOf p.entries)) entry entry')
    (hc : batchClock diff p.writer.vclock =
      advanceAll (advanceAll writer.vclock (rowsOf p.entries)) entry'.rows)
    (hn : entry'.rows ≠ []) (ha : (rowsBytes entry'.rows).length ≤ approxLen [entry]) :
    (p.add log diff entry').Numbered writer (submitted ++ [entry]) := by
  have ht : (p.entries ++ [entry']).take p.committed = p.entries.take p.committed :=
    take_append_of_le_length h.committed_le
  refine ⟨?_, writtenEntries_concat h.written he, ?_, ?_, ?_, ?_⟩
  · have hl := h.committed_le
    simp only [Progress.add, length_append]
    omega
  · rw [Progress.add, rowsOf_append, advanceAll_append, rowsOf_cons]
    simpa [rowsOf] using hc
  · simp only [Progress.add, ht]
    exact h.vclock_eq
  · intro other ho
    rcases mem_append.mp ho with ho | ho
    · exact h.nonempty other ho
    · rw [mem_singleton.mp ho]
      exact hn
  · have hl := h.approx_le
    have hr : rowsOf [entry'] = entry'.rows := by simp [rowsOf]
    rw [Progress.add, rowsOf_append, rowsBytes_append, length_append, approxLen_append, hr]
    omega

lemma Progress.Numbered.commit (h : p.Numbered writer submitted) (rc : Int) :
    (p.commit rc).Numbered writer submitted := by
  have hv : (p.commit rc).writer.vclock = advanceAll writer.vclock (rowsOf p.entries) := by
    rw [← h.clock_eq, ← merge_eq, Progress.commit]
  refine ⟨Nat.le_refl _, h.written, ?_, ?_, h.nonempty, h.approx_le⟩
  · rw [hv]
    funext id
    exact Nat.zero_add _
  · rw [hv, Progress.commit, take_length]

lemma Progress.Inv.commit {new : List (List (List Header))}
    (h : p.Numbered writer submitted) (hc : p.writer.closed = writer.closed)
    (hl : p.writer.currentWal = some log) (hr : Ready config.env log [])
    (hb : p.writer.blocks = writer.blocks ++ new)
    (hn : new.flatten = p.entries.map Entry.rows) (rc : Int) :
    (p.commit rc).Inv config writer submitted := by
  refine ⟨h.commit rc, hc, ⟨log, hl, ?_⟩, ⟨new, hb, ?_⟩⟩
  · rw [Progress.commit, drop_length]
    exact hr
  · rw [Progress.commit, take_length]
    exact hn

/-- The entries of the rest of a batch can be numbered. -/
structure Progress.Fits (config : Config) (writer : Writer) (entries : List Entry)
    (p : Progress) : Prop where
  rows : ∀ entry ∈ entries, entry.rows ≠ [] ∧ ∀ row ∈ entry.rows, WellFormed row
  accepts : Accepts config.instanceId (advanceAll writer.vclock (rowsOf p.entries)) (rowsOf entries)
  room : RowRoom (advanceAll writer.vclock (rowsOf p.entries)) (rowsOf entries)
    (rowsOf entries).length

/-- A batch that stops at an entry keeps what is in the file. -/
lemma Progress.Inv.stop (h : p.Inv config writer submitted)
    (hlo : p.writer.currentWal = some log) (hr : Ready config.env log' [])
    (hb : log'.blocks = log.blocks) (hl : entries'.length = entries.length) :
    ({ p.add log' diff entry' with entries := (p.add log' diff entry').entries ++ entries' } :
      Progress).Stopped config writer (submitted ++ entry :: entries) := by
  have hl' := writtenEntries_length h.written
  have hle := h.committed_le
  have ht : (p.entries ++ [entry'] ++ entries').take p.committed = p.entries.take p.committed := by
    rw [append_assoc, take_append_of_le_length hle]
  have ht' : (submitted ++ entry :: entries).take p.committed = submitted.take p.committed :=
    take_append_of_le_length (by omega)
  obtain ⟨new, hn, hro⟩ := h.blocks
  refine ⟨⟨?_, ?_, ?_, ?_, h.closed_eq, ⟨log', rfl, hr⟩, ⟨new, ?_, ?_⟩⟩, ?_⟩
  · simp only [Progress.add, length_append, length_cons, hl', hl]
    simp only [length_nil]
    omega
  · simp only [Progress.add, length_append]
    omega
  · simp only [Progress.add, ht, ht']
    exact writtenEntries_take h.written p.committed
  · simp only [Progress.add, ht]
    exact h.vclock_eq
  · have hs := blocks_setLog [] hlo (hb.trans (append_nil _).symm)
    rw [Progress.add, ← hn, hs, append_nil]
  · simp only [Progress.add, ht]
    exact hro
  · simp only [Progress.add, length_append, length_singleton]
    omega

lemma Progress.Numbered.encode_lt (h : p.Numbered writer submitted)
    (hs : Small env submitted) {txs : List (List Header)}
    (ht : txs.flatten = rowsOf (p.entries.drop p.committed)) :
    (env.encode txs).length < 2 ^ 31 := by
  have hr := h.approx_le
  rw [← take_append_drop p.committed p.entries, rowsOf_append, rowsBytes_append,
    length_append] at hr
  rw [Env.encode, length_blockOf, ht]
  exact hs _ (by omega)

/-- An entry as it is after its rows are written, with the signature of the clock. -/
def Progress.result (p : Progress) (diff : Clock) (entry : Entry) (rows : List Header) : Entry :=
  { entry with rows := rows, res := (diff.sum + p.writer.vclock.sum : Nat) }

/-- The next entry is numbered, and those after it can still be. -/
lemma Progress.Numbered.assign (hi : config.instanceId.toNat < vclockMax)
    (h : p.Numbered writer submitted) (hf : p.Fits config writer (entry :: entries)) :
    ∃ diff' entry₁, walAssignLsn config.instanceId p.diff p.writer.vclock entry =
        some (diff', entry₁) ∧ entry₁.rows ≠ [] ∧ (∀ row ∈ entry₁.rows, WellFormed row) ∧
      ∀ log now, (p.add log diff' (p.result diff' entry₁ (entry₁.rows.map (stamp now)))).Numbered
          writer (submitted ++ [entry]) ∧
        (p.add log diff' (p.result diff' entry₁ (entry₁.rows.map (stamp now)))).Fits
          config writer entries := by
  obtain ⟨⟨hne, hw⟩, hre⟩ := forall_mem_cons.mp hf.rows
  have ha := hf.accepts
  have hr := hf.room
  rw [rowsOf_cons, accepts_append, ← h.clock_eq] at ha
  rw [rowsOf_cons, length_append, ← h.clock_eq] at hr
  obtain ⟨diff', entry₁, hag, hsa, hco, hc, hw₁, hnx⟩ :=
    walAssignLsn_spec hi hw ha.1 hr.left (Nat.le_add_right _ _)
  have hne₁ : entry₁.rows ≠ [] := by
    intro hni
    rw [hni, forall₂_nil_right_iff] at hsa
    exact hne hsa
  refine ⟨diff', entry₁, hag, hne₁, hw₁, fun log now => ?_⟩
  have hs := sameNumber_stamp now entry₁.rows
  have hw' : ∀ row ∈ entry₁.rows.map (stamp now), WellFormed row := by
    intro row hro
    obtain ⟨other, ho, rfl⟩ := mem_map.mp hro
    exact wellFormed_stamp now (hw₁ other ho)
  have hc' : batchClock diff' p.writer.vclock = advanceAll
      (advanceAll writer.vclock (rowsOf p.entries)) (entry₁.rows.map (stamp now)) := by
    rw [← h.clock_eq, advanceAll_sameNumber hs, hc]
  have he : WrittenEntry (advanceAll writer.vclock (rowsOf p.entries)) entry
      (p.result diff' entry₁ (entry₁.rows.map (stamp now))) := by
    refine ⟨sameRow_sameNumber hsa hs, ?_, ?_⟩
    · rw [← h.clock_eq]
      exact consecutive_sameNumber hs hco
    · rw [Progress.result, ← hc', sum_batchClock]
  have hap : (rowsBytes (entry₁.rows.map (stamp now))).length ≤ approxLen [entry] := by
    rw [approxLen, rowsOf, flatMap_cons, flatMap_nil, append_nil]
    exact length_rowsBytes_le he.same hw'
  have hn := h.add log he hc' (mt map_eq_nil_iff.mp hne₁) hap
  have haf := hn.clock_eq.symm.trans hnx
  refine ⟨hn, hre, ?_, ?_⟩
  · rw [haf]
    exact ha.2
  · rw [haf]
    exact hr.after

/-- One entry is dropped with all that is buffered, or buffered, or written. -/
lemma Progress.Inv.writeEntry (faults : Faults) (i : Nat)
    (hid : config.instanceId.toNat < vclockMax)
    (hi : p.Inv config writer submitted) (hf : p.Fits config writer (entry :: entries))
    (hs : Small config.env (submitted ++ [entry])) :
    ∃ rc p', p.writeEntry config faults i entry = some (rc, p') ∧
      (rc = -1 ∧ ({ p' with entries := p'.entries ++ entries } : Progress).Stopped config writer
          (submitted ++ entry :: entries) ∨
        p'.Fits config writer entries ∧ (rc = 0 ∧ p'.Inv config writer (submitted ++ [entry]) ∨
          0 < rc ∧ (p'.commit rc).Inv config writer (submitted ++ [entry]))) := by
  obtain ⟨log, hl, hr⟩ := hi.log
  obtain ⟨diff', entry₁, hag, hne₁, hwf₁, had⟩ := hi.toNumbered.assign hid hf
  obtain ⟨rc, log', rows', hw, hi', ha', hc⟩ :=
    xlogWriteEntry_spec (faults.encode i) (faults.write i) faults.now hr.inv hr.autocommit hwf₁ hne₁
  refine ⟨toInt rc, p.add log' diff' (p.result diff' entry₁ rows'), ?_, ?_⟩
  · simp only [Progress.writeEntry, hag, hl, bind_eq_bind, bind_some, hw]
    rfl
  rcases hc with ⟨rfl, hp, hb⟩ | ⟨hro, hc⟩
  · exact .inl ⟨rfl, hi.stop hl ⟨hi', ha', hp⟩ hb rfl⟩
  obtain ⟨hn, hf'⟩ := had log' faults.now
  rw [← hro] at hn hf'
  have hd : ((p.entries ++ [p.result diff' entry₁ rows']).drop p.committed).map Entry.rows =
      (p.entries.drop p.committed).map Entry.rows ++ [rows'] := by
    rw [drop_append_of_le_length hi.committed_le, map_append]
    rfl
  obtain ⟨new, hnw, hfl⟩ := hi.blocks
  refine .inr ⟨hf', ?_⟩
  rcases hc with ⟨rfl, hp, hb⟩ | ⟨rfl, hp, hb⟩
  · refine .inl ⟨rfl, hn, hi.closed_eq, ⟨log', rfl, hi', ha', ?_⟩, new, ?_, ?_⟩
    · rw [hp, hr.pending_eq, Progress.add, hd]
    · have hsa := blocks_setLog [] hl (hb.trans (append_nil _).symm)
      rw [Progress.add, ← hnw, hsa, append_nil]
    · rw [Progress.add, take_append_of_le_length hi.committed_le]
      exact hfl
  · have hlt : (config.env.encode (log.pending ++ [rows'])).length < 2 ^ 31 := by
      refine hn.encode_lt hs ?_
      rw [← flatten_map_rows, Progress.add, hd, hr.pending_eq]
    have hpo : 0 < (config.env.encode (log.pending ++ [rows'])).length := by
      rw [Env.encode, length_blockOf, xlogFixheaderSize]
      omega
    have hal : (p.add log' diff' (p.result diff' entry₁ rows')).writer.blocks =
        writer.blocks ++ (new ++ [log.pending ++ [rows']]) := by
      rw [← append_assoc, ← hnw]
      exact blocks_setLog _ hl hb
    rw [toInt_of_lt hlt]
    refine .inr ⟨by omega, Inv.commit hn hi.closed_eq rfl ⟨hi', ha', hp⟩ hal ?_ _⟩
    rw [flatten_append, hfl, hr.pending_eq, Progress.add, flatten_singleton,
      map_append, ← append_assoc, ← map_append, take_append_drop]
    rfl

lemma Progress.Inv.writeEntries (faults : Faults) (i : Nat)
    (hid : config.instanceId.toNat < vclockMax)
    (hi : p.Inv config writer submitted) (hf : p.Fits config writer entries)
    (hs : Small config.env (submitted ++ entries)) :
    ∃ written p', p.writeEntries config faults i entries = some (written, p') ∧
      (written = false ∧ p'.Stopped config writer (submitted ++ entries) ∨
        written = true ∧ p'.Inv config writer (submitted ++ entries)) := by
  induction entries generalizing i p submitted with
  | nil =>
    rw [append_nil]
    exact ⟨true, p, rfl, .inr ⟨rfl, hi⟩⟩
  | cons entry entries ih =>
    have ha : submitted ++ entry :: entries = submitted ++ [entry] ++ entries := by simp
    have hfi : Small config.env (submitted ++ [entry]) := by
      intro data hda
      refine hs data ?_
      rw [ha, approxLen_append]
      omega
    obtain ⟨rc, p', hstep, hc⟩ := Inv.writeEntry faults i hid hi hf hfi
    rcases hc with ⟨rfl, hd⟩ | ⟨hf', ⟨rfl, hi'⟩ | ⟨hp, hi'⟩⟩
    · exact ⟨false, _, by simp [writeEntries, hstep], .inl ⟨rfl, hd⟩⟩
    · obtain ⟨written, q, hr, hq⟩ := ih (i + 1) hi' hf' (ha ▸ hs)
      exact ⟨written, q, by simp [writeEntries, hstep, hr], ha ▸ hq⟩
    · have hf'' : (p'.commit rc).Fits config writer entries := ⟨hf'.rows, hf'.accepts, hf'.room⟩
      obtain ⟨written, q, hr, hq⟩ := ih (i + 1) hi' hf'' (ha ▸ hs)
      have hn : ¬ rc < 0 := by omega
      exact ⟨written, q, by simp [writeEntries, hstep, hr, hn, hp], ha ▸ hq⟩

lemma flush_spec (result : WriteResult) {pending : List (List Header)}
    (hr : Ready env log pending) (hn : ∀ rows ∈ pending, rows ≠ []) :
    ∃ rc log', log.flush env result = some (rc, log') ∧ Ready env log' [] ∧
      (rc = -1 ∧ pending ≠ [] ∧ log'.blocks = log.blocks ∨
        rc = 0 ∧ pending = [] ∧ log'.blocks = log.blocks ∨
        rc = (env.encode pending).length ∧ log'.blocks = log.blocks ++ [pending]) := by
  have ha := hr.autocommit
  have hcu := hr.inv.autocommit ha
  by_cases hp : pending = []
  · -- The buffer is empty, with or without a fixheader.
    have ho : log.obuf.getD [] = [] := by
      rw [hr.inv.obuf_eq, hr.pending_eq, hp, hcu]
      rfl
    have hf : log.flush env result = some (0, log) := by
      cases hbu : log.obuf with
      | none => simp [Log.flush, assertThat, ha, Log.obufSize, hbu]
      | some rows =>
        rw [hbu, getD_some] at ho
        simp [Log.flush, assertThat, ha, Log.obufSize, hbu, ho, Log.txWrite, xlogFixheaderSize]
    exact ⟨0, log, hf, ⟨hr.inv, ha, hr.pending_eq.trans hp⟩, .inr (.inl ⟨rfl, hp, rfl⟩)⟩
  · obtain ⟨rows, rest, rfl⟩ := exists_cons_of_ne_nil hp
    have hfl : log.pending.flatten ≠ [] := by
      rw [hr.pending_eq, flatten_cons]
      exact append_ne_nil_of_left_ne_nil (hn rows mem_cons_self) _
    have hs : log.obufSize ≠ 0 := by
      intro hz
      cases hbu : log.obuf with
      | none => exact hfl (by rw [(hr.inv.none_eq hbu).1, flatten_nil])
      | some bytes =>
        rw [Log.obufSize, hbu, xlogFixheaderSize] at hz
        simp at hz
    obtain ⟨hp', ha', hc⟩ := txWrite_spec result hr.inv hcu hfl
    have hf : log.flush env result = some (log.txWrite env result) := by
      simp [Log.flush, assertThat, ha, hs]
    refine ⟨_, _, hf, ⟨hr.inv.flush hf, ha'.trans ha, hp'⟩, ?_⟩
    rw [hr.pending_eq] at hc
    rcases hc with ⟨hrc, hb⟩ | hc
    · exact .inl ⟨hrc, hp, hb⟩
    · exact .inr (.inr hc)

lemma Progress.Inv.done (h : p.Inv config writer submitted)
    (ha : p.committed = p.entries.length) : p.Done config writer submitted := by
  have hl := writtenEntries_length h.written
  obtain ⟨log, hlo, hr⟩ := h.log
  rw [ha, drop_length] at hr
  exact ⟨hl, h.committed_le, writtenEntries_take h.written _, h.vclock_eq, h.closed_eq,
    ⟨log, hlo, hr⟩, h.blocks⟩

/-- The flush at the end of the batch puts all entries into the file, or none of those in the
buffer. -/
lemma Progress.Inv.flush (faults : Faults) (hi : p.Inv config writer submitted)
    (hsm : Small config.env submitted) :
    ∃ flushed p', p.flush config faults = some (flushed, p') ∧
      (flushed = false ∧ p'.Stopped config writer submitted ∨
        flushed = true ∧ p'.committed = p'.entries.length ∧ p'.Done config writer submitted) := by
  obtain ⟨log, hl, hr⟩ := hi.log
  obtain ⟨new, hnw, hf⟩ := hi.blocks
  have hne : ∀ rows ∈ (p.entries.drop p.committed).map Entry.rows, rows ≠ [] := by
    intro rows hro
    obtain ⟨entry, he, rfl⟩ := mem_map.mp hro
    exact hi.nonempty entry (mem_of_mem_drop he)
  obtain ⟨rc, log', hfl, hr', hc⟩ := flush_spec faults.flush hr hne
  have hln := writtenEntries_length hi.written
  let p' : Progress := { p with writer := { p.writer with currentWal := some log' } }
  have hn : p'.Numbered writer submitted := ⟨hi.committed_le, hi.written,
    hi.clock_eq, hi.vclock_eq, hi.nonempty, hi.approx_le⟩
  have hstep : p.flush config faults =
      if toInt rc < 0 then some (false, p') else some (true, p'.commit (toInt rc)) := by
    simp [Progress.flush, hl, hfl, p']
  rw [hstep]
  rcases hc with ⟨rfl, hp, hb⟩ | hc
  · have hlt : p.committed < p.entries.length := by
      by_contra hle
      rw [drop_eq_nil_of_le (by omega)] at hp
      exact hp rfl
    have hs := blocks_setLog [] hl (hb.trans (append_nil _).symm)
    rw [append_nil] at hs
    exact ⟨false, p', rfl, .inl ⟨rfl, ⟨hln, hi.committed_le, writtenEntries_take hi.written _,
      hi.vclock_eq, hi.closed_eq, ⟨log', rfl, hr'⟩, new, hs.trans hnw, hf⟩, hlt⟩⟩
  · -- What was in the buffer is now in the file, if anything was.
    obtain ⟨hrc, more, hb, hm⟩ : ¬ toInt rc < 0 ∧ ∃ more, log'.blocks = log.blocks ++ more ∧
        more.flatten = (p.entries.drop p.committed).map Entry.rows := by
      rcases hc with ⟨rfl, hp, hb⟩ | ⟨rfl, hb⟩
      · exact ⟨by decide, [], hb.trans (append_nil _).symm, hp.symm⟩
      · refine ⟨?_, _, hb, flatten_singleton⟩
        rw [toInt_of_lt (hn.encode_lt hsm (flatten_map_rows _))]
        omega
    have ha : p'.writer.blocks = writer.blocks ++ (new ++ more) := by
      rw [← append_assoc, ← hnw]
      exact blocks_setLog _ hl hb
    have hro : (new ++ more).flatten = p'.entries.map Entry.rows := by
      rw [flatten_append, hf, hm, ← map_append, take_append_drop]
    have hco := Inv.commit hn hi.closed_eq rfl hr' ha hro (toInt rc)
    rw [if_neg hrc]
    exact ⟨true, _, rfl, .inr ⟨rfl, rfl, hco.done rfl⟩⟩

end

structure Writer.Inv (config : Config) (writer : Writer) : Prop where
  closed : ∀ log ∈ writer.closed, log.Inv config.env
  current : ∀ log, writer.currentWal = some log → Ready config.env log []

/-- The entries that a batch may hold: rows of other instances come after what the writer has,
and the LSNs do not run out. -/
structure Batch (config : Config) (writer : Writer) (entries : List Entry) : Prop where
  nonempty : entries ≠ []
  rows : ∀ entry ∈ entries, entry.rows ≠ [] ∧ ∀ row ∈ entry.rows, WellFormed row
  accepts : Accepts config.instanceId writer.vclock (rowsOf entries)
  room : RowRoom writer.vclock (rowsOf entries) (rowsOf entries).length

/-- The outcome of a batch is what is in the file. -/
structure Exact (before : Writer) (entries : List Entry) (outcome : Outcome) (after : Writer) :
    Prop where
  length_eq : outcome.commit.length + outcome.rollback.length = entries.length
  written : WrittenEntries before.vclock (entries.take outcome.commit.length) outcome.commit
  in_file : ∃ new, after.blocks = before.blocks ++ new ∧ new.flatten = outcome.commit.map Entry.rows
  rolled_back : ∀ entry ∈ outcome.rollback,
    entry.res = journalEntryErrIo ∨ entry.res = journalEntryErrCascade
  after_eq : after.vclock = advanceAll before.vclock (rowsOf outcome.commit)
  vclock_eq : outcome.vclock = after.vclock

section

variable {config : Config} {writer : Writer} {entries submitted : List Entry} {p : Progress}
  {faults : Faults} {errCode : Int}

/-- The entries of a batch that are handed back with an error. -/
def rolledBack (entries : List Entry) (committed : Nat) (errCode : Int) : List Entry :=
  (entries.drop committed).map fun entry => { entry with res := errCode }

lemma done_eq {committed : Nat}
    (h : rolledBack entries committed errCode ≠ [] ↔ errCode ≠ journalEntryErrUnknown) :
    writer.done entries committed errCode =
      some (⟨entries.take committed, rolledBack entries committed errCode, writer.vclock⟩,
        { writer with isInRollback :=
            writer.isInRollback || !(rolledBack entries committed errCode).isEmpty }) := by
  rw [rolledBack] at h
  rw [done, assertThat_of h]
  rfl

/-- The entries after the last one in the file are handed back with an error. -/
lemma Progress.Done.done (h : p.Done config writer submitted) (hi : writer.Inv config)
    (her : errCode = journalEntryErrIo ∧ p.committed < p.entries.length ∨ errCode =
      journalEntryErrUnknown ∧ p.committed = p.entries.length) :
    ∃ outcome after, p.writer.done p.entries p.committed errCode = some (outcome, after) ∧
      Exact writer submitted outcome after ∧ after.Inv config := by
  have ha : rolledBack p.entries p.committed errCode ≠ [] ↔ errCode ≠ journalEntryErrUnknown := by
    rcases her with ⟨rfl, hlt⟩ | ⟨rfl, heq⟩
    · simp [rolledBack, journalEntryErrIo, journalEntryErrUnknown, hlt]
    · simp [rolledBack, heq]
  have ht : (p.entries.take p.committed).length = p.committed := length_take_of_le h.committed_le
  refine ⟨_, _, done_eq ha, ⟨?_, ?_, h.blocks, ?_, h.vclock_eq, rfl⟩, ⟨?_, ?_⟩⟩
  · have hle := h.committed_le
    have hln := h.length_eq
    simp only [ht, rolledBack, length_map, length_drop]
    omega
  · simp only [ht]
    exact h.written
  · intro entry he
    obtain ⟨other, ho, rfl⟩ := mem_map.mp he
    rcases her with ⟨rfl, -⟩ | ⟨rfl, heq⟩
    · exact .inl rfl
    · rw [heq, drop_length] at ho
      cases ho
  · intro log hl
    exact hi.closed log (h.closed_eq ▸ hl)
  · intro log hl
    obtain ⟨log', hl', hr⟩ := h.log
    cases hl'.symm.trans hl
    exact hr

lemma Progress.Done.congr (h : p.Done config writer submitted) {writer' : Writer}
    (hv : writer'.vclock = p.writer.vclock) (hc : writer'.closed = p.writer.closed)
    (hl : writer'.currentWal = p.writer.currentWal) :
    ({ p with writer := writer' } : Progress).Done config writer submitted := by
  have hb : writer'.blocks = p.writer.blocks := by
    rw [Writer.blocks, Writer.blocks, hc, hl]
  exact ⟨h.length_eq, h.committed_le, h.written, hv.trans h.vclock_eq,
    hc.trans h.closed_eq, hl ▸ h.log, hb ▸ h.blocks⟩

lemma writeBatch_exact (faults : Faults) (hid : config.instanceId.toNat < vclockMax)
    (hi : writer.Inv config)
    {log : Log} (hl : writer.currentWal = some log) (hb : Batch config writer entries)
    (hsm : Small config.env entries) :
    ∃ outcome after, writer.writeBatch config faults entries = some (outcome, after) ∧
      Exact writer entries outcome after ∧ after.Inv config := by
  have hst : ({ writer := writer } : Progress).Inv config writer [] :=
    ⟨⟨Nat.le_refl 0, trivial, funext fun id => Nat.zero_add _, rfl, by simp, Nat.le_refl 0⟩, rfl,
      ⟨log, hl, hi.current log hl⟩, ⟨[], by simp, rfl⟩⟩
  have hfi : ({ writer := writer } : Progress).Fits config writer entries :=
    ⟨hb.rows, hb.accepts, hb.room⟩
  obtain ⟨written, p, hw, hc⟩ := Inv.writeEntries faults 0 hid hst hfi hsm
  rw [nil_append] at hc
  rcases hc with ⟨rfl, hs⟩ | ⟨rfl, hp⟩
  · obtain ⟨outcome, after, hd, he⟩ := hs.toDone.done hi (.inl ⟨rfl, hs.committed_lt⟩)
    exact ⟨outcome, after, by simp [writeBatch, hw, hd], he⟩
  · obtain ⟨flushed, p', hf, hc⟩ := hp.flush faults hsm
    rcases hc with ⟨rfl, hs⟩ | ⟨rfl, ha, hp'⟩
    · obtain ⟨outcome, after, hd, he⟩ := hs.toDone.done hi (.inl ⟨rfl, hs.committed_lt⟩)
      exact ⟨outcome, after, by simp [writeBatch, hw, hf, hd], he⟩
    · have hn : ({ p' with writer := p'.writer.notifyCheckpoint config faults } :
          Progress).Done config writer entries := by
        refine hp'.congr ?_ ?_ ?_ <;>
          · rw [notifyCheckpoint]
            split <;> rfl
      obtain ⟨outcome, after, hd, he⟩ := hn.done hi (.inr ⟨rfl, ha⟩)
      exact ⟨outcome, after, by simpa [writeBatch, hw, hf] using hd, he⟩

lemma done_all {before : Writer} (hn : entries ≠ [])
    (her : errCode = journalEntryErrIo ∨ errCode = journalEntryErrCascade)
    (hv : writer.vclock = before.vclock) (hb : writer.blocks = before.blocks)
    (hi : writer.Inv config) :
    ∃ outcome after, writer.done entries 0 errCode = some (outcome, after) ∧
      Exact before entries outcome after ∧ after.Inv config := by
  have ha : rolledBack entries 0 errCode ≠ [] ↔ errCode ≠ journalEntryErrUnknown := by
    rcases her with rfl | rfl <;>
      simp [rolledBack, journalEntryErrIo, journalEntryErrCascade, journalEntryErrUnknown, hn]
  refine ⟨_, _, done_eq ha, ⟨?_, trivial, ⟨[], ?_, rfl⟩, ?_, hv, rfl⟩, ⟨hi.closed, hi.current⟩⟩
  · simp [rolledBack]
  · rw [append_nil]
    exact hb
  · intro entry he
    obtain ⟨other, -, rfl⟩ := mem_map.mp he
    exact her

lemma closeFull_spec (hi : writer.Inv config) : (writer.closeFull config).Inv config ∧
      (writer.closeFull config).vclock = writer.vclock ∧
      (writer.closeFull config).blocks = writer.blocks := by
  unfold closeFull
  cases hl : writer.currentWal with
  | none => exact ⟨hi, rfl, rfl⟩
  | some log =>
    dsimp only
    split
    · refine ⟨⟨?_, by simp⟩, rfl, by simp [Writer.blocks, hl]⟩
      intro other ho
      rcases mem_append.mp ho with ho | ho
      · exact hi.closed other ho
      · rw [mem_singleton.mp ho]
        exact (hi.current log hl).inv
    · exact ⟨hi, rfl, rfl⟩

lemma ready_new (env : Env) : Ready env {} [] :=
  ⟨⟨rfl, fun _ => ⟨rfl, rfl⟩, fun _ => rfl, rfl, rfl, by simp, by simp⟩, rfl, rfl⟩

/-- The file may change between two batches; what is in the files does not. -/
lemma optRotate_spec {fails rotated : Bool} {after : Writer} (hi : writer.Inv config)
    (h : writer.optRotate config fails = (rotated, after)) :
    after.Inv config ∧ after.vclock = writer.vclock ∧ after.blocks = writer.blocks ∧
      (rotated = true → ∃ log, after.currentWal = some log) := by
  obtain ⟨hc, hv, hb⟩ := closeFull_spec hi
  unfold optRotate at h
  simp only at h
  split_ifs at h with ho hf
  · cases h
    exact ⟨hc, hv, hb, fun _ => isSome_iff_exists.mp ho⟩
  · cases h
    exact ⟨hc, hv, hb, by simp⟩
  · cases h
    have hn : (writer.closeFull config).currentWal = none := by simpa using ho
    refine ⟨⟨hc.closed, ?_⟩, hv, ?_, fun _ => ⟨{}, rfl⟩⟩
    · intro log hl
      cases hl
      exact ready_new config.env
    · rw [← hb]
      simp [Writer.blocks, hn]

lemma writeToDisk_exact (faults : Faults) (hid : config.instanceId.toNat < vclockMax)
    (hi : writer.Inv config)
    (hb : Batch config writer entries) (hsm : Small config.env entries) :
    ∃ outcome after, writer.writeToDisk config faults entries = some (outcome, after) ∧
      Exact writer entries outcome after ∧ after.Inv config := by
  have hn := hb.nonempty
  cases hr : writer.isInRollback with
  | true =>
    obtain ⟨outcome, after, hd, hs⟩ := done_all hn (.inr rfl) rfl rfl hi
    exact ⟨outcome, after, by simp [writeToDisk, assertThat, hn, hr, hd], hs⟩
  | false =>
    obtain ⟨rotated, writer', hro⟩ : ∃ rotated writer',
        writer.optRotate config faults.rotate = (rotated, writer') := ⟨_, _, rfl⟩
    obtain ⟨hi', hv, hbl, ho⟩ := optRotate_spec hi hro
    by_cases hf : rotated = false ∨ faults.fallocate = true
    · obtain ⟨outcome, after, hd, hs⟩ := done_all hn (.inl rfl) hv hbl hi'
      refine ⟨outcome, after, ?_, hs⟩
      rcases hf with hf | hf <;> simp [writeToDisk, assertThat, hn, hr, hro, hf, hd]
    · obtain ⟨hrt, hfu⟩ : rotated = true ∧ faults.fallocate = false := by
        simpa using hf
      obtain ⟨log, hl⟩ := ho hrt
      have hb' : Batch config writer' entries := ⟨hn, hb.rows, hv ▸ hb.accepts, hv ▸ hb.room⟩
      obtain ⟨outcome, after, hw, he, ha⟩ := writeBatch_exact faults hid hi' hl hb' hsm
      have he' : Exact writer entries outcome after :=
        ⟨he.length_eq, hv ▸ he.written, hbl ▸ he.in_file,
          he.rolled_back, hv ▸ he.after_eq, he.vclock_eq⟩
      refine ⟨outcome, after, ?_, he', ha⟩
      simp [writeToDisk, assertThat, hn, hr, hro, hrt, hfu, hw]

end

structure Record where
  before : Writer
  entries : List Entry
  outcome : Outcome
  after : Writer

structure System where
  writer : Writer
  records : List Record := []

/-- What happens to the writer: a batch, the end of a rollback, and a checkpoint, which closes
the file. -/
inductive Action where
  | write (faults : Faults) (entries : List Entry)
  | completeRollback
  | beginCheckpoint

def Writer.close (writer : Writer) : Writer :=
  { writer with closed := writer.closed ++ writer.currentWal.toList, currentWal := none }

def System.step (config : Config) (s : System) : Action → Option System
  | .write faults entries => (s.writer.writeToDisk config faults entries).map fun done =>
      ⟨done.2, s.records ++ [⟨s.writer, entries, done.1, done.2⟩]⟩
  | .completeRollback => some { s with writer := { s.writer with isInRollback := false } }
  | .beginCheckpoint =>
    if s.writer.isInRollback = true then some s
    else some { s with writer := s.writer.close }

/-- The rows of the committed entries, as they were submitted and as they were written. -/
def Record.rows (r : Record) : List (Header × Header) :=
  (rowsOf (r.entries.take r.outcome.commit.length)).zip (rowsOf r.outcome.commit)

def System.rows (s : System) : List (Header × Header) := s.records.flatMap Record.rows

/-- The batches of the run can be numbered, and their blocks have a size that an `int` holds. -/
def Action.Fits (config : Config) (s : System) : Action → Prop
  | .write _ entries => Batch config s.writer entries ∧ Small config.env entries
  | _ => True

/-- What is in the files is what was committed, in order and numbered one after another. -/
structure System.Inv (config : Config) (start : Clock) (s : System) : Prop where
  writer : s.writer.Inv config
  exact : ∀ r ∈ s.records, Exact r.before r.entries r.outcome r.after
  consecutive : Consecutive start s.rows
  vclock_eq : s.writer.vclock = advanceAll start (s.rows.map Prod.snd)
  file_eq : s.writer.blocks.flatten.flatten = s.rows.map Prod.snd

section

variable {config : Config} {start clock : Clock} {s : System} {entries entries' : List Entry}
  {before after : Writer} {outcome : Outcome}

lemma consecutive_append {rows more : List (Header × Header)} :
    Consecutive clock (rows ++ more) ↔ Consecutive clock rows ∧
      Consecutive (advanceAll clock (rows.map Prod.snd)) more := by
  induction rows generalizing clock with
  | nil => simp [Consecutive, advanceAll]
  | cons pair rows ih =>
    rw [cons_append, Consecutive, Consecutive, ih, and_assoc]
    rfl

lemma WrittenEntries.consecutive (h : WrittenEntries clock entries entries') :
    Consecutive clock ((rowsOf entries).zip (rowsOf entries')) ∧
      (rowsOf entries').length = (rowsOf entries).length := by
  fun_induction WrittenEntries clock entries entries' with
  | case1 => exact ⟨trivial, rfl⟩
  | case2 clock entry entries entry' entries' ih =>
    obtain ⟨he, hr⟩ := h
    obtain ⟨hc, hl⟩ := ih hr
    have hl' : entry.rows.length = entry'.rows.length := he.same.length_eq
    have hs : (entry.rows.zip entry'.rows).map Prod.snd = entry'.rows := map_snd_zip (by omega)
    refine ⟨?_, by rw [rowsOf_cons, rowsOf_cons, length_append, length_append]; omega⟩
    rw [rowsOf_cons, rowsOf_cons, zip_append hl', consecutive_append, hs]
    exact ⟨he.consecutive, hc⟩
  | case3 => exact h.elim

lemma Exact.rows (h : Exact before entries outcome after) :
    Consecutive before.vclock (Record.mk before entries outcome after).rows ∧
      (Record.mk before entries outcome after).rows.map Prod.snd = rowsOf outcome.commit ∧
      after.blocks.flatten.flatten = before.blocks.flatten.flatten ++ rowsOf outcome.commit := by
  obtain ⟨hc, hl⟩ := h.written.consecutive
  obtain ⟨new, hn, hf⟩ := h.in_file
  refine ⟨hc, map_snd_zip hl.le, ?_⟩
  rw [hn, flatten_append, flatten_append, hf, flatten_map_rows]

lemma System.Inv.step {action : Action} (hi : config.instanceId.toNat < vclockMax)
    (hf : action.Fits config s) (h : s.Inv config start) :
    ∃ t, s.step config action = some t ∧ t.Inv config start := by
  cases action with
  | write faults entries =>
    obtain ⟨hba, hs⟩ := hf
    obtain ⟨outcome, after, hw, he, ha⟩ := writeToDisk_exact faults hi h.writer hba hs
    obtain ⟨hc, hro, hb⟩ := he.rows
    have hal : (System.mk after (s.records ++ [⟨s.writer, entries, outcome, after⟩])).rows =
        s.rows ++ (Record.mk s.writer entries outcome after).rows := by
      simp [System.rows]
    refine ⟨_, by rw [System.step, hw]; rfl, ha, ?_, ?_, ?_, ?_⟩
    · intro r hr
      rcases mem_append.mp hr with hr | hr
      · exact h.exact r hr
      · rw [mem_singleton.mp hr]
        exact he
    · rw [hal, consecutive_append, ← h.vclock_eq]
      exact ⟨h.consecutive, hc⟩
    · rw [hal, map_append, advanceAll_append, ← h.vclock_eq, hro]
      exact he.after_eq
    · rw [hal, map_append, ← h.file_eq, hro]
      exact hb
  | completeRollback =>
    exact ⟨_, rfl, ⟨h.writer.closed, h.writer.current⟩, h.exact, h.consecutive, h.vclock_eq,
      h.file_eq⟩
  | beginCheckpoint =>
    rw [System.step]
    split
    · exact ⟨s, rfl, h⟩
    · refine ⟨_, rfl, ⟨?_, by simp [close]⟩, h.exact, h.consecutive, h.vclock_eq, ?_⟩
      · intro log hl
        rcases mem_append.mp hl with hl | hl
        · exact h.writer.closed log hl
        · exact (h.writer.current log (by simpa using hl)).inv
      · have hsa : s.writer.close.blocks = s.writer.blocks := by simp [Writer.blocks, close]
        exact hsa ▸ h.file_eq

/-- In every run of batches whose blocks are small enough, whatever fails, each batch commits
exactly what is in the file. The blocks are written as the buffer holds them (`Env.held`). -/
theorem batches_commit_what_is_written (hid : config.instanceId.toNat < vclockMax)
    {actions : List Action}
    (h : Transition.Along (System.step config) (fun s action => action.Fits config s)
      ⟨{ vclock := start }, []⟩ actions) :
    ∃ t, Transition.run (System.step config) ⟨{ vclock := start }, []⟩ actions = some t ∧
      t.Inv config start :=
  Transition.run_total (fun hf hi => hi.step hid hf) h
    ⟨⟨by simp, by simp⟩, by simp, trivial, rfl, rfl⟩

/-- From the files of every such run the committed rows are read back in order, unless a block is
longer than the reader allows or was not held by its buffer as it was checksummed. -/
theorem committed_rows_read_back (hzstd : config.env.Lossless)
    (hid : config.instanceId.toNat < vclockMax) {actions : List Action}
    (h : Transition.Along (System.step config) (fun s action => action.Fits config s)
      ⟨{ vclock := start }, []⟩ actions) :
    ∃ t, Transition.run (System.step config) ⟨{ vclock := start }, []⟩ actions = some t ∧
      ((∀ txs ∈ t.writer.blocks, config.env.Fits (rowsBytes txs.flatten)) → ∃ read,
        Forall₂ (fun log rows => ∀ force, ∀ calls > rows.length,
            (Cursor.mk [] log.file .active []).readAll config.env force calls =
              some (rows, some .eof)) (t.writer.closed ++ t.writer.currentWal.toList) read ∧
          Forall₂ (fun row row' => row.single.Agrees row' 0) (t.rows.map Prod.snd)
            read.flatten) := by
  obtain ⟨t, hr, hi⟩ := Transition.run_total (P := System.Inv config start)
    (fun hf hi => hi.step hid hf) h ⟨⟨by simp, by simp⟩, by simp, trivial, rfl, rfl⟩
  refine ⟨t, hr, fun hf => ⟨(t.writer.closed ++ t.writer.currentWal.toList).map
    fun log => log.blocks.flatten.flatten.map (Header.readBack · 0), ?_, ?_⟩⟩
  · refine forall₂_map_right_iff.mpr (forall₂_same.mpr fun log hl force calls hc => ?_)
    have hli : log.Inv config.env := by
      rcases mem_append.mp hl with hl | hl
      · exact hi.writer.closed log hl
      · exact (hi.writer.current log (by simpa using hl)).inv
    exact readAll_blocks [] hzstd (fun txs ht => hf txs (mem_flatMap.mpr ⟨log, hl, ht⟩)) hli.stored
      (by simp) (fun _ ha => next_cut ha (.inl rfl)) (by simp)
      ⟨by simp [Cursor.remaining, hli.file_eq], .inr ⟨by simp, rfl⟩⟩ (length_map _ ▸ hc)
  · have he := agrees_map (t.rows.map Prod.snd)
    rw [← hi.file_eq, blocks] at he ⊢
    convert he using 1
    simp [flatMap_def, map_flatten, Function.comp_def, flatten_flatten]

end

def plainConfig : Config := ⟨1, plainEnv, 2 ^ 20, 100, 2 ^ 20⟩

def ownRow : Header := { Header.zero with type := 2, body := [[0x80]] }

def ownEntry : Entry := { rows := [ownRow], flags := 0 }

lemma ownRow_wellFormed : WellFormed ownRow :=
  ⟨by decide, .inl rfl, by decide, .inr ⟨by decide, by decide⟩⟩

lemma batch_ownEntry {writer : Writer} (hc : ∀ id, writer.vclock id + 1 < 2 ^ 63) :
    Batch plainConfig writer [ownEntry] := by
  have hr : rowsOf [ownEntry] = [ownRow] := rfl
  refine ⟨by simp, ?_, ?_, ?_⟩
  · simp [ownEntry, ownRow_wellFormed]
  · rw [hr]
    exact accepts_new (by simp [ownRow, Header.zero])
  · rw [hr]
    exact ⟨hc, by simp [ownRow, Header.zero]⟩

lemma small_ownEntry : Small plainConfig.env [ownEntry] := by
  intro data hd
  have ha : approxLen [ownEntry] = 53 := by decide
  have hp : plainConfig.env.data data = data := by
    simp [Env.data, Env.compresses, plainConfig, plainEnv]
  rw [hp, xlogFixheaderSize]
  omega

/-- A batch is written, and the flush of the next one fails. -/
def ownActions : List Action :=
  [.write {} [ownEntry], .write { flush := .failed [0] } [ownEntry], .completeRollback]

theorem own_batches_commit :
    ∃ t, Transition.run (System.step plainConfig) ⟨{ vclock := .zero }, []⟩ ownActions = some t ∧
      t.Inv plainConfig .zero := by
  refine batches_commit_what_is_written (by decide) ⟨?_, fun t ht => ⟨?_, fun _ _ => ?_⟩⟩
  · exact ⟨batch_ownEntry fun _ => by simp [Clock.zero], small_ownEntry⟩
  · have hc : some t.writer.vclock = some (Clock.zero.merge (Function.update Clock.zero 1 1)) :=
      (congrArg (Option.map fun t : System => t.writer.vclock) ht).symm
    refine ⟨batch_ownEntry fun id => ?_, small_ownEntry⟩
    rw [some.inj hc, Clock.merge, Function.update_apply]
    split <;> simp [Clock.zero]
  · exact ⟨trivial, fun _ _ => trivial⟩

theorem own_rows_read_back : ∃ t, Transition.run (System.step plainConfig)
      ⟨{ vclock := .zero }, []⟩ [.write {} [ownEntry]] = some t ∧ t.rows ≠ [] ∧ ∃ read,
      Forall₂ (fun row row' => row.single.Agrees row' 0) (t.rows.map Prod.snd) read := by
  have hf : Transition.Along (System.step plainConfig) (fun s action => action.Fits plainConfig s)
      ⟨{ vclock := .zero }, []⟩ [.write {} [ownEntry]] :=
    ⟨⟨batch_ownEntry fun _ => by simp [Clock.zero], small_ownEntry⟩, fun _ _ => trivial⟩
  obtain ⟨t, hr, hb⟩ := committed_rows_read_back (fun _ => rfl) (by decide) hf
  obtain ⟨_, -, ha⟩ := hb (by cases hr; decide)
  exact ⟨t, hr, by cases hr; decide, _, ha⟩

def longEntry (size : Nat) : Entry := { rows := [longRow size], flags := 0 }

def longBuffered (size : Nat) : Log where
  isAutocommit := false
  current := [longRow size]
  obuf := some (rowBytes (longRow size))

/-- A long row is written at once; the size is that of the block. -/
lemma xlogWriteEntry_longRow (size : Nat) (hl : xlogTxAutocommitThreshold ≤ size)
    (hlt : size < 2 ^ 32) :
    ∃ log, xlogWriteEntry plainEnv (fun _ => false) .written 0 {} [longRow size] =
      some (((size + 31 : Nat) : Int), log, [longRow size]) ∧
      log.blocks = [[[longRow size]]] := by
  have hle := length_longRow size
  have hr : writeRows plainEnv (fun _ => false) 0 0 ({} : Log).txBegin [longRow size] =
      some (true, longBuffered size, [longRow size]) := by
    have hst : stamp 0 (longRow size) = longRow size := rfl
    have hw : ({} : Log).txBegin.writeRow plainEnv false .written (longRow size) =
        some (((rowBytes (longRow size)).length : Int), longBuffered size) :=
      writeRow_tx _ _ rfl (longRow_wellFormed hlt)
    have hn : ¬ ((rowBytes (longRow size)).length : Int) < 0 := by omega
    simp [writeRows, hst, hw, hn]
  have hb : (plainEnv.blockOf (rowBytes (longRow size))).length = size + 31 := by
    have hp : plainEnv.data (rowBytes (longRow size)) = rowBytes (longRow size) := by
      simp [Env.data, Env.compresses, plainEnv]
    rw [length_blockOf, hp, hle, xlogFixheaderSize]
    omega
  have hs : (longBuffered size).endTx.obufSize = xlogFixheaderSize + (size + 12) := by
    rw [Log.obufSize, Log.endTx, longBuffered]
    simp [hle]
  have hc : ((longBuffered size).txCommit plainEnv .written).1 = ((size + 31 : Nat) : Int) ∧
      ((longBuffered size).txCommit plainEnv .written).2.blocks = [[[longRow size]]] := by
    rw [Log.txCommit, if_pos (by rw [hs]; omega), Log.txWrite, if_neg (by rw [hs]; omega)]
    exact ⟨congrArg Int.ofNat hb, rfl⟩
  refine ⟨((longBuffered size).txCommit plainEnv .written).2, ?_, hc.2⟩
  rw [← hc.1]
  simp [xlogWriteEntry, hr]

lemma writeToDisk_new {clock : Clock} {entries : List Entry} (hn : entries ≠ []) :
    ({ vclock := clock } : Writer).writeToDisk plainConfig {} entries =
      ({ vclock := clock, currentWal := some {} } : Writer).writeBatch plainConfig {} entries := by
  simp [writeToDisk, assertThat, hn, optRotate, closeFull]

/-- The rows of the entry are in the file, and it is rolled back. -/
lemma writeToDisk_longEntry (size : Nat) (hla : 2 ^ 31 ≤ size) (hlt : size < 2 ^ 32 - 31) :
    ∃ outcome after, ({ vclock := .zero } : Writer).writeToDisk plainConfig {} [longEntry size] =
      some (outcome, after) ∧ outcome.commit = [] ∧ after.blocks = [[[longRow size]]] := by
  obtain ⟨log, hw, hb⟩ :=
    xlogWriteEntry_longRow size (by rw [xlogTxAutocommitThreshold]; omega) (by omega)
  obtain ⟨rc, hr, hn⟩ : ∃ rc, toInt ((size + 31 : Nat) : Int) = rc ∧ rc < 0 := by
    refine ⟨_, rfl, ?_⟩
    unfold toInt
    omega
  have ha : walAssignLsn plainConfig.instanceId .zero .zero (longEntry size) =
      some (Function.update Clock.zero 1 5, longEntry size) := rfl
  have hw' : xlogWriteEntry plainConfig.env (fun _ => false) .written 0 {}
      (longEntry size).rows = some (((size + 31 : Nat) : Int), log, [longRow size]) := hw
  let start : Progress := { writer := { vclock := .zero, currentWal := some {} } }
  let p : Progress := start.add log (Function.update Clock.zero 1 5)
    (start.result (Function.update Clock.zero 1 5) (longEntry size) [longRow size])
  have hstep : start.writeEntry plainConfig {} 0 (longEntry size) = some (rc, p) := by
    rw [Progress.writeEntry]
    simp only [start, ha, bind_eq_bind, bind_some]
    rw [hw']
    simp only [bind_some, hr]
    rfl
  have hl : start.writeEntries plainConfig {} 0 [longEntry size] = some (false, p) := by
    simp [writeEntries, hstep, hn]
  have har : rolledBack p.entries p.committed journalEntryErrIo ≠ [] ↔
      journalEntryErrIo ≠ journalEntryErrUnknown := by
    simp [rolledBack, p, start, Progress.add, journalEntryErrIo, journalEntryErrUnknown]
  have hd : ({ vclock := .zero } : Writer).writeToDisk plainConfig {} [longEntry size] =
      p.writer.done p.entries p.committed journalEntryErrIo := by
    have hba : start.writer.writeBatch plainConfig {} [longEntry size] =
        p.writer.done p.entries p.committed journalEntryErrIo := by
      simp only [writeBatch, start, hl]
      rfl
    rw [writeToDisk_new (cons_ne_nil _ _)]
    exact hba
  refine ⟨_, _, hd.trans (done_eq har), rfl, ?_⟩
  simp [Writer.blocks, p, start, Progress.add, hb]

/-- A transaction with a row of 2 GiB is written, and rolled back. -/
theorem huge_entry_rolled_back :
    ∃ outcome after, ({ vclock := .zero } : Writer).writeToDisk plainConfig {}
        [longEntry (2 ^ 31)] = some (outcome, after) ∧
      outcome.commit = [] ∧ after.blocks = [[[longRow (2 ^ 31)]]] ∧
      ¬ Exact { vclock := .zero } [longEntry (2 ^ 31)] outcome after := by
  obtain ⟨outcome, after, hw, hc, hb⟩ := writeToDisk_longEntry (2 ^ 31) (by decide) (by decide)
  refine ⟨outcome, after, hw, hc, hb, fun he => ?_⟩
  obtain ⟨new, hn, hf⟩ := he.in_file
  rw [hc, map_nil] at hf
  have hfi : after.blocks.flatten = [] := by
    rw [hn, flatten_append, hf]
    rfl
  rw [hb, flatten_singleton] at hfi
  cases hfi

end TarantoolStorage.Wal
