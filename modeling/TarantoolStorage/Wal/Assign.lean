import TarantoolStorage.Xrow.Header

/-! The numbers of a journal entry, after `wal_assign_lsn`. Rows of another instance keep theirs. -/
namespace TarantoolStorage.Wal

open Checked Xrow List Option Function

export Xrow (groupLocal)

abbrev Clock := Nat → Nat

def Clock.zero : Clock := fun _ => 0

/-- `vclock_inc`. -/
def Clock.inc (clock : Clock) (id : Nat) : Option Clock := do
  assertThat (id < vclockMax)
  return update clock id (clock id + 1)

/-- `vclock_follow`. -/
def Clock.follow (clock : Clock) (id lsn : Nat) : Option Clock := do
  assertThat (id < vclockMax)
  assertThat (clock id < lsn)
  return update clock id lsn

/-- `journal_entry`: the rows, the flags of the transaction and the result. -/
structure Entry where
  rows : List Header
  flags : UInt8
  res : Int := -1

/-- What `wal_assign_lsn` keeps between the rows: the clock of the batch, the id of the transaction
once known, and where the first new global row is. -/
structure Numbering where
  diff : Clock
  tsn : Int64
  firstGlobRow : Nat

/-- A new row. `start` is the LSN of the first row, unless this is the first one. -/
def assignNew (instanceId : UInt32) (base : Clock) (start : Option Int64) (i : Nat)
    (s : Numbering) (row : Header) : Option (Header × Numbering) := do
  let replicaId := if row.groupId ≠ groupLocal then instanceId else row.replicaId
  let diff ← s.diff.inc replicaId.toNat
  let lsn := Int64.ofNat (diff replicaId.toNat + base replicaId.toNat)
  let isFirst := row.groupId ≠ groupLocal ∧ s.tsn = 0
  let tsn := if isFirst then lsn else s.tsn
  let firstGlobRow := if isFirst then i else s.firstGlobRow
  return ({ row with
      replicaId := replicaId
      lsn := lsn
      tsn := if tsn = 0 then start.getD lsn else tsn },
    ⟨diff, tsn, firstGlobRow⟩)

/-- A row of another instance: its LSN must be new. -/
def followRow (base : Clock) (s : Numbering) (row : Header) : Option Numbering := do
  let id := row.replicaId.toNat
  let diff : Int := row.lsn.toInt - base id
  assertThat ((s.diff id : Int) < diff)
  let clock ← s.diff.follow id diff.toNat
  return { s with diff := clock }

/-- The metadata of the transaction are kept in its last row. -/
def storeMeta (flags : UInt8) (isLast : Bool) (row : Header) : Header :=
  if isLast then { row with flags := flags ||| iprotoFlagCommit } else row

def assignRow (instanceId : UInt32) (base : Clock) (flags : UInt8) (start : Option Int64)
    (i : Nat) (isLast : Bool) (s : Numbering) (row : Header) : Option (Header × Numbering) :=
  if row.replicaId = 0 then do
    let (row, s) ← assignNew instanceId base start i s row
    return (storeMeta flags isLast row, s)
  else do
    let s ← followRow base s row
    return (row, s)

/-- The loop of `wal_assign_lsn` over the rows still to be numbered. -/
def assignRows (instanceId : UInt32) (base : Clock) (flags : UInt8) :
    Option Int64 → Nat → Numbering → List Header → Option (List Header × Numbering)
  | _, _, s, [] => some ([], s)
  | start, i, s, row :: rows => do
    let (row, s) ← assignRow instanceId base flags start i rows.isEmpty s row
    let (rows, s) ← assignRows instanceId base flags (some (start.getD row.lsn)) (i + 1) s rows
    return (row :: rows, s)

def withTsn (tsn : Int64) (row : Header) : Header := { row with tsn := tsn }

/-- The rows before the first new global one are given its id at the end. -/
def fillTsn (s : Numbering) (rows : List Header) : List Header :=
  (rows.take s.firstGlobRow).map (withTsn s.tsn) ++ rows.drop s.firstGlobRow

def walAssignLsn (instanceId : UInt32) (diff base : Clock) (entry : Entry) :
    Option (Clock × Entry) := do
  let (rows, s) ← assignRows instanceId base entry.flags none 0 ⟨diff, 0, 0⟩ entry.rows
  return (s.diff, { entry with rows := fillTsn s rows })

section

variable {instanceId : UInt32} {base : Clock} {flags : UInt8} {start : Option Int64} {i : Nat}
  {isLast : Bool} {s s' : Numbering} {row row' : Header} {rows out : List Header}

def newId (instanceId : UInt32) (row : Header) : UInt32 :=
  if row.groupId ≠ groupLocal then instanceId else row.replicaId

def newLsn (instanceId : UInt32) (base diff : Clock) (row : Header) : Nat :=
  diff (newId instanceId row).toNat + 1 + base (newId instanceId row).toNat

/-- What is known of a new row once it has its numbers. -/
structure Numbered (instanceId : UInt32) (base : Clock) (start : Option Int64) (i : Nat)
    (s : Numbering) (row : Header) (row' : Header) (s' : Numbering) : Prop where
  id_lt : (newId instanceId row).toNat < vclockMax
  replicaId_eq : row'.replicaId = newId instanceId row
  groupId_eq : row'.groupId = row.groupId
  lsn_eq : row'.lsn = Int64.ofNat (newLsn instanceId base s.diff row)
  diff_eq : s'.diff = update s.diff (newId instanceId row).toNat
    (s.diff (newId instanceId row).toNat + 1)
  opens : row.groupId ≠ groupLocal → s.tsn = 0 → s'.tsn = row'.lsn ∧ s'.firstGlobRow = i
  stays : row.groupId = groupLocal ∨ s.tsn ≠ 0 → s'.tsn = s.tsn ∧ s'.firstGlobRow = s.firstGlobRow
  tsn_eq : row'.tsn = if s'.tsn = 0 then start.getD row'.lsn else s'.tsn

lemma numbered_assignNew (h : assignNew instanceId base start i s row = some (row', s')) :
    Numbered instanceId base start i s row row' s' := by
  obtain ⟨diff, hi, h⟩ := bind_eq_some_iff.mp h
  obtain ⟨hl, hi⟩ := assert_bind_eq_some.mp hi
  cases hi
  cases h
  refine ⟨hl, rfl, rfl, ?_, rfl, ?_, ?_, rfl⟩
  · simp [newLsn, newId]
  · intro hg hz
    exact ⟨if_pos ⟨hg, hz⟩, if_pos ⟨hg, hz⟩⟩
  · intro hs
    have hn : ¬ (row.groupId ≠ groupLocal ∧ s.tsn = 0) := by
      rintro ⟨hg, hz⟩
      exact hs.elim hg fun hne => hne hz
    exact ⟨if_neg hn, if_neg hn⟩

lemma Numbered.storeMeta (h : Numbered instanceId base start i s row row' s') :
    Numbered instanceId base start i s row (storeMeta flags isLast row') s' := by
  cases isLast with
  | true => exact ⟨h.1, h.2, h.3, h.4, h.5, h.6, h.7, h.8⟩
  | false => exact h

/-- The row as the transaction made it, whatever its numbers and its time are. -/
structure SameRow (row row' : Header) : Prop where
  type_eq : row'.type = row.type
  groupId_eq : row'.groupId = row.groupId
  sync_eq : row'.sync = row.sync
  body_eq : row'.body = row.body

lemma sameRow_assignNew (h : assignNew instanceId base start i s row = some (row', s')) :
    SameRow row row' ∧ row'.isCommit = row.isCommit := by
  obtain ⟨diff, -, h⟩ := bind_eq_some_iff.mp h
  cases h
  exact ⟨⟨rfl, rfl, rfl, rfl⟩, rfl⟩

lemma isCommit_storeMeta : (storeMeta flags isLast row).isCommit = (row.isCommit || isLast) := by
  cases isLast with
  | true =>
    simpa [storeMeta, Header.isCommit] using (commit_byte flags).1
  | false => simp [storeMeta]

section

variable (h : assignRow instanceId base flags start i isLast s row = some (row', s'))
include h

lemma exists_assignNew (hn : row.replicaId = 0) :
    ∃ row₁, assignNew instanceId base start i s row = some (row₁, s') ∧
      row' = storeMeta flags isLast row₁ := by
  rw [assignRow, if_pos hn] at h
  obtain ⟨⟨row₁, s₁⟩, ha, h⟩ := bind_eq_some_iff.mp h
  cases h
  exact ⟨row₁, ha, rfl⟩

lemma assignRow_new (hn : row.replicaId = 0) :
    Numbered instanceId base start i s row row' s' := by
  obtain ⟨row₁, ha, rfl⟩ := exists_assignNew h hn
  exact (numbered_assignNew ha).storeMeta

lemma assignRow_old (ho : row.replicaId ≠ 0) :
    row' = row ∧ followRow base s row = some s' := by
  rw [assignRow, if_neg ho] at h
  obtain ⟨s₁, hf, h⟩ := bind_eq_some_iff.mp h
  cases h
  exact ⟨rfl, hf⟩

lemma sameRow_assignRow :
    SameRow row row' := by
  by_cases hn : row.replicaId = 0
  · obtain ⟨row₁, ha, rfl⟩ := exists_assignNew h hn
    obtain ⟨hs, -⟩ := sameRow_assignNew ha
    cases isLast <;> exact ⟨hs.1, hs.2, hs.3, hs.4⟩
  · obtain ⟨rfl, -⟩ := assignRow_old h hn
    exact ⟨rfl, rfl, rfl, rfl⟩

lemma isCommit_assignRow :
    row'.isCommit = (row.isCommit || decide (row.replicaId = 0) && isLast) := by
  by_cases hn : row.replicaId = 0
  · obtain ⟨row₁, ha, rfl⟩ := exists_assignNew h hn
    rw [isCommit_storeMeta, (sameRow_assignNew ha).2, decide_eq_true hn, Bool.true_and]
  · obtain ⟨rfl, -⟩ := assignRow_old h hn
    simp [hn]

end

lemma assignRows_cons
    (h : assignRows instanceId base flags start i s (row :: rows) = some (out, s')) :
    ∃ row' rest s₁, out = row' :: rest ∧
      assignRow instanceId base flags start i rows.isEmpty s row = some (row', s₁) ∧
      assignRows instanceId base flags (some (start.getD row'.lsn)) (i + 1) s₁ rows =
        some (rest, s') := by
  obtain ⟨⟨row', s₁⟩, hro, h⟩ := bind_eq_some_iff.mp h
  obtain ⟨⟨rest, s₂⟩, hr, h⟩ := bind_eq_some_iff.mp h
  cases h
  exact ⟨row', rest, s₁, rfl, hro, hr⟩

lemma wellFormed_of_sameRow (h : WellFormed row) (hs : SameRow row row')
    (hr : row'.replicaId.toNat < vclockMax) : WellFormed row' := by
  refine ⟨hr, ?_, ?_, ?_⟩
  · rw [hs.groupId_eq]
    exact h.group
  · rw [hs.body_eq]
    exact h.iov
  · rw [hs.body_eq, hs.type_eq]
    exact h.body

lemma wellFormed_fillTsn (h : ∀ row ∈ rows, WellFormed row) :
    ∀ row ∈ fillTsn s rows, WellFormed row := by
  intro row hr
  rcases mem_append.mp hr with hr | hr
  · obtain ⟨row, hm, rfl⟩ := mem_map.mp hr
    obtain ⟨h₁, h₂, h₃, h₄⟩ := h row (mem_of_mem_take hm)
    exact ⟨h₁, h₂, h₃, h₄⟩
  · exact h row (mem_of_mem_drop hr)

/-- Only the last row may be marked, and only if it is new. -/
lemma isCommit_assignRows
    (h : assignRows instanceId base flags start i s (rows ++ [row]) = some (out, s')) :
    out.map Header.isCommit =
      rows.map Header.isCommit ++ [row.isCommit || decide (row.replicaId = 0)] := by
  induction rows generalizing start i s out with
  | nil =>
    obtain ⟨row', rest, s₁, rfl, hro, hr⟩ := assignRows_cons h
    cases hr
    simp [isCommit_assignRow hro]
  | cons first rows ih =>
    obtain ⟨row', rest, s₁, rfl, hro, hr⟩ := assignRows_cons h
    have hf : row'.isCommit = first.isCommit := by
      simp [isCommit_assignRow hro]
    rw [map_cons, map_cons, cons_append, ih hr, hf]

section

variable (h : assignRows instanceId base flags start i s rows = some (out, s'))
include h

lemma groupId_assignRows :
    out.map Header.groupId = rows.map Header.groupId := by
  induction rows generalizing start i s out with
  | nil =>
    cases h
    rfl
  | cons row rows ih =>
    obtain ⟨row', rest, s₁, rfl, hro, hr⟩ := assignRows_cons h
    rw [map_cons, map_cons, ih hr, (sameRow_assignRow hro).groupId_eq]

lemma wellFormed_assignRows (hw : ∀ row ∈ rows, WellFormed row) :
    ∀ row ∈ out, WellFormed row := by
  induction rows generalizing start i s out with
  | nil =>
    cases h
    simp
  | cons row rows ih =>
    obtain ⟨hro, hr⟩ := forall_mem_cons.mp hw
    obtain ⟨row', rest, s₁, rfl, ha, hre⟩ := assignRows_cons h
    refine forall_mem_cons.mpr ⟨?_, ih hre hr⟩
    by_cases hne : row.replicaId = 0
    · have hn := assignRow_new ha hne
      refine wellFormed_of_sameRow hro (sameRow_assignRow ha) ?_
      rw [hn.replicaId_eq]
      exact hn.id_lt
    · obtain ⟨rfl, -⟩ := assignRow_old ha hne
      exact hro

lemma assignRows_old (ho : ∀ row ∈ rows, row.replicaId ≠ 0) :
    out = rows ∧ s'.tsn = s.tsn ∧ s'.firstGlobRow = s.firstGlobRow := by
  induction rows generalizing start i s out with
  | nil =>
    cases h
    exact ⟨rfl, rfl, rfl⟩
  | cons row rows ih =>
    obtain ⟨hro, hr⟩ := forall_mem_cons.mp ho
    obtain ⟨row', rest, s₁, rfl, ha, hre⟩ := assignRows_cons h
    obtain ⟨rfl, hf⟩ := assignRow_old ha hro
    obtain ⟨rfl, ht, hg⟩ := ih hre hr
    obtain ⟨-, hf⟩ := assert_bind_eq_some.mp hf
    obtain ⟨clock, -, hf⟩ := bind_eq_some_iff.mp hf
    cases hf
    exact ⟨rfl, ht, hg⟩

lemma assignRows_seen (hne : ∀ row ∈ rows, row.replicaId = 0) (hs : s.tsn ≠ 0) :
    s'.tsn = s.tsn ∧ s'.firstGlobRow = s.firstGlobRow ∧ ∀ row ∈ out, row.tsn = s.tsn := by
  induction rows generalizing start i s out with
  | nil =>
    cases h
    exact ⟨rfl, rfl, by simp⟩
  | cons row rows ih =>
    obtain ⟨hro, hne⟩ := forall_mem_cons.mp hne
    obtain ⟨row', rest, s₁, rfl, ha, hr⟩ := assignRows_cons h
    have hn := assignRow_new ha hro
    obtain ⟨ht, hg⟩ := hn.stays (.inr hs)
    obtain ⟨ht', hg', hal⟩ := ih hr hne (by rw [ht]; exact hs)
    rw [ht] at ht' hal
    refine ⟨ht', hg'.trans hg, forall_mem_cons.mpr ⟨?_, hal⟩⟩
    rw [hn.tsn_eq, ht, if_neg hs]

lemma assignRows_local (hne : ∀ row ∈ rows, row.replicaId = 0)
    (hl : ∀ row ∈ rows, row.groupId = groupLocal) (hs : s.tsn = 0) :
    s'.tsn = 0 ∧ s'.firstGlobRow = s.firstGlobRow ∧
      ∀ row ∈ out, some row.tsn = start.or (out.head?.map Header.lsn) := by
  induction rows generalizing start i s out with
  | nil =>
    cases h
    exact ⟨hs, rfl, by simp⟩
  | cons row rows ih =>
    obtain ⟨hro, hne⟩ := forall_mem_cons.mp hne
    obtain ⟨hgr, hl⟩ := forall_mem_cons.mp hl
    obtain ⟨row', rest, s₁, rfl, ha, hr⟩ := assignRows_cons h
    have hn := assignRow_new ha hro
    obtain ⟨ht, hg⟩ := hn.stays (.inl hgr)
    rw [hs] at ht
    obtain ⟨ht', hg', hal⟩ := ih hr hne hl ht
    have hf : some (start.getD row'.lsn) = start.or (some row'.lsn) := by
      cases start <;> rfl
    refine ⟨ht', hg'.trans hg, forall_mem_cons.mpr ⟨?_, ?_⟩⟩
    · rw [hn.tsn_eq, ht, if_pos rfl]
      exact hf
    · intro other ho
      rw [hal other ho, some_or]
      exact hf

end

def Room (base diff : Clock) (n : Nat) : Prop := ∀ id, diff id + base id + n < 2 ^ 63

lemma Numbered.room {n : Nat} (h : Numbered instanceId base start i s row row' s')
    (hr : Room base s.diff (n + 1)) : Room base s'.diff n := by
  intro id
  have hi := hr id
  rw [h.diff_eq]
  by_cases he : id = (newId instanceId row).toNat
  · rw [he, update_self]
    rw [he] at hi
    omega
  · rw [update_of_ne he]
    omega

lemma int64_ofNat_ne_zero {n : Nat} (hp : 0 < n) (hl : n < 2 ^ 63) : Int64.ofNat n ≠ 0 := by
  intro hz
  have hint := congrArg Int64.toInt hz
  rw [Int64.toInt_ofNat_of_lt hl] at hint
  simp at hint
  omega

lemma Numbered.lsn_ne_zero {n : Nat} (h : Numbered instanceId base start i s row row' s')
    (hr : Room base s.diff (n + 1)) : row'.lsn ≠ 0 := by
  have hi := hr (newId instanceId row).toNat
  rw [h.lsn_eq]
  refine int64_ofNat_ne_zero ?_ ?_ <;> rw [newLsn] <;> omega

lemma assignRows_global (hnw : ∀ row ∈ rows, row.replicaId = 0)
    (hgl : ∃ row ∈ rows, row.groupId ≠ groupLocal) (hs : s.tsn = 0)
    (hr : Room base s.diff rows.length)
    (h : assignRows instanceId base flags start i s rows = some (out, s')) :
    s'.tsn ≠ 0 ∧ ∃ before first after, out = before ++ first :: after ∧
      s'.firstGlobRow = i + before.length ∧ (∀ row ∈ before, row.groupId = groupLocal) ∧
      first.groupId ≠ groupLocal ∧ first.lsn = s'.tsn ∧
      ∀ row ∈ first :: after, row.tsn = s'.tsn := by
  induction rows generalizing start i s out with
  | nil => simp at hgl
  | cons row rows ih =>
    obtain ⟨hro, hnw⟩ := forall_mem_cons.mp hnw
    obtain ⟨row', rest, s₁, rfl, ha, hre⟩ := assignRows_cons h
    have hn := assignRow_new ha hro
    by_cases hg : row.groupId = groupLocal
    · obtain ⟨ht, hgb⟩ := hn.stays (.inl hg)
      have hgl : ∃ row ∈ rows, row.groupId ≠ groupLocal := by
        obtain ⟨other, hm, ho⟩ := hgl
        rcases mem_cons.mp hm with rfl | hm
        · exact absurd hg ho
        · exact ⟨other, hm, ho⟩
      obtain ⟨hne, before, first, after, rfl, hl, hb, hf, hls, hal⟩ :=
        ih hnw hgl (ht.trans hs) (hn.room hr) hre
      refine ⟨hne, row' :: before, first, after, rfl, ?_, ?_, hf, hls, hal⟩
      · rw [hl, length_cons]
        omega
      · exact forall_mem_cons.mpr ⟨hn.groupId_eq.trans hg, hb⟩
    · obtain ⟨ht, hgb⟩ := hn.opens hg hs
      have hne : s₁.tsn ≠ 0 := by
        rw [ht]
        exact hn.lsn_ne_zero hr
      obtain ⟨ht', hgb', hal⟩ := assignRows_seen hre hnw hne
      refine ⟨by rw [ht']; exact hne, [], row', rest, rfl, hgb'.trans hgb, by simp, ?_,
        (ht'.trans ht).symm, ?_⟩
      · rw [hn.groupId_eq]
        exact hg
      · rw [ht']
        refine forall_mem_cons.mpr ⟨?_, hal⟩
        rw [hn.tsn_eq, if_neg hne]

/-- The clock after a row: a new row takes the next number, others bring their own. -/
def nextClock (instanceId : UInt32) (clock : Clock) (row : Header) : Clock :=
  if row.replicaId = 0 then
    update clock (newId instanceId row).toNat (clock (newId instanceId row).toNat + 1)
  else update clock row.replicaId.toNat row.lsn.toInt.toNat

/-- The rows of other instances come after what the clock says. -/
def Accepts (instanceId : UInt32) : Clock → List Header → Prop
  | _, [] => True
  | clock, row :: rows =>
    (row.replicaId ≠ 0 → (clock row.replicaId.toNat : Int) < row.lsn.toInt) ∧
      Accepts instanceId (nextClock instanceId clock row) rows

lemma accepts_append {clock : Clock} {more : List Header} :
    Accepts instanceId clock (rows ++ more) ↔ Accepts instanceId clock rows ∧
      Accepts instanceId (rows.foldl (nextClock instanceId) clock) more := by
  induction rows generalizing clock with
  | nil => simp [Accepts]
  | cons row rows ih => rw [cons_append, Accepts, Accepts, ih, foldl_cons, and_assoc]

lemma accepts_new {clock : Clock} (hn : ∀ row ∈ rows, row.replicaId = 0) :
    Accepts instanceId clock rows := by
  induction rows generalizing clock with
  | nil => trivial
  | cons row rows ih =>
    obtain ⟨hr, hn⟩ := forall_mem_cons.mp hn
    exact ⟨fun ho => absurd hr ho, ih hn⟩

/-- The clock of the batch and the clock it is based on. -/
def Numbering.clock (base : Clock) (s : Numbering) : Clock := fun id => s.diff id + base id

lemma clock_assignRow (h : assignRow instanceId base flags start i isLast s row = some (row', s')) :
    s'.clock base = nextClock instanceId (s.clock base) row := by
  by_cases hne : row.replicaId = 0
  · have hn := assignRow_new h hne
    funext id
    rw [Numbering.clock, nextClock, if_pos hne, hn.diff_eq]
    by_cases he : id = (newId instanceId row).toNat
    · simp only [he, update_self, Numbering.clock]
      omega
    · simp [update_of_ne he, Numbering.clock]
  · obtain ⟨-, hf⟩ := assignRow_old h hne
    obtain ⟨hl, hf⟩ := assert_bind_eq_some.mp hf
    obtain ⟨clock, hc, hf⟩ := bind_eq_some_iff.mp hf
    cases hf
    obtain ⟨-, hc⟩ := assert_bind_eq_some.mp hc
    obtain ⟨-, hc⟩ := assert_bind_eq_some.mp hc
    cases hc
    funext id
    rw [Numbering.clock, nextClock, if_neg hne]
    by_cases he : id = row.replicaId.toNat
    · simp only [he, update_self]
      omega
    · simp [update_of_ne he, Numbering.clock]

lemma clock_assignRows (h : assignRows instanceId base flags start i s rows = some (out, s')) :
    s'.clock base = rows.foldl (nextClock instanceId) (s.clock base) := by
  induction rows generalizing start i s out with
  | nil =>
    cases h
    rfl
  | cons row rows ih =>
    obtain ⟨row', rest, s₁, rfl, hro, hr⟩ := assignRows_cons h
    rw [ih hr, clock_assignRow hro, foldl_cons]

lemma assignRow_isSome (flags : UInt8) (start : Option Int64) (i : Nat) (isLast : Bool)
    (hi : instanceId.toNat < vclockMax)
    (hr : row.replicaId.toNat < vclockMax)
    (h : row.replicaId ≠ 0 → (s.clock base row.replicaId.toNat : Int) < row.lsn.toInt) :
    (assignRow instanceId base flags start i isLast s row).isSome := by
  by_cases hn : row.replicaId = 0
  · have hlt : (newId instanceId row).toNat < vclockMax := by
      unfold newId
      split
      · exact hi
      · exact hr
    rw [assignRow, if_pos hn]
    simp only [assignNew, Clock.inc]
    rw [newId] at hlt
    rw [assertThat_of hlt]
    rfl
  · have hl : ((s.diff row.replicaId.toNat + base row.replicaId.toNat : Nat) : Int) <
        row.lsn.toInt := h hn
    have hd : (s.diff row.replicaId.toNat : Int) <
        row.lsn.toInt - base row.replicaId.toNat := by omega
    have hna : s.diff row.replicaId.toNat <
        (row.lsn.toInt - base row.replicaId.toNat).toNat := by omega
    rw [assignRow, if_neg hn]
    simp only [followRow, Clock.follow, assertThat_of hr, assertThat_of hd, assertThat_of hna]
    rfl

lemma assignRows_isSome (flags : UInt8) (start : Option Int64) (i : Nat) (s : Numbering)
    (hi : instanceId.toNat < vclockMax)
    (hr : ∀ row ∈ rows, row.replicaId.toNat < vclockMax)
    (h : Accepts instanceId (s.clock base) rows) :
    (assignRows instanceId base flags start i s rows).isSome := by
  induction rows generalizing start i s with
  | nil => rfl
  | cons row rows ih =>
    obtain ⟨hro, hr⟩ := forall_mem_cons.mp hr
    obtain ⟨⟨row', s'⟩, ha⟩ := isSome_iff_exists.mp
      (assignRow_isSome flags start i rows.isEmpty hi hro h.1)
    obtain ⟨⟨out, s''⟩, hre⟩ := isSome_iff_exists.mp
      (ih (some (start.getD row'.lsn)) (i + 1) s' hr (clock_assignRow ha ▸ h.2))
    simp [assignRows, ha, hre]

end

end TarantoolStorage.Wal
