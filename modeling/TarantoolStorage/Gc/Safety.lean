import TarantoolStorage.Gc.Order
import TarantoolStorage.Lib.Run

/-! No collection deletes a file with a row that a checkpoint or an active consumer needs. -/
namespace TarantoolStorage.Gc

open Checked SearchTree List Option

/-- The rows of each file are not after the clock of the next one. -/
def Chain (walVclock : Clock) : List File → Prop
  | [] => True
  | file :: rest => file.vclock ≤ floor walVclock rest ∧
    (∀ row ∈ file.rows, row.lsn ≤ floor walVclock rest row.id) ∧ Chain walVclock rest

/-- What a collection deleted was needed neither by the oldest checkpoint nor by a consumer. -/
def Collection.Safe (c : Collection) : Prop :=
  ∀ file ∈ c.deleted, ∀ row ∈ file.rows,
    (∀ checkpoint ∈ c.checkpoints.head?, row.lsn ≤ checkpoint.vclock row.id) ∧
      ∀ consumer ∈ c.consumers, row.id.val ≠ 0 → row.lsn ≤ consumer.vclock row.id

instance (c : Collection) : Decidable c.Safe :=
  inferInstanceAs (Decidable (∀ file ∈ c.deleted, ∀ row ∈ file.rows,
    (∀ checkpoint ∈ c.checkpoints.head?, row.lsn ≤ checkpoint.vclock row.id) ∧
      ∀ consumer ∈ c.consumers, row.id.val ≠ 0 → row.lsn ≤ consumer.vclock row.id))

/-- A consumer has what was in a file, apart from local rows. -/
def Consumer.Has (consumer : Consumer) (file : File) : Prop :=
  ∀ row ∈ file.rows, row.id.val ≠ 0 → row.lsn ≤ consumer.vclock row.id

/-- What the collector is for: once all emergencies are known, a consumer that misses a row that was
deleted is inactive. -/
structure State.Safe (s : State) : Prop where
  collected : ∀ c ∈ s.collected, c.Safe
  lost : s.notices = [] → ∀ consumer ∈ s.consumers, ∀ file ∈ s.lost, consumer.Has file

/-- The directory, and what was deleted from it in an emergency. -/
structure Directory (walVclock : Clock) (files lost : List File) : Prop where
  chain : Chain walVclock files
  lost_le : ∀ file ∈ lost, ∀ row ∈ file.rows, row.lsn ≤ floor walVclock files row.id

/-- Checkpoints are of rows that are in the WAL, and there is always one. -/
structure Kept (walVclock : Clock) (minCount : Nat) (checkpoints : List Checkpoint)
    (progress : Progress) : Prop where
  minCount_pos : 1 ≤ minCount
  nonempty : checkpoints ≠ []
  checkpoints_le : ∀ checkpoint ∈ checkpoints, checkpoint.vclock ≤ walVclock
  progress_le : ∀ vclock, progress = .begun vclock ∨ progress = .committed vclock →
    vclock ≤ walVclock

/-- A collection that is under way does not go beyond what is needed. -/
structure Collecting (vclock : Clock) (checkpoints : List Checkpoint) (consumers : List Consumer) :
    Prop where
  checkpoint : ∀ checkpoint ∈ checkpoints.head?, vclock ≤ checkpoint.vclock
  consumers : ∀ consumer ∈ consumers, ∀ id, id.val ≠ 0 → vclock id ≤ consumer.vclock id

/-- A consumer that misses a row deleted in an emergency will be told of it. -/
structure Missed (lost : List File) (notices : List Notice) (consumers : List Consumer) : Prop where
  length_le : ∀ notice ∈ notices, notice.lost ≤ lost.length
  notices_le : ∀ notice ∈ notices, ∀ file ∈ lost.take notice.lost, ∀ row ∈ file.rows,
    row.lsn ≤ notice.vclock row.id
  told : ∀ consumer ∈ consumers, ∀ (k : Nat) file, lost[k]? = some file →
    (∃ notice ∈ notices, k < notice.lost) ∨ consumer.Has file

structure Inv (s : State) : Prop where
  directory : Directory s.walVclock s.files s.lost
  tree : Tree s.consumers
  kept : Kept s.walVclock s.minCheckpointCount s.checkpoints s.progress
  collecting : ∀ vclock ∈ s.collecting, Collecting vclock s.checkpoints s.consumers
  missed : Missed s.lost s.notices s.consumers
  collected : ∀ c ∈ s.collected, c.Safe

section

variable {s t : State} {a b walVclock walVclock' : Clock} {files files' deleted lost : List File}
  {checkpoints : List Checkpoint} {consumers consumers' : List Consumer} {notices : List Notice}
  {file : File} {row : Row}

lemma floor_le_of_mem (h : Chain walVclock files) (hm : file ∈ files) :
    floor walVclock files ≤ file.vclock := by
  induction files with
  | nil => cases hm
  | cons first rest ih =>
    rcases mem_cons.mp hm with rfl | hm
    · exact le_rfl
    · exact h.1.trans (ih h.2.2 hm)

lemma floor_le (h : Chain walVclock files) : floor walVclock files ≤ walVclock := by
  induction files with
  | nil => exact le_rfl
  | cons first rest ih => exact h.1.trans (ih h.2.2)

/-- The files that are deleted have nothing after the first one that is kept. -/
lemma chain_append (h : Chain walVclock (deleted ++ files)) :
    Chain walVclock files ∧ floor walVclock (deleted ++ files) ≤ floor walVclock files ∧
      ∀ file ∈ deleted, ∀ row ∈ file.rows, row.lsn ≤ floor walVclock files row.id := by
  induction deleted with
  | nil => exact ⟨h, le_rfl, by simp⟩
  | cons first rest ih =>
    obtain ⟨hl, hr, hre⟩ := h
    obtain ⟨hc, hf, hd⟩ := ih hre
    refine ⟨hc, hl.trans hf, forall_mem_cons.mpr ⟨fun row hro => ?_, hd⟩⟩
    exact (hr row hro).trans (hf row.id)

lemma Directory.delete (h : Directory walVclock (deleted ++ files) lost) :
    Directory walVclock files lost := by
  obtain ⟨hc, hf, -⟩ := chain_append h.chain
  exact ⟨hc, fun file hfi row hr => (h.lost_le file hfi row hr).trans (hf row.id)⟩

lemma chain_createFile (h : Chain walVclock files) : Chain walVclock (files ++ [⟨walVclock, []⟩]) ∧
      floor walVclock (files ++ [⟨walVclock, []⟩]) = floor walVclock files := by
  induction files with
  | nil => exact ⟨⟨le_rfl, by simp, trivial⟩, rfl⟩
  | cons first rest ih =>
    obtain ⟨hl, hr, hre⟩ := h
    obtain ⟨hc, hf⟩ := ih hre
    exact ⟨⟨hl.trans hf.ge, fun row hro => (hr row hro).trans (hf.ge row.id), hc⟩, rfl⟩

lemma chain_appendRow (h : Chain walVclock files) (hl : walVclock ≤ walVclock')
    (hrw : row.lsn ≤ walVclock' row.id) (ha : appendRow row files = some files') :
    Chain walVclock' files' ∧ floor walVclock files ≤ floor walVclock' files' := by
  induction files generalizing files' with
  | nil => cases ha
  | cons first rest ih =>
    obtain ⟨hf, hro, hr⟩ := h
    cases rest with
    | nil =>
      cases ha
      refine ⟨⟨hf.trans hl, ?_, trivial⟩, le_rfl⟩
      intro other ho
      rcases mem_append.mp ho with ho | ho
      · exact (hro other ho).trans (hl other.id)
      · rw [mem_singleton.mp ho]
        exact hrw
    | cons next rest =>
      obtain ⟨rest', hr', rfl⟩ := map_eq_some_iff.mp ha
      obtain ⟨hc, hfl⟩ := ih hr hr'
      exact ⟨⟨hf.trans hfl, fun other ho => (hro other ho).trans (hfl other.id), hc⟩, le_rfl⟩

lemma dropCheckpoints_spec {minCount : Nat} (hp : 1 ≤ minCount) (hn : checkpoints ≠ []) :
    dropCheckpoints minCount checkpoints ≠ [] ∧
      ∀ checkpoint ∈ dropCheckpoints minCount checkpoints, checkpoint ∈ checkpoints := by
  induction checkpoints with
  | nil => exact absurd rfl hn
  | cons first rest ih =>
    rw [dropCheckpoints]
    split_ifs with hc
    · exact ⟨by simp, fun _ h => h⟩
    · exact ⟨by simp, fun _ h => h⟩
    · have hr : rest ≠ [] := by
        rintro rfl
        exact hc hp
      obtain ⟨hn', hs⟩ := ih hr
      exact ⟨hn', fun checkpoint h => mem_cons_of_mem _ (hs checkpoint h)⟩

lemma minVclock_le (checkpoint : Checkpoint) (consumers : List Consumer) :
    minVclock checkpoint consumers ≤ checkpoint.vclock ∧ ∀ consumer ∈ consumers, ∀ id, id.val ≠ 0 →
        minVclock checkpoint consumers id ≤ consumer.vclock id := by
  unfold minVclock
  generalize checkpoint.vclock = clock
  induction consumers generalizing clock with
  | nil => exact ⟨le_rfl, by simp⟩
  | cons first rest ih =>
    obtain ⟨hl, hr⟩ := ih (vclockMinIgnore0 clock first.vclock)
    have hc : vclockMinIgnore0 clock first.vclock ≤ clock := by
      intro id
      simp only [vclockMinIgnore0]
      split
      · exact le_rfl
      · exact min_le_left _ _
    refine ⟨hl.trans hc, forall_mem_cons.mpr ⟨fun id hi => ?_, hr⟩⟩
    have hf : vclockMinIgnore0 clock first.vclock id ≤ first.vclock id := by
      rw [vclockMinIgnore0, if_neg hi]
      exact min_le_right _ _
    exact (hl id).trans hf

lemma Missed.mono (h : Missed lost notices consumers)
    (hm : ∀ consumer ∈ consumers', (∀ file ∈ lost, consumer.Has file) ∨ ∃ old ∈ consumers,
      old.vclock ≤ consumer.vclock) : Missed lost notices consumers' := by
  refine ⟨h.length_le, h.notices_le, fun consumer hc k file hf => ?_⟩
  rcases hm consumer hc with hn | ⟨old, ho, hl⟩
  · exact .inr (hn file (mem_of_getElem? hf))
  · refine (h.told old ho k file hf).imp_right fun hh row hr hi => ?_
    exact (hh row hr hi).trans (hl row.id)

lemma Collecting.mono (h : Collecting a checkpoints consumers)
    (hm : ∀ consumer ∈ consumers', (∀ id, id.val ≠ 0 → a id ≤ consumer.vclock id) ∨ ∃ old ∈
      consumers, old.vclock ≤ consumer.vclock) : Collecting a checkpoints consumers' := by
  refine ⟨h.checkpoint, fun consumer hc id hi => ?_⟩
  rcases hm consumer hc with hn | ⟨old, ho, hl⟩
  · exact hn id hi
  · exact (h.consumers old ho id hi).trans (hl id)

end

/-- Consumers have addresses of their own and clocks that grow in every component. The files are
ordered against the clock of a collection, a consumer that registers during one is not behind it,
nor behind a row that was deleted in an emergency, and there is memory for the notice of one. -/
def Action.Fits (s : State) : Action → Prop
  | .register address vclock => (∀ consumer ∈ s.consumers, consumer.address ≠ address) ∧
    (∀ min ∈ s.collecting, ∀ id, id.val ≠ 0 → min id ≤ vclock id) ∧
    ∀ file ∈ s.lost, ∀ row ∈ file.rows, row.id.val ≠ 0 → row.lsn ≤ vclock row.id
  | .advance address vclock => ∀ consumer ∈ s.consumers, consumer.address = address →
    ∀ id, consumer.vclock id ≤ vclock id
  | .collectGarbage _ => ∀ min ∈ s.collecting, ∀ file ∈ s.files,
    vclockCompare min file.vclock ≠ vclockOrderUndefined
  | .emergency _ notified => notified = true
  | _ => True

instance (s : State) : ∀ action : Action, Decidable (action.Fits s)
  | .register address vclock =>
    inferInstanceAs (Decidable ((∀ consumer ∈ s.consumers, consumer.address ≠ address) ∧
      (∀ min ∈ s.collecting, ∀ id : Fin vclockMax, id.val ≠ 0 → min id ≤ vclock id) ∧
      ∀ file ∈ s.lost, ∀ row ∈ file.rows, row.id.val ≠ 0 → row.lsn ≤ vclock row.id))
  | .advance address vclock =>
    inferInstanceAs (Decidable (∀ consumer ∈ s.consumers, consumer.address = address →
      ∀ id, consumer.vclock id ≤ vclock id))
  | .collectGarbage _ =>
    inferInstanceAs (Decidable (∀ min ∈ s.collecting, ∀ file ∈ s.files,
      vclockCompare min file.vclock ≠ vclockOrderUndefined))
  | .emergency _ notified => inferInstanceAs (Decidable (notified = true))
  | .unregister _ | .setMinCheckpointCount _ | .refCheckpoint _ | .unrefCheckpoint _
  | .beginCheckpoint | .commitCheckpoint | .addCheckpoint | .abortCheckpoint | .createFile
  | .closeFile | .writeRow _ | .runCleanup | .notifyGc => isTrue trivial

section

variable {s t : State} {address : Nat} {vclock : Clock}

section

variable (h : Inv s)
include h

lemma Inv.register (hf : (Action.register address vclock).Fits s)
    (hstep : s.register address vclock = some t) : Inv t := by
  obtain ⟨-, hstep⟩ := assert_bind_eq_some.mp hstep
  cases hstep
  refine ⟨h.directory, h.tree.insert hf.1, h.kept, fun min hm => ?_, ?_, h.collected⟩
  · refine (h.collecting min hm).mono fun consumer hc => ?_
    rcases mem_gcTreeInsert.mp hc with rfl | ho
    · exact .inl (hf.2.1 min hm)
    · exact .inr ⟨consumer, ho, le_rfl⟩
  · refine h.missed.mono fun consumer hc => ?_
    rcases mem_gcTreeInsert.mp hc with rfl | ho
    · exact .inl hf.2.2
    · exact .inr ⟨consumer, ho, le_rfl⟩

lemma Inv.remove (p : Consumer → Bool) (inactive : List Consumer) :
    Inv { s with consumers := s.consumers.filter p, inactive := inactive } := by
  refine ⟨h.directory, h.tree.filter p, h.kept, fun min hm => ?_, ?_, h.collected⟩
  · refine (h.collecting min hm).mono fun consumer hc => ?_
    exact .inr ⟨consumer, mem_of_mem_filter hc, le_rfl⟩
  · refine h.missed.mono fun consumer hc => ?_
    exact .inr ⟨consumer, mem_of_mem_filter hc, le_rfl⟩

lemma Inv.unregister (hstep : s.unregister address = some t) : Inv t := by
  unfold State.unregister at hstep
  split at hstep
  · cases hstep
    exact ⟨h.directory, h.tree, h.kept, h.collecting, h.missed, h.collected⟩
  · simp only [gcTreeRemove, assertThat_of h.tree.inOrder, bind_eq_bind, bind_some,
      Option.pure_def, Option.some.injEq] at hstep
    subst hstep
    exact h.remove _ s.inactive

lemma Inv.advance (hfi : (Action.advance address vclock).Fits s)
    (hstep : s.advance address vclock = some t) : Inv t := by
  unfold State.advance at hstep
  split at hstep
  · cases hstep
    exact h
  · obtain ⟨consumer, hf, hstep⟩ := bind_eq_some_iff.mp hstep
    obtain ⟨-, hstep⟩ := assert_bind_eq_some.mp hstep
    have hm := mem_of_find?_eq_some hf
    have ha : consumer.address = address := by simpa using find?_some hf
    have hl := hfi consumer hm ha
    obtain ⟨consumers', had, ht, hc⟩ := h.tree.advance hm hl
    split at hstep
    · cases hstep
      exact h
    · simp only [had, Option.bind_eq_bind, Option.bind_some, Option.pure_def, some.injEq] at hstep
      subst hstep
      refine ⟨h.directory, ht, h.kept, fun min hmi => ?_, ?_, h.collected⟩
      · refine (h.collecting min hmi).mono fun other ho => .inr ?_
        rcases hc other ho with rfl | hol
        · exact ⟨consumer, hm, hl⟩
        · exact ⟨other, hol, le_rfl⟩
      · refine h.missed.mono fun other ho => .inr ?_
        rcases hc other ho with rfl | hol
        · exact ⟨consumer, hm, hl⟩
        · exact ⟨other, hol, le_rfl⟩

/-- The clock that a collection is asked for with is below all that is needed. -/
lemma Inv.runCleanup (hstep : s.runCleanup = some t) : Inv t := by
  obtain ⟨hn, hstep⟩ := assert_bind_eq_some.mp hstep
  obtain ⟨checkpoint, hh, hstep⟩ := bind_eq_some_iff.mp hstep
  obtain ⟨hne, hs⟩ := dropCheckpoints_spec h.kept.minCount_pos h.kept.nonempty
  have hk : Kept s.walVclock s.minCheckpointCount
      (dropCheckpoints s.minCheckpointCount s.checkpoints) s.progress :=
    ⟨h.kept.minCount_pos, hne, fun other ho => h.kept.checkpoints_le other (hs other ho),
      h.kept.progress_le⟩
  obtain ⟨hl, hc⟩ := minVclock_le checkpoint s.consumers
  dsimp only at hstep
  split at hstep
  · cases hstep
    refine ⟨h.directory, h.tree, hk, fun min hm => ?_, h.missed, h.collected⟩
    obtain rfl := some.inj hm
    refine ⟨fun other ho => ?_, hc⟩
    obtain rfl := some.inj (hh.symm.trans ho)
    exact hl
  · cases hstep
    refine ⟨h.directory, h.tree, hk, fun min hm => ?_, h.missed, h.collected⟩
    rw [isNone_iff_eq_none.mp hn] at hm
    cases hm

lemma collected_le {min found : Clock} (hm : s.collecting = some min)
    (hfo : found ∈ s.files.map File.vclock ∧ found ≤ min ∨
      found = min ∧ min.sum ≥ s.walVclock.sum) :
    ∀ file ∈ (xdirCollectGarbage found.sum s.files).1, ∀ row ∈ file.rows, row.lsn ≤ min row.id := by
  have ha : (xdirCollectGarbage found.sum s.files).1 ++
      (xdirCollectGarbage found.sum s.files).2 = s.files := takeWhile_append_dropWhile
  have hch := h.directory.chain
  rw [← ha] at hch
  obtain ⟨hk, -, hd⟩ := chain_append hch
  have hfl : floor s.walVclock (xdirCollectGarbage found.sum s.files).2 ≤ min := by
    rcases hfo with ⟨hme, hle⟩ | ⟨rfl, hs⟩
    · -- the file that was found is not deleted
      obtain ⟨file, hf, rfl⟩ := mem_map.mp hme
      rw [← ha] at hf
      rcases mem_append.mp hf with hf | hf
      · have hl := mem_takeWhile_imp hf
        simp at hl
      · exact (floor_le_of_mem hk hf).trans hle
    · -- all that is in the WAL has been read
      obtain ⟨checkpoint, rest, hcons⟩ := exists_cons_of_ne_nil h.kept.nonempty
      have hc := (h.collecting found hm).checkpoint checkpoint (by rw [hcons]; rfl)
      have hw : found ≤ s.walVclock :=
        hc.trans (h.kept.checkpoints_le checkpoint (by rw [hcons]; simp))
      have he : found = s.walVclock := by
        by_contra hne
        have hl := sum_lt_sum hw hne
        omega
      exact (floor_le hk).trans he.ge
  intro file hf row hr
  exact (hd file hf row hr).trans (hfl row.id)

lemma Inv.collectGarbage {index : BinaryTree Clock}
    (hft : (Action.collectGarbage index).Fits s)
    (hstep : s.collectGarbage index = some t) : Inv t := by
  obtain ⟨hin, hstep⟩ := assert_bind_eq_some.mp hstep
  obtain ⟨min, hm, hstep⟩ := bind_eq_some_iff.mp hstep
  cases hstep
  have hi : ∀ c : Clock, c ∈ (none : Option Clock) → Collecting c s.checkpoints s.consumers := by
    simp
  cases hf : s.collectUpTo index min with
  | none => exact ⟨h.directory, h.tree, h.kept, hi, h.missed, h.collected⟩
  | some found =>
    have hca : found ∈ s.files.map File.vclock ∧ found ≤ min ∨
        found = min ∧ min.sum ≥ s.walVclock.sum := by
      unfold State.collectUpTo at hf
      split at hf
      · rename_i hcl
        obtain rfl := some.inj hf
        exact .inr ⟨rfl, hcl.2⟩
      · rcases psearch_eq_some hf with ⟨hme, hcm⟩ | hno
        · rw [hin] at hme
          obtain ⟨file, hfi, rfl⟩ := mem_map.mp hme
          have ho := hft min hm file hfi
          exact .inl ⟨hme, le_of_vclocksetNodeCompare ho hcm⟩
        · cases hno
    have hde := collected_le h hm hca
    have hn := h.collecting min hm
    have ha : (xdirCollectGarbage found.sum s.files).1 ++
        (xdirCollectGarbage found.sum s.files).2 = s.files := takeWhile_append_dropWhile
    have hd := h.directory
    rw [← ha] at hd
    refine ⟨hd.delete, h.tree, h.kept, hi, h.missed, ?_⟩
    intro c hc
    rcases mem_append.mp hc with hc | hc
    · exact h.collected c hc
    · rw [mem_singleton.mp hc]
      intro file hfi row hr
      have hl := hde file hfi row hr
      exact ⟨fun checkpoint hch => hl.trans (hn.checkpoint checkpoint hch row.id),
        fun consumer hco hid => hl.trans (hn.consumers consumer hco row.id hid)⟩

/-- After an emergency the transaction thread will be told of all that was deleted in one. -/
lemma Inv.emergency {count : Nat} {notified : Bool}
    (hfi : (Action.emergency count notified).Fits s)
    (hstep : s.emergency count notified = some t) : Inv t := by
  obtain ⟨hco, hstep⟩ := assert_bind_eq_some.mp hstep
  obtain ⟨-, hstep⟩ := assert_bind_eq_some.mp hstep
  obtain rfl : notified = true := hfi
  have ha : s.files.take count ++ s.files.drop count = s.files := take_append_drop _ _
  have hd := h.directory
  rw [← ha] at hd
  obtain ⟨-, -, hde⟩ := chain_append hd.chain
  have hke := hd.delete
  have hl : ∀ file ∈ s.lost ++ s.files.take count, ∀ row ∈ file.rows,
      row.lsn ≤ floor s.walVclock (s.files.drop count) row.id := by
    intro file hf
    rcases mem_append.mp hf with hf | hf
    · exact hke.lost_le file hf
    · exact hde file hf
  have hd' : Directory s.walVclock (s.files.drop count) (s.lost ++ s.files.take count) :=
    ⟨hke.chain, hl⟩
  have hm : Missed (s.lost ++ s.files.take count)
      (s.notices ++ [⟨floor s.walVclock (s.files.drop count),
        (s.lost ++ s.files.take count).length⟩]) s.consumers := by
    refine ⟨?_, ?_, ?_⟩
    · intro notice hn
      rcases mem_append.mp hn with ho | hne
      · have hle := h.missed.length_le notice ho
        rw [length_append]
        omega
      · rw [mem_singleton.mp hne]
    · intro notice hn file hf
      rcases mem_append.mp hn with ho | hne
      · rw [take_append_of_le_length (h.missed.length_le notice ho)] at hf
        exact h.missed.notices_le notice ho file hf
      · rw [mem_singleton.mp hne] at hf ⊢
        exact hl file (mem_of_mem_take hf)
    · intro consumer hc k file hf
      refine .inl ⟨_, mem_append_right _ mem_cons_self, ?_⟩
      exact (List.getElem?_eq_some_iff.mp hf).1
  cases hstep
  refine ⟨hd', h.tree, h.kept, h.collecting, ?_, h.collected⟩
  by_cases hz : count = 0
  · subst hz
    simpa using h.missed
  · simpa [Nat.pos_of_ne_zero hz] using hm

/-- A consumer that stays is not behind the oldest row in the directory. -/
lemma Inv.notifyGc (hstep : s.notifyGc = some t) : Inv t := by
  unfold State.notifyGc at hstep
  split at hstep
  · cases hstep
  · rename_i notice rest hn
    cases hstep
    have hr := h.remove (fun consumer =>
      !decide (vclockCompareIgnore0 notice.vclock consumer.vclock > 0)) s.inactive
    have hol : ∀ other ∈ rest, other ∈ s.notices := fun other ho => by
      rw [hn]
      exact mem_cons_of_mem _ ho
    refine ⟨h.directory, hr.tree, h.kept, hr.collecting,
      ⟨fun other ho => h.missed.length_le other (hol other ho),
        fun other ho => h.missed.notices_le other (hol other ho), ?_⟩, h.collected⟩
    · intro consumer hc k file hf
      obtain ⟨hc, hke⟩ := mem_filter.mp hc
      have hle : ∀ id, id.val ≠ 0 → notice.vclock id ≤ consumer.vclock id := by
        refine vclockCompareIgnore0_nonpos.mp ?_
        simpa using hke
      rcases h.missed.told consumer hc k file hf with ⟨other, ho, hl⟩ | hh
      · rw [hn] at ho
        rcases mem_cons.mp ho with rfl | ho
        · refine .inr fun row hro hi => ?_
          have hm : file ∈ s.lost.take other.lost :=
            mem_of_getElem? (by rw [getElem?_take_of_lt hl]; exact hf)
          have hno := h.missed.notices_le other (by rw [hn]; simp) file hm row hro
          exact hno.trans (hle row.id hi)
        · exact .inl ⟨other, ho, hl⟩
      · exact .inr hh

lemma Inv.createFile (hstep : s.createFile = some t) : Inv t := by
  obtain ⟨-, hstep⟩ := assert_bind_eq_some.mp hstep
  obtain ⟨-, hstep⟩ := assert_bind_eq_some.mp hstep
  obtain ⟨hc, hf⟩ := chain_createFile h.directory.chain
  cases hstep
  refine ⟨⟨hc, fun file hfi row hr => ?_⟩, h.tree, h.kept, h.collecting, h.missed, h.collected⟩
  rw [hf]
  exact h.directory.lost_le file hfi row hr

lemma Inv.writeRow {row : Row} (hstep : s.writeRow row = some t) : Inv t := by
  obtain ⟨-, hstep⟩ := assert_bind_eq_some.mp hstep
  obtain ⟨hl, hstep⟩ := assert_bind_eq_some.mp hstep
  obtain ⟨files, ha, hstep⟩ := bind_eq_some_iff.mp hstep
  have hle : s.walVclock ≤ Function.update s.walVclock row.id row.lsn :=
    le_update_self_iff.mpr hl.le
  have hr : row.lsn ≤ Function.update s.walVclock row.id row.lsn row.id := by
    rw [Function.update_self]
  obtain ⟨hc, hf⟩ := chain_appendRow h.directory.chain hle hr ha
  cases hstep
  refine ⟨⟨hc, fun file hfi row hr => ?_⟩, h.tree, ⟨h.kept.minCount_pos, h.kept.nonempty,
    fun checkpoint hm => (h.kept.checkpoints_le checkpoint hm).trans hle,
    fun vclock hp => (h.kept.progress_le vclock hp).trans hle⟩, h.collecting,
    h.missed, h.collected⟩
  exact (h.directory.lost_le file hfi row hr).trans (hf row.id)

end

lemma setRefs_spec (f : Nat → Nat) (i : Nat) (checkpoints : List Checkpoint) :
    (setRefs f i checkpoints).map Checkpoint.vclock = checkpoints.map Checkpoint.vclock := by
  induction checkpoints generalizing i with
  | nil => simp [setRefs]
  | cons first rest ih =>
    cases i with
    | zero => simp [setRefs]
    | succ i => simpa [setRefs] using ih i

lemma Inv.setRefs (h : Inv s) (f : Nat → Nat) (i : Nat) :
    Inv { s with checkpoints := setRefs f i s.checkpoints } := by
  have hm := setRefs_spec f i s.checkpoints
  have hne : Gc.setRefs f i s.checkpoints ≠ [] := by
    intro hn
    rw [hn, map_nil, eq_comm, map_eq_nil_iff] at hm
    exact h.kept.nonempty hm
  refine ⟨h.directory, h.tree, ⟨h.kept.minCount_pos, hne, ?_, h.kept.progress_le⟩, ?_, h.missed,
    h.collected⟩
  · intro checkpoint hme
    have hc := mem_map_of_mem (f := Checkpoint.vclock) hme
    rw [hm] at hc
    obtain ⟨old, ho, he⟩ := mem_map.mp hc
    exact he ▸ h.kept.checkpoints_le old ho
  · intro min hmi
    refine ⟨fun checkpoint hh => ?_, (h.collecting min hmi).consumers⟩
    have hc := congrArg List.head? hm
    rw [head?_map, head?_map, mem_def.mp hh, map_some, eq_comm, map_eq_some_iff] at hc
    obtain ⟨old, ho, he⟩ := hc
    exact he ▸ (h.collecting min hmi).checkpoint old ho

lemma Inv.setProgress (h : Inv s) (isOpen : Bool) (checkpointVclock : Clock) {progress : Progress}
    (hl : ∀ vclock, progress = .begun vclock ∨ progress = .committed vclock →
      vclock ≤ s.walVclock) :
    Inv { s with
      progress := progress, isOpen := isOpen, checkpointVclock := checkpointVclock } :=
  ⟨h.directory, h.tree, ⟨h.kept.minCount_pos, h.kept.nonempty, h.kept.checkpoints_le, hl⟩,
    h.collecting, h.missed, h.collected⟩

lemma Inv.addCheckpoint {checkpoints : List Checkpoint} (h : Inv s)
    (hp : s.progress = .committed vclock)
    (ha : addCheckpoint vclock s.checkpoints = some checkpoints) :
    Inv { s with checkpoints := checkpoints, progress := .idle } := by
  have hi : ∀ clock, (Progress.idle = .begun clock ∨ Progress.idle = .committed clock) →
      clock ≤ s.walVclock := by
    rintro clock (he | he) <;> cases he
  unfold Gc.addCheckpoint at ha
  cases hl : s.checkpoints.getLast? with
  | none => exact absurd (getLast?_eq_none_iff.mp hl) h.kept.nonempty
  | some last =>
    simp only [hl] at ha
    split at ha
    · cases ha
      exact h.setProgress s.isOpen s.checkpointVclock hi
    · obtain ⟨-, ha⟩ := assert_bind_eq_some.mp ha
      cases ha
      refine ⟨h.directory, h.tree, ⟨h.kept.minCount_pos, by simp, ?_, hi⟩, ?_, h.missed,
        h.collected⟩
      · intro checkpoint hm
        rcases mem_append.mp hm with hm | hm
        · exact h.kept.checkpoints_le checkpoint hm
        · rw [mem_singleton.mp hm]
          exact h.kept.progress_le vclock (.inr hp)
      · intro min hmi
        refine ⟨fun checkpoint hh => ?_, (h.collecting min hmi).consumers⟩
        rw [head?_append_of_ne_nil _ h.kept.nonempty] at hh
        exact (h.collecting min hmi).checkpoint checkpoint hh

lemma Inv.step {action : Action} (h : Inv s) (hf : action.Fits s)
    (hstep : step s action = some t) : Inv t := by
  cases action with
  | register address vclock => exact h.register hf hstep
  | unregister address => exact h.unregister hstep
  | advance address vclock => exact h.advance hf hstep
  | setMinCheckpointCount count =>
    obtain ⟨hpo, hstep⟩ := assert_bind_eq_some.mp hstep
    cases hstep
    exact ⟨h.directory, h.tree, ⟨hpo, h.kept.nonempty, h.kept.checkpoints_le, h.kept.progress_le⟩,
      h.collecting, h.missed, h.collected⟩
  | refCheckpoint i =>
    cases hstep
    exact h.setRefs _ i
  | unrefCheckpoint i =>
    cases hstep
    exact h.setRefs _ i
  | beginCheckpoint =>
    simp only [Gc.step, State.beginCheckpoint] at hstep
    split at hstep
    · cases hstep
      refine h.setProgress _ s.checkpointVclock ?_
      rintro vclock (he | he) <;> cases he
      exact le_rfl
    · cases hstep
  | commitCheckpoint =>
    simp only [Gc.step] at hstep
    split at hstep
    · rename_i vclock hp
      cases hstep
      refine h.setProgress s.isOpen _ ?_
      rintro vclock (he | he) <;> cases he
      exact h.kept.progress_le _ (.inl hp)
    · cases hstep
  | addCheckpoint =>
    simp only [Gc.step] at hstep
    split at hstep
    · rename_i vclock hp
      obtain ⟨checkpoints, ha, hstep⟩ := bind_eq_some_iff.mp hstep
      cases hstep
      exact h.addCheckpoint hp ha
    · cases hstep
  | abortCheckpoint =>
    simp only [Gc.step] at hstep
    split at hstep
    · cases hstep
      refine h.setProgress s.isOpen s.checkpointVclock ?_
      rintro vclock (he | he) <;> cases he
    · cases hstep
  | createFile => exact h.createFile hstep
  | closeFile =>
    cases hstep
    exact ⟨h.directory, h.tree, h.kept, h.collecting, h.missed, h.collected⟩
  | writeRow row => exact h.writeRow hstep
  | runCleanup => exact h.runCleanup hstep
  | collectGarbage index => exact h.collectGarbage hf hstep
  | emergency count notified => exact h.emergency hf hstep
  | notifyGc => exact h.notifyGc hstep

lemma Inv.safe (h : Inv s) : s.Safe := by
  refine ⟨h.collected, fun hno consumer hc file hf => ?_⟩
  obtain ⟨k, hk⟩ := mem_iff_getElem?.mp hf
  rcases h.missed.told consumer hc k file hk with ⟨notice, hn, -⟩ | hh
  · rw [hno] at hn
    cases hn
  · exact hh

/-- The state when the collector starts: any directory, any checkpoints. -/
structure State.Initial (s : State) : Prop where
  chain : Chain s.walVclock s.files
  minCount_pos : 1 ≤ s.minCheckpointCount
  nonempty : s.checkpoints ≠ []
  checkpoints_le : ∀ checkpoint ∈ s.checkpoints, checkpoint.vclock ≤ s.walVclock
  consumers_eq : s.consumers = []
  collecting_eq : s.collecting = none
  progress_eq : s.progress = .idle
  notices_eq : s.notices = []
  lost_eq : s.lost = []
  collected_eq : s.collected = []

lemma State.Initial.inv (h : s.Initial) : Inv s := by
  refine ⟨⟨h.chain, ?_⟩, ?_, ⟨h.minCount_pos, h.nonempty, h.checkpoints_le, ?_⟩, ?_,
    ⟨?_, ?_, ?_⟩, ?_⟩
  · simp [h.lost_eq]
  · rw [h.consumers_eq]
    exact ⟨Pairwise.nil, nodup_nil⟩
  · simp [h.progress_eq]
  · simp [h.collecting_eq]
  · simp [h.notices_eq]
  · simp [h.notices_eq]
  · simp [h.consumers_eq]
  · simp [h.collected_eq]

/-- In every run whose collections meet only clocks ordered against theirs, nothing that is needed
is deleted, and no consumer stays active without the rows it needs. -/
theorem collector_keeps_what_is_needed {actions : List Action} (hs : s.Initial)
    (hfits : Transition.Along step (fun s action => action.Fits s) s actions)
    (hrun : Transition.run step s actions = some t) : t.Safe ∧ Tree t.consumers :=
  have hi := Transition.run_invariant_along (P := Inv)
    (fun hstep hfits h => h.step hfits hstep) hrun hfits hs.inv
  ⟨hi.safe, hi.tree⟩

end

def clock (x y : Nat) : Clock := fun id => if id.val = 1 then x else if id.val = 2 then y else 0

def firstId : Fin vclockMax := ⟨1, by decide⟩

def secondId : Fin vclockMax := ⟨2, by decide⟩

def twoWriters : State where
  vclock := clock 0 0
  minCheckpointCount := 1
  checkpoints := [⟨clock 10 10, 0⟩]
  files := [⟨clock 0 0, [⟨firstId, 5⟩, ⟨firstId, 10⟩]⟩, ⟨clock 10 0, [⟨secondId, 10⟩]⟩,
    ⟨clock 10 10, []⟩]
  walVclock := clock 10 10
  isOpen := true
  checkpointVclock := clock 10 10

def twoWritersIndex : BinaryTree Clock :=
  .node (clock 10 0) (.node (clock 0 0) .nil .nil) (.node (clock 10 10) .nil .nil)

/-- A consumer needs rows of instance 1; the file that is found is not ordered against it. -/
theorem unordered_file_deletes_needed_row :
    ∃ t, Transition.run step twoWriters [.register 7 (clock 5 5), .runCleanup,
      .collectGarbage twoWritersIndex] = some t ∧ ¬ t.Safe := by
  refine ⟨_, rfl, fun h => ?_⟩
  exact absurd h.collected (by decide)

lemma clock_le {x y x' y' : Nat} (hx : x ≤ x') (hy : y ≤ y') : clock x y ≤ clock x' y' := by
  intro id
  simp only [clock]
  split_ifs <;> omega

lemma twoWriters_initial : twoWriters.Initial where
  chain := ⟨clock_le (by decide) (by decide), by decide, clock_le (by decide) (by decide),
    by decide, le_rfl, by decide, trivial⟩
  minCount_pos := by decide
  nonempty := by decide
  checkpoints_le := by
    intro checkpoint hm
    rw [mem_singleton.mp hm]
    exact le_rfl
  consumers_eq := rfl
  collecting_eq := rfl
  progress_eq := rfl
  notices_eq := rfl
  lost_eq := rfl
  collected_eq := rfl

/-- A consumer that has followed instance 1 lets its file go, and is too late for the next. -/
def lateConsumer : List Action :=
  [.register 7 (clock 10 5), .runCleanup, .collectGarbage twoWritersIndex, .emergency 1 true,
    .notifyGc]

theorem late_consumer_safe :
    ∃ t, Transition.run step twoWriters lateConsumer = some t ∧ t.Safe ∧ Tree t.consumers := by
  have hf : Transition.Along step (fun s action => action.Fits s) twoWriters lateConsumer := by
    decide
  exact ⟨_, rfl, collector_keeps_what_is_needed twoWriters_initial hf rfl⟩

end TarantoolStorage.Gc
