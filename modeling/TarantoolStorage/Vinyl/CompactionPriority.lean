import Mathlib

/-!
Compaction planning of a range (`vy_range.c`). The double `run_size_ratio` is a rational here.
-/
namespace TarantoolStorage.VyRange

/-- `struct vy_disk_stmt_counter`. -/
structure DiskStmtCounter where
  rows : Nat
  bytes : Nat
  bytesCompressed : Nat
  pages : Nat
  deriving DecidableEq

namespace DiskStmtCounter

def reset : DiskStmtCounter := ⟨0, 0, 0, 0⟩

def add (c d : DiskStmtCounter) : DiskStmtCounter :=
  ⟨c.rows + d.rows, c.bytes + d.bytes, c.bytesCompressed + d.bytesCompressed, c.pages + d.pages⟩

end DiskStmtCounter

open DiskStmtCounter List

/-- A slice of a run: its counters, the size being a non-negative `int64_t`, and `rand()` of the
time it was created. -/
structure Slice where
  count : DiskStmtCounter
  seed : Nat
  bytes_lt : count.bytes < 2 ^ 63

def total (slices : List Slice) : DiskStmtCounter :=
  slices.foldl (fun c s => c.add s.count) reset

/-- The options of the index, with the assertions the function starts with. -/
structure IndexOpts where
  runCountPerLevel : Nat
  runSizeRatio : ℚ
  count_pos : 0 < runCountPerLevel
  one_lt_ratio : 1 < runSizeRatio

/-- A range: its slices, newest first, and `count`, which `vy_range_add_slice` and
`vy_range_remove_slice` keep equal to the sum over them. -/
structure Range where
  slices : List Slice
  count : DiskStmtCounter
  needsCompaction : Bool
  compactionPriority : Nat
  compactionQueue : DiskStmtCounter
  count_eq : count = total slices

variable {opts : IndexOpts} {range : Range} {s : Slice} {slices done : List Slice}
  {size est fuel k t t' c c' : Nat}

/-- The macro `DIV_ROUND_UP` with a fractional divisor, assigned to a `uint64_t`. -/
def divRoundUp (n : Nat) (d : ℚ) : Nat := ⌊(n + d - 1) / d⌋₊

lemma divRoundUp_lt {n : Nat} {d : ℚ} (hd : 1 < d) (h : 1 < divRoundUp n d) :
    divRoundUp n d < n := by
  by_contra hn
  have hq : (divRoundUp n d : ℚ) ≤ (n + d - 1) / d :=
    Nat.floor_le (div_nonneg (by have := n.cast_nonneg (α := ℚ); linarith) (by linarith))
  rw [le_div_iff₀ (by linarith)] at hq
  have h1 : (1 : ℚ) < divRoundUp n d := by exact_mod_cast h
  have hl : (n : ℚ) ≤ divRoundUp n d := by exact_mod_cast not_lt.mp hn
  have := mul_pos (sub_pos.mpr h1) (sub_pos.mpr hd)
  linarith

/-- The `do … while` loop: the oldest size is divided until it is not above the newest one. -/
def firstLevel (opts : IndexOpts) (newest size : Nat) : Nat :=
  if divRoundUp size opts.runSizeRatio > max newest 1 then
    firstLevel opts newest (divRoundUp size opts.runSizeRatio)
  else size
termination_by size
decreasing_by exact divRoundUp_lt opts.one_lt_ratio (by omega)

lemma firstLevel_le (newest size : Nat) : firstLevel opts newest size ≤ size := by
  fun_induction firstLevel opts newest size with
  | case1 size h ih => exact ih.trans (divRoundUp_lt opts.one_lt_ratio (by omega)).le
  | case2 size h => exact le_rfl

/-- `target_run_size *= opts->run_size_ratio`. The conversion of a product that does not fit
`uint64_t` is undefined. -/
def nextLevel (opts : IndexOpts) (target : Nat) : Option Nat :=
  let product := ⌊target * opts.runSizeRatio⌋₊
  if product < 2 ^ 64 then some product else none

lemma nextLevel_eq (h : ⌊t * opts.runSizeRatio⌋₊ < 2 ^ 64) :
    nextLevel opts t = some ⌊t * opts.runSizeRatio⌋₊ :=
  if_pos h

/-- The inner loop of one slice: the target size and the number of runs of the level the slice is
pushed down to. -/
def pushDown (opts : IndexOpts) (size est : Nat) : Nat → Nat → Nat → Option (Nat × Nat)
  | 0, _, _ => none
  | fuel + 1, target, levelRunCount =>
    if size > target then
      match nextLevel opts target with
      | none => none
      | some next => pushDown opts size est fuel next (if est > target then 2 else 1)
    else some (target, levelRunCount)

structure Plan where
  targetRunSize : Nat
  totalStmtCount : DiskStmtCounter
  totalRunCount : Nat
  estNewRunSize : Nat
  levelRunCount : Nat
  compactionPriority : Nat
  compactionQueue : DiskStmtCounter

def randMax : Nat := 2147483647

/-- `max_run_count`, a `uint32_t`. -/
def maxRunCount (opts : IndexOpts) (slice : Slice) : Nat :=
  let count := opts.runCountPerLevel % 2 ^ 32
  if slice.seed < randMax / 10 then (count + 1) % 2 ^ 32 else count

def Plan.compactAll (plan : Plan) : Plan :=
  { plan with compactionPriority := plan.totalRunCount, compactionQueue := plan.totalStmtCount }

def planSlice (opts : IndexOpts) (fuel : Nat) (plan : Plan) (slice : Slice) : Option Plan :=
  match pushDown opts slice.count.bytes plan.estNewRunSize fuel plan.targetRunSize
      (plan.levelRunCount + 1) with
  | none => none
  | some (target, level) =>
    let plan := { plan with
      targetRunSize := target
      levelRunCount := level
      totalRunCount := plan.totalRunCount + 1
      totalStmtCount := plan.totalStmtCount.add slice.count }
    some <| if level > maxRunCount opts slice then
      { plan.compactAll with estNewRunSize := plan.totalStmtCount.bytes }
    else plan

def planSlices (opts : IndexOpts) (fuel : Nat) : Plan → List Slice → Option Plan
  | plan, [] => some plan
  | plan, slice :: slices =>
    match planSlice opts fuel plan slice with
    | none => none
    | some plan => planSlices opts fuel plan slices

def Range.firstTarget (range : Range) (opts : IndexOpts) : Nat :=
  let bytes (s : Option Slice) := (s.map (·.count.bytes)).getD 0
  firstLevel opts (bytes range.slices.head?) (max (bytes range.slices.getLast?) 1)

/-- `vy_range_update_compaction_priority`, where the inner loop may take `fuel` turns. -/
def Range.updateCompactionPriority (opts : IndexOpts) (fuel : Nat) (range : Range) : Option Range :=
  if range.slices.length ≤ 1 then
    some { range with
      compactionPriority := 0, compactionQueue := reset, needsCompaction := false }
  else if range.needsCompaction then
    some { range with
      compactionPriority := range.slices.length, compactionQueue := range.count }
  else
    match planSlices opts fuel ⟨range.firstTarget opts, reset, 0, 0, 0, 0, reset⟩ range.slices with
    | none => none
    | some plan =>
      let plan := if plan.levelRunCount > 1 then plan.compactAll else plan
      some { range with
        compactionPriority := plan.compactionPriority
        compactionQueue := plan.compactionQueue }

/-- The sizes of the levels: each is the truncated product of the previous one and `run_size_ratio`.
-/
def levelSize (opts : IndexOpts) (first k : Nat) : Nat :=
  (fun t : Nat => ⌊t * opts.runSizeRatio⌋₊)^[k] first

lemma levelSize_succ : levelSize opts t (k + 1) = levelSize opts ⌊t * opts.runSizeRatio⌋₊ k := rfl

lemma levelSize_levelSize {j : Nat} :
    levelSize opts (levelSize opts t k) j = levelSize opts t (j + k) :=
  (Function.iterate_add_apply _ j k t).symm

lemma le_levelSize : t ≤ levelSize opts t k := by
  induction k generalizing t with
  | zero => exact le_rfl
  | succ k ih =>
    refine le_trans (Nat.le_floor ?_) ih
    exact le_mul_of_one_le_right t.cast_nonneg opts.one_lt_ratio.le

/-- A large enough level below `2 ^ 64` stops the inner loop at that level or before. -/
lemma pushDown_isSome (est c : Nat) (hs : size ≤ levelSize opts t k)
    (hk : levelSize opts t k < 2 ^ 64) (hf : k < fuel) :
    ∃ j ≤ k, ∃ c', pushDown opts size est fuel t c = some (levelSize opts t j, c') := by
  induction fuel generalizing k t c with
  | zero => omega
  | succ fuel ih =>
    by_cases h : size > t
    · obtain _ | k := k
      · exact absurd hs (not_le.mpr h)
      rw [levelSize_succ] at hs hk
      obtain ⟨j, hj, c', he⟩ := ih (if est > t then 2 else 1) hs hk (by omega)
      refine ⟨j + 1, by omega, c', ?_⟩
      rw [pushDown, if_pos h, nextLevel_eq (le_levelSize.trans_lt hk)]
      exact he
    · exact ⟨0, k.zero_le, c, if_neg h⟩

/-- When the inner loop ends, it ends at a level below `2 ^ 64` that the slice fits. -/
lemma pushDown_eq (h : pushDown opts size est fuel t c = some (t', c')) (ht : t < 2 ^ 64) :
    size ≤ t' ∧ t' < 2 ^ 64 ∧ ∃ j, t' = levelSize opts t j := by
  induction fuel generalizing t c with
  | zero => cases h
  | succ fuel ih =>
    rw [pushDown] at h
    split at h
    · by_cases hp : ⌊t * opts.runSizeRatio⌋₊ < 2 ^ 64
      · rw [nextLevel_eq hp] at h
        obtain ⟨hs, hl, j, hj⟩ := ih h hp
        exact ⟨hs, hl, j + 1, hj⟩
      · rw [nextLevel, if_neg hp] at h
        cases h
    · cases h
      exact ⟨by omega, ht, 0, rfl⟩

/-- What the loop knows after the slices `done`: the totals over them, and a scheduled compaction
that is one of their prefixes. -/
structure Plan.Covers (plan : Plan) (done : List Slice) : Prop where
  runs : plan.totalRunCount = done.length
  stmts : plan.totalStmtCount = total done
  le : plan.compactionPriority ≤ done.length
  queue : plan.compactionQueue = total (done.take plan.compactionPriority)

lemma covers_nil : Plan.Covers ⟨t, reset, 0, 0, 0, 0, reset⟩ [] := ⟨rfl, rfl, le_rfl, rfl⟩

lemma Plan.Covers.compactAll {plan : Plan} (h : plan.Covers done) : plan.compactAll.Covers done :=
  ⟨h.runs, h.stmts, h.runs.le, by
    simp [Plan.compactAll, h.runs, h.stmts]⟩

lemma planSlice_eq {plan next : Plan} (hc : plan.Covers done)
    (h : planSlice opts fuel plan s = some next) :
    (∃ c', pushDown opts s.count.bytes plan.estNewRunSize fuel plan.targetRunSize
      (plan.levelRunCount + 1) = some (next.targetRunSize, c')) ∧ next.Covers (done ++ [s]) := by
  rw [planSlice] at h
  split at h
  case h_1 => cases h
  case h_2 target level hp =>
    have hl := hc.le
    have hn : Plan.Covers ⟨target, plan.totalStmtCount.add s.count, plan.totalRunCount + 1,
        plan.estNewRunSize, level, plan.compactionPriority, plan.compactionQueue⟩
        (done ++ [s]) := by
      refine ⟨by simp [hc.runs], by simp [hc.stmts, total], by simp; omega, ?_⟩
      simp [take_append_of_le_length hl, hc.queue]
    cases h
    split
    · obtain ⟨h1, h2, h3, h4⟩ := hn.compactAll
      exact ⟨⟨level, hp⟩, h1, h2, h3, h4⟩
    · exact ⟨⟨level, hp⟩, hn⟩

/-- When the loop ends, what it has scheduled is a prefix of the slices, and every slice fits the
level reached. -/
lemma planSlices_eq {plan next : Plan} (h : planSlices opts fuel plan slices = some next)
    (hc : plan.Covers done) (ht : plan.targetRunSize < 2 ^ 64) :
    next.Covers (done ++ slices) ∧ ∃ j, levelSize opts plan.targetRunSize j < 2 ^ 64 ∧
      ∀ s ∈ slices, s.count.bytes ≤ levelSize opts plan.targetRunSize j := by
  induction slices generalizing plan done with
  | nil => cases h; exact ⟨by rwa [append_nil], 0, ht, by simp⟩
  | cons s slices ih =>
    rw [planSlices] at h
    split at h
    case h_1 => cases h
    case h_2 mid hm =>
      obtain ⟨⟨c', hp⟩, hmc⟩ := planSlice_eq hc hm
      obtain ⟨hs, hl, i, hi⟩ := pushDown_eq hp ht
      obtain ⟨hnc, j, hj, hle⟩ := ih h hmc hl
      rw [hi, levelSize_levelSize] at hj hle
      refine ⟨by rwa [append_assoc] at hnc, j + i, hj, forall_mem_cons.mpr ⟨?_, hle⟩⟩
      rw [← levelSize_levelSize, ← hi]
      exact hs.trans le_levelSize

/-- The loop ends when all slices fit one level below `2 ^ 64`. -/
lemma planSlices_isSome (plan : Plan) (hf : k < fuel)
    (hk : levelSize opts plan.targetRunSize k < 2 ^ 64)
    (hs : ∀ s ∈ slices, s.count.bytes ≤ levelSize opts plan.targetRunSize k) :
    ∃ next, planSlices opts fuel plan slices = some next := by
  induction slices generalizing plan k with
  | nil => exact ⟨plan, rfl⟩
  | cons s slices ih =>
    obtain ⟨j, hj, c', hp⟩ := pushDown_isSome plan.estNewRunSize (plan.levelRunCount + 1)
      (hs s (by simp)) hk hf
    obtain ⟨mid, hm, ht⟩ : ∃ mid, planSlice opts fuel plan s = some mid ∧
        mid.targetRunSize = levelSize opts plan.targetRunSize j := by
      refine ⟨_, by rw [planSlice, hp], ?_⟩
      dsimp only
      split <;> rfl
    have ha : levelSize opts mid.targetRunSize (k - j) = levelSize opts plan.targetRunSize k := by
      rw [ht, levelSize_levelSize, Nat.sub_add_cancel hj]
    obtain ⟨next, hn⟩ := ih (k := k - j) mid (by omega) (ha ▸ hk)
      fun s hm => ha ▸ hs s (mem_cons_of_mem _ hm)
    exact ⟨next, by rw [planSlices, hm]; exact hn⟩

/-- The function returns, and what it schedules is a prefix of the slices with its total size. -/
def Range.Planned (range : Range) (opts : IndexOpts) : Prop :=
  ∃ fuel next, range.updateCompactionPriority opts fuel = some next ∧
    next.compactionPriority ≤ range.slices.length ∧
    next.compactionQueue = total (range.slices.take next.compactionPriority)

/-- A level below `2 ^ 64` is as large as every slice, where there are levels to compute. -/
def Range.Levelled (range : Range) (opts : IndexOpts) : Prop :=
  1 < range.slices.length → range.needsCompaction = false →
    ∃ k, levelSize opts (range.firstTarget opts) k < 2 ^ 64 ∧
      ∀ s ∈ range.slices, s.count.bytes ≤ levelSize opts (range.firstTarget opts) k

lemma Range.firstTarget_lt : range.firstTarget opts < 2 ^ 64 := by
  refine (firstLevel_le _ _).trans_lt ?_
  cases h : range.slices.getLast? with
  | none => simp
  | some s =>
    have := s.bytes_lt
    simp only [Option.map_some, Option.getD_some]
    omega

/-- Planning ends with a prefix of the slices exactly when some level holds every slice. -/
theorem planned_iff_levelled (range : Range) (opts : IndexOpts) :
    range.Planned opts ↔ range.Levelled opts := by
  constructor
  · rintro ⟨fuel, next, h, -, -⟩ hl hn
    rw [Range.updateCompactionPriority, if_neg (by omega), hn, if_neg (by simp)] at h
    split at h
    case h_1 => cases h
    case h_2 plan hp => exact (planSlices_eq hp covers_nil Range.firstTarget_lt).2
  · intro h
    by_cases hl : range.slices.length ≤ 1
    · exact ⟨0, _, if_pos hl, Nat.zero_le _, rfl⟩
    by_cases hn : range.needsCompaction
    · refine ⟨0, _, by rw [Range.updateCompactionPriority, if_neg hl, if_pos hn], le_rfl, ?_⟩
      rw [take_length]
      exact range.count_eq
    obtain ⟨k, hk, hs⟩ := h (by omega) (by simpa using hn)
    obtain ⟨plan, hp⟩ := planSlices_isSome
      ⟨range.firstTarget opts, reset, 0, 0, 0, 0, reset⟩ k.lt_succ_self hk hs
    obtain ⟨hc, -⟩ := planSlices_eq hp covers_nil Range.firstTarget_lt
    refine ⟨k + 1, _, by rw [Range.updateCompactionPriority, if_neg hl, if_neg hn, hp], ?_⟩
    dsimp only
    split
    · exact ⟨hc.compactAll.le, hc.compactAll.queue⟩
    · exact ⟨hc.le, hc.queue⟩

/-- A slice above a level that the truncated product does not leave keeps the loop running. -/
lemma pushDown_stuck (hs : t < size) (ht : ⌊t * opts.runSizeRatio⌋₊ = t) :
    pushDown opts size est fuel t c = none := by
  induction fuel generalizing c with
  | zero => rfl
  | succ fuel ih =>
    rw [pushDown, if_pos hs, nextLevel, ht]
    by_cases hl : t < 2 ^ 64
    · rw [if_pos hl]
      exact ih
    · rw [if_neg hl]

/-- With the ratio 1.5, a slice of two bytes over one of a single byte: the level of one byte is
followed by itself. -/
theorem not_planned_of_small_ratio :
    let opts : IndexOpts := ⟨2, 3 / 2, by decide, by norm_num⟩
    let slices : List Slice := [⟨⟨1, 2, 2, 1⟩, 0, by decide⟩, ⟨⟨1, 1, 1, 1⟩, 0, by decide⟩]
    ∀ fuel, Range.updateCompactionPriority opts fuel
      ⟨slices, total slices, false, 0, reset, rfl⟩ = none := by
  intro opts slices fuel
  have hd : divRoundUp 1 opts.runSizeRatio = 1 := by norm_num [divRoundUp, opts]
  have hp : ⌊((1 : Nat) : ℚ) * opts.runSizeRatio⌋₊ = 1 := by
    rw [Nat.floor_eq_iff (by norm_num [opts])]
    norm_num [opts]
  have hf : firstLevel opts 2 1 = 1 := by rw [firstLevel, hd, if_neg (by decide)]
  have hr : Range.firstTarget ⟨slices, total slices, false, 0, reset, rfl⟩ opts = 1 := hf
  have hs : planSlices opts fuel ⟨1, reset, 0, 0, 0, 0, reset⟩ slices = none := by
    rw [planSlices, planSlice, pushDown_stuck (by decide) hp]
  rw [Range.updateCompactionPriority, if_neg (by simp [slices]), if_neg (by decide), hr, hs]

end TarantoolStorage.VyRange
