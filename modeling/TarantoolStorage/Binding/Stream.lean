import TarantoolStorage.Binding.Iterator

/-!
`StorageIterator.stream` (iterator.dart): the tuples from an offset up to a limit, in portions.
-/
namespace TarantoolStorage.Binding

open MsgPack List

variable {δ γ : Type} {decode : Bytes → Option (δ × Bytes)} {memory : Memory}
  {f : Fiber (Cursor decode)}

/-- How a stream stands: still open after the calls made so far, at its end, or broken off. -/
inductive Ending where
  | running
  | done
  | failed (exception : StorageException)
  deriving DecidableEq

structure Yielded (γ : Type) where
  elements : List γ
  ending : Ending
  deriving DecidableEq

def Yielded.prepend (elements : List γ) (rest : Yielded γ) : Yielded γ :=
  { rest with elements := elements ++ rest.elements }

/-- The options of `stream` besides its functions. The count is passed on as an `int`. -/
structure StreamOptions where
  limit : Option Nat
  offset : Option Nat
  count : Nat
  fits : count < 2 ^ 31

/-- `count` after the first lines of `stream`. -/
def StreamOptions.portion (options : StreamOptions) : Nat :=
  match options.limit with
  | none => options.count
  | some limit => min options.count limit

open StreamOptions

lemma StreamOptions.portion_lt (options : StreamOptions) : options.portion < 2 ^ 31 := by
  refine Nat.lt_of_le_of_lt ?_ options.fits
  unfold portion
  split
  · exact Nat.le_refl _
  · exact Nat.min_le_left _ _

/-- `offset != null && index <= offset`. -/
def StreamOptions.skips (options : StreamOptions) (index : Nat) : Bool :=
  options.offset.any fun offset => index ≤ offset

/-- `limit != null && index > limit`. -/
def StreamOptions.exceeds (options : StreamOptions) (index : Nat) : Bool :=
  options.limit.any fun limit => limit < index

/-- The loop of `stream` without a filter, for so many calls of `next`. -/
def plainLoop (memory : Memory) (map : δ → γ) (options : StreamOptions) :
    Nat → Nat → Fiber (Cursor decode) → Yielded γ
  | 0, _, _ => ⟨[], .running⟩
  | fuel + 1, index, f =>
    match executorNext memory options.portion f with
    | (_, .error exception) => ⟨[], .failed exception⟩
    | (_, .ok none) => ⟨[], .done⟩
    | (f, .ok (some tuples)) =>
      if options.skips index then plainLoop memory map options fuel (index + options.portion) f
      else if options.exceeds index then ⟨[], .done⟩
      else (plainLoop memory map options fuel (index + options.portion) f).prepend (tuples.map map)

/-- `stream` without a filter. -/
def streamPlain (memory : Memory) (map : δ → γ) (options : StreamOptions) (fuel : Nat)
    (f : Fiber (Cursor decode)) : Yielded γ :=
  plainLoop memory map options fuel 0 f

def takeUpTo {α : Type} (limit : Option Nat) (xs : List α) : List α :=
  match limit with
  | none => xs
  | some limit => xs.take limit

def StreamOptions.window {α : Type} (options : StreamOptions) (xs : List α) : List α :=
  takeUpTo options.limit (xs.drop (options.offset.getD 0))

/-- The portions before the first one that is not skipped. -/
def StreamOptions.skipped (options : StreamOptions) : Nat :=
  match options.offset with
  | none => 0
  | some offset => offset / options.portion + 1

/-- The portions up to the last one that does not exceed the limit. -/
def StreamOptions.cutoff (options : StreamOptions) : Option Nat :=
  options.limit.map fun limit => limit / options.portion + 1

variable {options : StreamOptions}

lemma skips_iff (hpos : 0 < options.portion) {i : Nat} :
    options.skips (i * options.portion) = true ↔ i < options.skipped := by
  unfold skips skipped
  cases options.offset with
  | none => simp
  | some offset =>
    simp only [Option.any_some, decide_eq_true_eq]
    rw [Nat.lt_succ_iff, Nat.le_div_iff_mul_le hpos]

lemma exceeds_iff (hpos : 0 < options.portion) {i : Nat} :
    options.exceeds (i * options.portion) = true ↔ ∃ e ∈ options.cutoff, e ≤ i := by
  unfold exceeds cutoff
  cases options.limit with
  | none => simp
  | some limit =>
    simp only [Option.any_some, decide_eq_true_eq, Option.map_some, Option.mem_some_iff,
      exists_eq_left']
    rw [Nat.succ_le_iff, Nat.div_lt_iff_lt_mul hpos]

/-- What the loop yields of the tuples that are left, after a number of portions. -/
def StreamOptions.served {α : Type} (options : StreamOptions) (i : Nat) (xs : List α) : List α :=
  (takeUpTo (options.cutoff.map fun e => (e - i) * options.portion)
    (xs.take (xs.length / options.portion * options.portion))).drop
      ((options.skipped - i) * options.portion)

lemma portions_eq {α : Type} {c : Nat} (hpos : 0 < c) {xs : List α} (hlen : c ≤ xs.length) :
    xs.take (xs.length / c * c) = xs.take c ++ (xs.drop c).take ((xs.drop c).length / c * c) := by
  rw [Nat.div_eq_sub_div hpos hlen, ← length_drop, Nat.add_mul, Nat.one_mul, Nat.add_comm, take_add]

lemma sub_mul_portion {i n c : Nat} (h : i < n) : (n - i) * c = c + (n - (i + 1)) * c := by
  rw [show n - i = n - (i + 1) + 1 by omega, Nat.add_mul, Nat.one_mul, Nat.add_comm]

section Served

variable {α : Type} {options : StreamOptions} {xs : List α} {i : Nat}

lemma served_short (hlen : xs.length < options.portion) : options.served i xs = [] := by
  unfold served takeUpTo
  rw [Nat.div_eq_of_lt hlen]
  cases options.cutoff <;> simp

lemma served_exceeded {e : Nat} (he : options.cutoff = some e) (hl : e ≤ i) :
    options.served i xs = [] := by
  unfold served takeUpTo
  rw [he]
  simp [Nat.sub_eq_zero_of_le hl]

variable (hpos : 0 < options.portion) (hlen : options.portion ≤ xs.length)

include hpos hlen

lemma takeUpTo_portion (hcu : ∀ e ∈ options.cutoff, i < e) :
    takeUpTo (options.cutoff.map fun e => (e - i) * options.portion)
        (xs.take (xs.length / options.portion * options.portion)) =
      xs.take options.portion ++
        takeUpTo (options.cutoff.map fun e => (e - (i + 1)) * options.portion)
          ((xs.drop options.portion).take
            ((xs.drop options.portion).length / options.portion * options.portion)) := by
  rw [portions_eq hpos hlen]
  cases hc : options.cutoff with
  | none => rfl
  | some e =>
    have hs : (e - i) * options.portion =
        (xs.take options.portion).length + (e - (i + 1)) * options.portion := by
      rw [length_take, Nat.min_eq_left hlen, sub_mul_portion (hcu e hc)]
    simp only [Option.map_some, takeUpTo, hs, take_length_add_append]

lemma served_skip (hsk : i < options.skipped) :
    options.served i xs = options.served (i + 1) (xs.drop options.portion) := by
  by_cases hc : ∀ e ∈ options.cutoff, i < e
  · unfold served
    have hs : (options.skipped - i) * options.portion =
        (xs.take options.portion).length + (options.skipped - (i + 1)) * options.portion := by
      rw [length_take, Nat.min_eq_left hlen, sub_mul_portion hsk]
    rw [takeUpTo_portion hpos hlen hc, hs, drop_length_add_append]
  · -- nothing is taken
    simp only [not_forall, Nat.not_lt] at hc
    obtain ⟨e, he, hl⟩ := hc
    rw [served_exceeded he hl, served_exceeded he (Nat.le_succ_of_le hl)]

lemma served_yield (hs : options.skipped ≤ i) (hc : ∀ e ∈ options.cutoff, i < e) :
    options.served i xs =
      xs.take options.portion ++ options.served (i + 1) (xs.drop options.portion) := by
  unfold served
  rw [takeUpTo_portion hpos hlen hc, Nat.sub_eq_zero_of_le hs,
    Nat.sub_eq_zero_of_le (Nat.le_succ_of_le hs)]
  simp

end Served

/-- A call of `next` comes to the end, or takes a portion. -/
lemma next_cases (hm : memory.Sufficient) {options : StreamOptions} (hpos : 0 < options.portion)
    {ts : List (BoxTuple decode)} (hd : f.diag = none) (hb : f.box = ts.map .ok) :
    (ts.length < options.portion ∧ ∃ g, executorNext memory options.portion f = (g, .ok none)) ∨
      options.portion ≤ ts.length ∧
      ts.length / options.portion = (ts.drop options.portion).length / options.portion + 1 ∧
      ∃ g, executorNext memory options.portion f =
          (g, .ok (some ((ts.take options.portion).map BoxTuple.fields))) ∧
        g.diag = none ∧ g.box = (ts.drop options.portion).map .ok := by
  rcases Nat.lt_or_ge ts.length options.portion with hshort | hlen
  · exact .inl ⟨hshort, executorNext_short hm hshort hd hb⟩
  · refine .inr ⟨hlen, ?_, executorNext_full hm options.portion_lt hlen hd hb⟩
    rw [length_drop, Nat.div_eq_sub_div hpos hlen]

lemma plainLoop_eq {memory : Memory} (hm : memory.Sufficient) (map : δ → γ)
    {options : StreamOptions} (hpos : 0 < options.portion) {fuel i : Nat}
    {ts : List (BoxTuple decode)} (hf : ts.length / options.portion < fuel)
    {f : Fiber (Cursor decode)} (hd : f.diag = none) (hb : f.box = ts.map .ok) :
    plainLoop memory map options fuel (i * options.portion) f =
      ⟨(options.served i ts).map fun t => map t.fields, .done⟩ := by
  induction fuel generalizing ts f i with
  | zero => exact absurd hf (Nat.not_lt_zero _)
  | succ fuel ih =>
    rw [plainLoop]
    rcases next_cases hm hpos hd hb with ⟨hshort, g, hn⟩ | ⟨hlen, hq, g, hn, hg, hgb⟩
    · rw [served_short hshort]
      simp [hn]
    · have hr := @ih (i + 1) (ts.drop options.portion) (by omega) g hg hgb
      have hi : i * options.portion + options.portion = (i + 1) * options.portion := by
        rw [Nat.add_mul, Nat.one_mul]
      simp only [hn, hi, hr]
      by_cases hs : i < options.skipped
      · rw [if_pos ((skips_iff hpos).mpr hs), served_skip hpos hlen hs]
      · rw [if_neg fun h => hs ((skips_iff hpos).mp h)]
        by_cases hex : ∃ e ∈ options.cutoff, e ≤ i
        · rw [if_pos ((exceeds_iff hpos).mpr hex)]
          obtain ⟨e, he, hl⟩ := hex
          rw [served_exceeded he hl]
          rfl
        · rw [if_neg fun h => hex ((exceeds_iff hpos).mp h)]
          have hc : ∀ e ∈ options.cutoff, i < e :=
            fun e he => Nat.lt_of_not_le fun hl => hex ⟨e, he, hl⟩
          rw [served_yield hpos hlen (Nat.not_lt.mp hs) hc, map_append]
          simp [Yielded.prepend, Function.comp_def]

lemma plainLoop_empty (hm : memory.Sufficient) (map : δ → γ) (hz : options.portion = 0)
    (fuel : Nat) {ts : List (BoxTuple decode)} (hd : f.diag = none) (hb : f.box = ts.map .ok) :
    (plainLoop memory map options fuel 0 f).ending = .running := by
  induction fuel generalizing f with
  | zero => rfl
  | succ fuel ih =>
    obtain ⟨g, hn, hg, hgb⟩ :=
      executorNext_full hm options.portion_lt (by omega : options.portion ≤ ts.length) hd hb
    have hr := ih hg (by rw [hgb, hz, drop_zero])
    have he : options.exceeds 0 = false := by
      unfold exceeds
      cases options.limit <;> simp
    rw [plainLoop, hn]
    simp only [he, Bool.false_eq_true, if_false, hz, Nat.add_zero]
    split_ifs
    · exact hr
    · exact hr

def decodeUnary : Bytes → Option (Nat × Bytes)
  | 0 :: rest => some (0, rest)
  | 1 :: rest => (decodeUnary rest).map fun (n, rest) => (n + 1, rest)
  | _ => none

def unaryTuple (n : Nat) : BoxTuple decodeUnary where
  data := List.replicate n 1 ++ [0]
  fields := n
  decodes rest := by
    induction n with
    | zero => rfl
    | succ n ih =>
      rw [replicate_succ, cons_append, cons_append, decodeUnary, ih]
      rfl

/-- A fiber with the tuples of these numbers before its cursor. -/
def unaryFiber (ns : List Nat) : Fiber (Cursor decodeUnary) where
  txn := none
  transactionOwner := 0
  diag := none
  box := (ns.map unaryTuple).map .ok

/-- For every sequence of that many tuples and every mapping, the stream ends and has yielded the
images of the elements asked for. -/
def StreamOptions.Exact (options : StreamOptions) (length : Nat) : Prop :=
  ∀ (δ γ : Type) (decode : Bytes → Option (δ × Bytes)) (memory : Memory) (map : δ → γ)
    (ts : List (BoxTuple decode)) (f : Fiber (Cursor decode)), memory.Sufficient →
    ts.length = length → f.diag = none → f.box = ts.map .ok →
    ∃ fuel, streamPlain memory map options fuel f =
      ⟨(options.window ts).map fun t => map t.fields, .done⟩

/-- There is no offset before the end of the sequence; the portions fill it or, when it is longer
than the limit, the limit with less than a portion behind it. -/
def StreamOptions.Aligned (options : StreamOptions) (length : Nat) : Prop :=
  0 < options.portion ∧ match options.offset, options.limit with
    | some offset, _ => length ≤ offset
    | none, none => options.portion ∣ length
    | none, some limit =>
      if length ≤ limit then options.portion ∣ length
      else options.portion ∣ limit ∧ length < limit + options.portion

section Aligned

variable {options : StreamOptions} {α : Type} {xs : List α}

lemma portion_le_limit {limit : Nat} (h : options.limit = some limit) :
    options.portion ≤ limit := by
  unfold portion
  rw [h]
  exact Nat.min_le_right _ _

lemma window_eq_nil (h : xs.length ≤ options.offset.getD 0) : options.window xs = [] := by
  rw [window, drop_eq_nil_of_le h]
  cases options.limit <;> simp [takeUpTo]

lemma served_of_aligned (h : options.Aligned xs.length) :
    options.served 0 xs = options.window xs := by
  obtain ⟨hpos, h⟩ := h
  have hm := Nat.div_mul_le_self xs.length options.portion
  cases ho : options.offset with
  | some offset =>
    rw [ho] at h
    have hb : offset < (offset / options.portion + 1) * options.portion :=
      Nat.lt_mul_of_div_lt (Nat.lt_succ_self _) hpos
    have hs : ∀ limit : Option Nat, ((takeUpTo limit (xs.take
        (xs.length / options.portion * options.portion))).drop
          ((offset / options.portion + 1 - 0) * options.portion)) = [] := by
      intro limit
      refine drop_eq_nil_of_le ?_
      have hle : (takeUpTo limit
          (xs.take (xs.length / options.portion * options.portion))).length ≤ xs.length := by
        cases limit <;> simp [takeUpTo]
      simp only at h
      rw [Nat.sub_zero]
      omega
    rw [window_eq_nil (by simpa [ho] using h), served, skipped, ho, hs]
  | none =>
    rw [ho] at h
    unfold served window skipped cutoff
    rw [ho]
    simp only [Nat.zero_sub, Nat.zero_mul, drop_zero, Option.getD_none]
    cases hl : options.limit with
    | none =>
      rw [hl] at h
      simp only [takeUpTo, Option.map_none]
      rw [Nat.div_mul_cancel h, take_length]
    | some limit =>
      rw [hl] at h
      simp only [takeUpTo, Option.map_some, Nat.sub_zero, take_take]
      have hb : limit < (limit / options.portion + 1) * options.portion :=
        Nat.lt_mul_of_div_lt (Nat.lt_succ_self _) hpos
      have hsa : xs.length / options.portion * options.portion = min limit xs.length := by
        simp only at h
        split_ifs at h with hle
        · rw [Nat.div_mul_cancel h]
          omega
        · obtain ⟨⟨k, rfl⟩, hlt⟩ := h
          have hq : xs.length / options.portion = k := by
            refine Nat.div_eq_of_lt_le ?_ ?_
            · rw [Nat.mul_comm]
              omega
            · rw [Nat.succ_mul, Nat.mul_comm]
              omega
          rw [hq, Nat.mul_comm]
          omega
      rw [Nat.min_eq_right (by omega), hsa, ← take_eq_take_min]

lemma takeUpTo_map {β : Type} (limit : Option Nat) (g : α → β) :
    takeUpTo limit (xs.map g) = (takeUpTo limit xs).map g := by
  cases limit with
  | none => rfl
  | some limit => exact map_take.symm

lemma window_map {β : Type} (g : α → β) :
    options.window (xs.map g) = (options.window xs).map g := by
  unfold window
  rw [← map_drop, takeUpTo_map]

lemma served_map {β : Type} (g : α → β) {i : Nat} :
    options.served i (xs.map g) = (options.served i xs).map g := by
  unfold served
  rw [length_map, ← map_take, takeUpTo_map, map_drop]

lemma takeUpTo_range (limit : Option Nat) (n : Nat) :
    ∃ m ≤ n, takeUpTo limit (List.range n) = List.range m := by
  cases limit with
  | none => exact ⟨n, Nat.le_refl n, rfl⟩
  | some limit => exact ⟨min limit n, Nat.min_le_right _ _, take_range⟩

/-- Of distinct elements, the portions yield those that are asked for only if they are aligned. -/
lemma aligned_of_served {n : Nat} (hpos : 0 < options.portion)
    (h : options.served 0 (List.range n) = options.window (List.range n)) :
    options.Aligned n := by
  refine ⟨hpos, ?_⟩
  unfold served window skipped cutoff at h
  rw [length_range] at h
  cases ho : options.offset with
  | some offset =>
    rw [ho] at h
    show n ≤ offset
    by_contra hlt
    -- the first element asked for is skipped
    have hb : offset < (offset / options.portion + 1) * options.portion :=
      Nat.lt_mul_of_div_lt (Nat.lt_succ_self _) hpos
    have hw : (takeUpTo options.limit ((List.range n).drop offset))[0]? = some offset := by
      cases hli : options.limit with
      | none => simp [takeUpTo, Nat.lt_of_not_le hlt]
      | some limit =>
        have hle := portion_le_limit hli
        simp [takeUpTo, getElem?_take, Nat.lt_of_not_le hlt]
        omega
    rw [Option.getD_some] at h
    rw [← h, take_range, Nat.sub_zero, getElem?_drop] at hw
    obtain ⟨m, -, hm⟩ := takeUpTo_range
      ((options.limit.map fun limit => limit / options.portion + 1).map fun e =>
        (e - 0) * options.portion) (min (n / options.portion * options.portion) n)
    rw [hm] at hw
    obtain ⟨hlt', hg⟩ := List.getElem?_eq_some_iff.mp hw
    rw [getElem_range] at hg
    simp only at hg
    omega
  | none =>
    rw [ho] at h
    have hmu := Nat.div_mul_le_self n options.portion
    have hl := congrArg List.length h
    cases hli : options.limit with
    | none =>
      rw [hli] at hl
      simp [takeUpTo] at hl
      show options.portion ∣ n
      exact ⟨n / options.portion, by rw [Nat.mul_comm]; omega⟩
    | some limit =>
      rw [hli] at hl
      have hb : limit < (limit / options.portion + 1) * options.portion :=
        Nat.lt_mul_of_div_lt (Nat.lt_succ_self _) hpos
      have hb' : n < (n / options.portion + 1) * options.portion :=
        Nat.lt_mul_of_div_lt (Nat.lt_succ_self _) hpos
      rw [Nat.succ_mul] at hb'
      simp [takeUpTo] at hl
      show if n ≤ limit then options.portion ∣ n
        else options.portion ∣ limit ∧ n < limit + options.portion
      split_ifs with hle
      · exact ⟨n / options.portion, by rw [Nat.mul_comm]; omega⟩
      · exact ⟨⟨n / options.portion, by rw [Nat.mul_comm]; omega⟩, by omega⟩

end Aligned

lemma plainLoop_succ {map : δ → γ} {fuel index : Nat}
    (h : (plainLoop memory map options fuel index f).ending = .done) :
    plainLoop memory map options (fuel + 1) index f =
      plainLoop memory map options fuel index f := by
  induction fuel generalizing index f with
  | zero => cases h
  | succ fuel ih =>
    rw [plainLoop] at h
    rw [plainLoop, plainLoop]
    cases hn : executorNext memory options.portion f with
    | mk g result =>
      rw [hn] at h
      match result with
      | .error _ => rfl
      | .ok none => rfl
      | .ok (some tuples) =>
        dsimp only at h ⊢
        split_ifs at h ⊢
        · exact ih h
        · rfl
        · rw [ih h]

lemma add_of_succ {loop : Nat → Nat → Fiber (Cursor decode) → Yielded γ} {fuel index : Nat}
    (h : (loop fuel index f).ending = .done)
    (hs : ∀ fuel, (loop fuel index f).ending = .done →
      loop (fuel + 1) index f = loop fuel index f) (more : Nat) :
    loop (fuel + more) index f = loop fuel index f := by
  induction more with
  | zero => rfl
  | succ more ih => rw [← Nat.add_assoc, hs _ (by rw [ih]; exact h), ih]

theorem stream_plain_iff (options : StreamOptions) (length : Nat) :
    options.Exact length ↔ options.Aligned length := by
  constructor
  · intro hex
    obtain ⟨fuel, hf⟩ := hex Nat Nat decodeUnary ampleMemory id
      ((List.range length).map unaryTuple) (unaryFiber (List.range length))
      ⟨fun _ => rfl, fun _ => rfl⟩ (by simp) rfl rfl
    have hdo : (plainLoop ampleMemory id options fuel 0 (unaryFiber (List.range length))).ending =
        .done := by
      rw [← streamPlain, hf]
    rcases Nat.eq_zero_or_pos options.portion with hz | hpos
    · rw [plainLoop_empty ⟨fun _ => rfl, fun _ => rfl⟩ id hz fuel rfl rfl] at hdo
      cases hdo
    · have hl := @plainLoop_eq _ _ _ ampleMemory ⟨fun _ => rfl, fun _ => rfl⟩ id options hpos
        (fuel + (length / options.portion + 1)) 0 ((List.range length).map unaryTuple)
        (by simp; omega) (unaryFiber (List.range length)) rfl rfl
      rw [Nat.zero_mul, add_of_succ hdo fun _ => plainLoop_succ, ← streamPlain, hf] at hl
      have he := (congrArg Yielded.elements hl).symm
      simp only [served_map, window_map, map_map] at he
      refine aligned_of_served hpos ?_
      simpa [Function.comp_def, unaryTuple] using he
  · intro ha δ γ decode memory map ts f hm hle hd hb
    refine ⟨ts.length / options.portion + 1, ?_⟩
    have hl := plainLoop_eq hm map ha.1 (Nat.lt_succ_self _) hd hb (i := 0)
    rw [Nat.zero_mul] at hl
    rw [streamPlain, hl, served_of_aligned (hle ▸ ha)]

/-- Four tuples one at a time: an offset of one drops two of them, and a limit of two takes three.
With a limit of zero the stream does not end. -/
theorem window_missed :
    streamPlain ampleMemory id ⟨none, some 1, 1, by decide⟩ 5 (unaryFiber [0, 1, 2, 3]) =
        ⟨[2, 3], .done⟩ ∧
      streamPlain ampleMemory id ⟨some 2, none, 1, by decide⟩ 5 (unaryFiber [0, 1, 2, 3]) =
        ⟨[0, 1, 2], .done⟩ ∧
      ∀ fuel, (streamPlain ampleMemory id ⟨some 0, none, 1, by decide⟩ fuel
        (unaryFiber [0, 1, 2, 3])).ending = .running := by
  refine ⟨rfl, rfl, fun fuel => ?_⟩
  exact plainLoop_empty ⟨fun _ => rfl, fun _ => rfl⟩ id rfl fuel rfl rfl

end TarantoolStorage.Binding
