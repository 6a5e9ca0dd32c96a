import TarantoolStorage.Binding.Stream

/-! `StorageIterator.stream` with a filter. -/
namespace TarantoolStorage.Binding

open MsgPack List StreamOptions

variable {δ γ α : Type} {decode : Bytes → Option (δ × Bytes)} {options : StreamOptions}
  {memory : Memory} {f : Fiber (Cursor decode)}

/-- The loop of `stream` with a filter. A portion with a tuple that passes the filter is yielded as
a whole, and another one left out. -/
def filteredLoop (memory : Memory) (filter : δ → Bool) (map : δ → γ) (options : StreamOptions) :
    Nat → Nat → Fiber (Cursor decode) → Yielded γ
  | 0, _, _ => ⟨[], .running⟩
  | fuel + 1, index, f =>
    match executorNext memory options.portion f with
    | (_, .error exception) => ⟨[], .failed exception⟩
    | (_, .ok none) => ⟨[], .done⟩
    | (f, .ok (some tuples)) =>
      if options.skips index then
        filteredLoop memory filter map options fuel (index + options.portion) f
      else if (tuples.filter filter).isEmpty then
        filteredLoop memory filter map options fuel index f
      else if options.exceeds index then ⟨[], .done⟩
      else
        (filteredLoop memory filter map options fuel (index + (tuples.filter filter).length)
          f).prepend (tuples.map map)

/-- `stream` with a filter. -/
def streamFiltered (memory : Memory) (filter : δ → Bool) (map : δ → γ) (options : StreamOptions)
    (fuel : Nat) (f : Fiber (Cursor decode)) : Yielded γ :=
  filteredLoop memory filter map options fuel 0 f

section Portions

variable {c : Nat} {xs : List α}

def portions (c : Nat) (xs : List α) : List (List α) :=
  (range (xs.length / c)).map fun k => (xs.drop (k * c)).take c

lemma portions_cons (hpos : 0 < c) (hl : c ≤ xs.length) :
    portions c xs = xs.take c :: portions c (xs.drop c) := by
  unfold portions
  rw [Nat.div_eq_sub_div hpos hl, ← length_drop, range_succ_eq_map, map_cons,
    Nat.zero_mul, drop_zero, map_map]
  congr 1
  refine map_congr_left fun k _ => ?_
  simp [Nat.succ_mul, Nat.add_comm]

lemma portions_short (hl : xs.length < c) : portions c xs = [] := by
  unfold portions
  rw [Nat.div_eq_of_lt hl]
  rfl

lemma portions_induction {motive : List α → Prop} (hpos : 0 < c)
    (hshort : ∀ xs : List α, xs.length < c → motive xs)
    (hcons : ∀ xs : List α, c ≤ xs.length → motive (xs.drop c) → motive xs) (xs : List α) :
    motive xs := by
  induction hn : xs.length using Nat.strong_induction_on generalizing xs with
  | _ n ih =>
    rcases Nat.lt_or_ge xs.length c with hl | hl
    · exact hshort xs hl
    · refine hcons xs hl (ih (xs.drop c).length ?_ _ rfl)
      rw [length_drop]
      omega

lemma portions_flatten (hpos : 0 < c) (xs : List α) :
    (portions c xs).flatten ++ xs.drop (xs.length / c * c) = xs := by
  induction xs using portions_induction hpos with
  | hshort xs hl =>
    rw [portions_short hl, Nat.div_eq_of_lt hl]
    simp
  | hcons xs hl ih =>
    have hq : xs.length / c * c = c + (xs.drop c).length / c * c := by
      rw [Nat.div_eq_sub_div hpos hl, ← length_drop, Nat.add_mul, Nat.one_mul, Nat.add_comm]
    rw [portions_cons hpos hl, flatten_cons, hq, ← drop_drop, append_assoc, ih, take_append_drop]

lemma length_of_mem_portions (hpos : 0 < c) {portion : List α} :
    portion ∈ portions c xs → portion.length = c := by
  induction xs using portions_induction hpos with
  | hshort xs hl =>
    rw [portions_short hl]
    intro h
    cases h
  | hcons xs hl ih =>
    rw [portions_cons hpos hl]
    intro h
    rcases mem_cons.mp h with rfl | h
    · rw [length_take, Nat.min_eq_left hl]
    · exact ih h

lemma portions_map {β : Type} (g : α → β) : portions c (xs.map g) =
    (portions c xs).map (List.map g) := by
  unfold portions
  rw [length_map, map_map]
  refine map_congr_left fun k _ => ?_
  simp

end Portions

section Rounds

variable (p : α → Bool) (options : StreamOptions)

/-- The tuples of the portions that are served, from an index on. -/
def rounds : Nat → List (List α) → List α
  | _, [] => []
  | index, portion :: rest =>
    if (portion.filter p).isEmpty then rounds index rest
    else if options.exceeds index then []
    else portion ++ rounds (index + (portion.filter p).length) rest

end Rounds

lemma skips_mono {i j : Nat} (hl : i ≤ j) (h : options.skips i = false) :
    options.skips j = false := by
  unfold skips at h ⊢
  cases ho : options.offset with
  | none => rfl
  | some offset =>
    rw [ho] at h
    simp only [Option.any_some, decide_eq_false_iff_not] at h ⊢
    omega

section Loop

variable {memory : Memory} (hm : memory.Sufficient) (filter : δ → Bool) (map : δ → γ)
  {options : StreamOptions} (hpos : 0 < options.portion)

include hm hpos

lemma filteredLoop_rounds {fuel index : Nat} {ts : List (BoxTuple decode)}
    (hfu : ts.length / options.portion < fuel) (hd : f.diag = none) (hb : f.box = ts.map .ok)
    (hs : options.skips index = false) :
    filteredLoop memory filter map options fuel index f =
      ⟨(rounds (fun t => filter t.fields) options index (portions options.portion ts)).map
        fun t => map t.fields, .done⟩ := by
  induction fuel generalizing ts f index with
  | zero => exact absurd hfu (Nat.not_lt_zero _)
  | succ fuel ih =>
    rw [filteredLoop]
    rcases next_cases hm hpos hd hb with ⟨hshort, g, hn⟩ | ⟨hl, hq, g, hn, hg, hgb⟩
    · rw [portions_short hshort]
      simp [hn, rounds]
    · have hr := fun index hs => @ih g index (ts.drop options.portion) (by omega) hg hgb hs
      have hf : ((ts.take options.portion).map BoxTuple.fields).filter filter =
          ((ts.take options.portion).filter fun t => filter t.fields).map BoxTuple.fields := by
        rw [filter_map]
        rfl
      rw [portions_cons hpos hl, rounds]
      simp only [hn, hs, Bool.false_eq_true, if_false, hf, isEmpty_map, length_map]
      split_ifs
      · exact hr index hs
      · rfl
      · rw [hr _ (skips_mono (Nat.le_add_right _ _) hs), map_append]
        simp [Yielded.prepend, Function.comp_def]

lemma filteredLoop_eq {fuel i : Nat} {ts : List (BoxTuple decode)}
    (hf : ts.length / options.portion < fuel) {f : Fiber (Cursor decode)} (hd : f.diag = none)
    (hb : f.box = ts.map .ok) (hi : i ≤ options.skipped) :
    filteredLoop memory filter map options fuel (i * options.portion) f =
      ⟨(rounds (fun t => filter t.fields) options (options.skipped * options.portion)
        (portions options.portion (ts.drop ((options.skipped - i) * options.portion)))).map
        fun t => map t.fields, .done⟩ := by
  induction fuel generalizing ts f i with
  | zero => exact absurd hf (Nat.not_lt_zero _)
  | succ fuel ih =>
    rcases Nat.lt_or_eq_of_le hi with hlt | rfl
    · rw [filteredLoop]
      rcases next_cases hm hpos hd hb with ⟨hshort, g, hn⟩ | ⟨hl, hq, g, hn, hg, hgb⟩
      · have hdr : ts.drop ((options.skipped - i) * options.portion) = [] := by
          refine drop_eq_nil_of_le ?_
          rw [sub_mul_portion hlt]
          omega
        rw [hdr, portions_short (by simpa using hpos)]
        simp [hn, rounds]
      · have hr := @ih (i + 1) (ts.drop options.portion) (by omega) g hg hgb hlt
        have hin : i * options.portion + options.portion = (i + 1) * options.portion := by
          rw [Nat.add_mul, Nat.one_mul]
        simp [hn, (skips_iff hpos).mpr hlt, hin, hr, sub_mul_portion hlt]
    · rw [Nat.sub_self, Nat.zero_mul, drop_zero]
      refine filteredLoop_rounds hm filter map hpos hf hd hb ?_
      exact Bool.eq_false_iff.mpr fun h => Nat.lt_irrefl _ ((skips_iff hpos).mp h)

end Loop

section Select

variable (options : StreamOptions) (p : α → Bool) (xs : List α)

def matching (chunks : List (List α)) : List (List α) := chunks.filter fun chunk => chunk.any p

/-- The portions behind the skipped ones that hold a match, as many as the limit admits if all of
their tuples match. -/
def StreamOptions.servable : List (List α) :=
  takeUpTo (options.cutoff.map fun e => e - options.skipped)
    (matching p (portions options.portion (xs.drop (options.skipped * options.portion))))

def StreamOptions.yields : List α :=
  rounds p options (options.skipped * options.portion)
    (portions options.portion (xs.drop (options.skipped * options.portion)))

/-- There are no more matches than the offset and no portion to serve; or the skipped portions hold
as many matches as the offset, and those to serve the matches asked for only. -/
def StreamOptions.Selects : Prop :=
  0 < options.portion ∧ (xs.countP p ≤ options.offset.getD 0 ∧ options.servable p xs = [] ∨
      options.offset.getD 0 < xs.countP p ∧
        (xs.take (options.skipped * options.portion)).countP p = options.offset.getD 0 ∧
        (∀ portion ∈ options.servable p xs, portion.all p = true) ∧
        (options.servable p xs).length * options.portion =
          (takeUpTo options.limit (range (xs.countP p - options.offset.getD 0))).length)

end Select

lemma matching_cons {p : α → Bool} (chunk : List α) (chunks : List (List α)) :
    matching p (chunk :: chunks) =
      if chunk.any p then chunk :: matching p chunks else matching p chunks :=
  filter_cons

lemma filter_isEmpty {p : α → Bool} {chunk : List α} :
    (chunk.filter p).isEmpty = true ↔ ¬ chunk.any p = true := by
  rw [List.isEmpty_iff, List.filter_eq_nil_iff, List.any_eq_true]
  simp

lemma isPrefix_takeUpTo (limit : Option Nat) (l : List α) : takeUpTo limit l <+: l := by
  cases limit with
  | none => exact prefix_rfl
  | some limit => exact take_prefix limit l

section Rounds

variable {p : α → Bool} {options : StreamOptions} (hpos : 0 < options.portion)
  {chunks : List (List α)}

include hpos

lemma takeUpTo_cons (i : Nat) (chunk : List α) (rest : List (List α)) :
    takeUpTo (options.cutoff.map fun e => e - i) (chunk :: rest) =
      if options.exceeds (i * options.portion) then []
      else chunk :: takeUpTo (options.cutoff.map fun e => e - (i + 1)) rest := by
  simp only [exceeds_iff hpos]
  cases options.cutoff with
  | none => simp [takeUpTo]
  | some e =>
    by_cases hl : e ≤ i
    · simp [takeUpTo, hl]
    · have hs : e - i = e - (i + 1) + 1 := by omega
      simp [takeUpTo, hl, hs]

section

variable (hl : ∀ chunk ∈ chunks, chunk.length = options.portion)
include hl

/-- If all that is yielded or all that is to be served matches, the index counts the portions, and
the two are the same. -/
lemma rounds_full {i : Nat}
    (h : (∀ x ∈ rounds p options (i * options.portion) chunks, p x = true) ∨
      ∀ chunk ∈ takeUpTo (options.cutoff.map fun e => e - i) (matching p chunks),
        chunk.all p = true) :
    (∀ chunk ∈ takeUpTo (options.cutoff.map fun e => e - i) (matching p chunks),
        chunk.all p = true) ∧
      rounds p options (i * options.portion) chunks =
        (takeUpTo (options.cutoff.map fun e => e - i) (matching p chunks)).flatten := by
  induction chunks generalizing i with
  | nil => cases options.cutoff <;> simp [rounds, takeUpTo, matching]
  | cons chunk chunks ih =>
    have hr := fun other ho => hl other (mem_cons_of_mem chunk ho)
    rw [rounds, matching_cons] at h ⊢
    by_cases ha : chunk.any p = true
    · rw [if_pos ha, takeUpTo_cons hpos, if_neg fun h => filter_isEmpty.mp h ha] at h ⊢
      by_cases he : options.exceeds (i * options.portion) = true
      · simp [he]
      · rw [if_neg he, if_neg he] at h ⊢
        have hal : ∀ x ∈ chunk, p x = true := by
          rcases h with h | h
          · exact fun x hx => h x (mem_append_left _ hx)
          · exact all_eq_true.mp (h chunk mem_cons_self)
        have hi : i * options.portion + (chunk.filter p).length = (i + 1) * options.portion := by
          rw [filter_eq_self.mpr hal, hl chunk mem_cons_self, Nat.succ_mul]
        rw [hi] at h ⊢
        obtain ⟨hf, he⟩ := ih hr (h.imp (fun h x hx => h x (mem_append_right _ hx))
          fun h other ho => h other (mem_cons_of_mem chunk ho))
        exact ⟨forall_mem_cons.mpr ⟨all_eq_true.mpr hal, hf⟩, by rw [he]; rfl⟩
    · rw [if_neg ha, if_pos (filter_isEmpty.mpr ha)] at h ⊢
      exact ih hr h

lemma servable_eq_nil {i : Nat} (hn : rounds p options (i * options.portion) chunks = []) :
    takeUpTo (options.cutoff.map fun e => e - i) (matching p chunks) = [] := by
  have hm : ∀ x ∈ rounds p options (i * options.portion) chunks, p x = true := by simp [hn]
  have he := (rounds_full hpos hl (.inl hm)).2
  rw [hn] at he
  refine eq_nil_iff_forall_not_mem.mpr fun chunk hc => ?_
  -- a portion with a match is not empty
  have ha := (mem_filter.mp ((isPrefix_takeUpTo _ _).subset hc)).2
  rw [flatten_eq_nil_iff.mp he.symm chunk hc] at ha
  cases ha

end

end Rounds

section Filtered

variable {p : α → Bool} {options : StreamOptions} {xs : List α}

lemma filter_flatten (chunks : List (List α)) :
    chunks.flatten.filter p = ((matching p chunks).map (filter p)).flatten := by
  induction chunks with
  | nil => rfl
  | cons chunk chunks ih =>
    rw [flatten_cons, filter_append, ih, matching_cons]
    by_cases ha : chunk.any p = true
    · rw [if_pos ha]
      rfl
    · rw [if_neg ha, isEmpty_iff.mp (filter_isEmpty.mpr ha), nil_append]

lemma filter_split (hpos : 0 < options.portion)
    (hf : ∀ portion ∈ options.servable p xs, portion.all p = true) :
    ∃ rest, xs.filter p = (xs.take (options.skipped * options.portion)).filter p ++
      ((options.servable p xs).flatten ++ rest) := by
  conv => enter [1, rest, 1]; rw [← take_append_drop (options.skipped * options.portion) xs,
    filter_append]
  simp only [append_cancel_left_eq]
  unfold servable at hf ⊢
  generalize hb : xs.drop (options.skipped * options.portion) = body at hf ⊢
  obtain ⟨others, ho⟩ := isPrefix_takeUpTo (options.cutoff.map fun e => e - options.skipped)
    (matching p (portions options.portion body))
  generalize takeUpTo (options.cutoff.map fun e => e - options.skipped)
    (matching p (portions options.portion body)) = served at hf ho ⊢
  have hs : served.map (filter p) = served := by
    refine (map_congr_left fun portion hp => ?_).trans (map_id served)
    exact filter_eq_self.mpr (all_eq_true.mp (hf portion hp))
  refine ⟨(others.map (filter p)).flatten ++
    (body.drop (body.length / options.portion * options.portion)).filter p, ?_⟩
  conv_lhs => rw [← portions_flatten hpos body]
  rw [filter_append, filter_flatten, ← ho, map_append, flatten_append, hs, append_assoc]

lemma length_of_mem_servable (hpos : 0 < options.portion) {portion : List α}
    (h : portion ∈ options.servable p xs) : portion.length = options.portion := by
  exact length_of_mem_portions hpos (mem_of_mem_filter ((isPrefix_takeUpTo _ _).subset h))

lemma length_servable (hpos : 0 < options.portion) : (options.servable p xs).flatten.length =
      (options.servable p xs).length * options.portion := by
  rw [length_flatten]
  have hl : (options.servable p xs).map length =
      replicate (options.servable p xs).length options.portion := by
    refine eq_replicate_iff.mpr ⟨length_map _, fun n hn => ?_⟩
    obtain ⟨portion, hp, rfl⟩ := mem_map.mp hn
    exact length_of_mem_servable hpos hp
  rw [hl, sum_replicate_nat]

lemma takeUpTo_left {limit : Option Nat} {l rest : List α}
    (h : l.length = (takeUpTo limit (range (l ++ rest).length)).length) :
    takeUpTo limit (l ++ rest) = l := by
  cases limit with
  | none =>
    simp only [takeUpTo, length_range, length_append] at h
    obtain rfl : rest = [] := eq_nil_of_length_eq_zero (by omega)
    exact append_nil l
  | some limit =>
    simp only [takeUpTo, length_take, length_range, length_append] at h ⊢
    rcases Nat.lt_or_ge l.length limit with hl | hg
    · obtain rfl : rest = [] := eq_nil_of_length_eq_zero (by omega)
      rw [append_nil, take_of_length_le (by omega)]
    · rw [take_append_of_le_length hg, take_of_length_le (by omega)]

lemma yields_of_full (hpos : 0 < options.portion)
    (hf : ∀ portion ∈ options.servable p xs, portion.all p = true) :
    options.yields p xs = (options.servable p xs).flatten :=
  (rounds_full hpos (fun _ => length_of_mem_portions hpos) (.inr hf)).2

lemma yields_of_selects (h : options.Selects p xs) :
    options.yields p xs = options.window (xs.filter p) := by
  obtain ⟨hpos, ⟨hfe, hn⟩ | ⟨hmo, hs, hf, hl⟩⟩ := h
  · rw [yields_of_full hpos (by simp [hn]), hn, window_eq_nil (by rwa [← countP_eq_length_filter])]
    rfl
  · obtain ⟨rest, hsp⟩ := filter_split hpos hf
    have hc : xs.countP p - options.offset.getD 0 =
        ((options.servable p xs).flatten ++ rest).length := by
      rw [← hs, countP_eq_length_filter, countP_eq_length_filter, hsp,
        length_append, Nat.add_sub_cancel_left]
    rw [countP_eq_length_filter] at hs
    rw [yields_of_full hpos hf, window, hsp, ← hs, drop_left]
    refine (takeUpTo_left ?_).symm
    rw [← hc, ← hl]
    exact length_servable hpos

lemma length_takeUpTo (limit : Option Nat) (l : List α) :
    (takeUpTo limit l).length = (takeUpTo limit (range l.length)).length := by
  cases limit <;> simp [takeUpTo]

lemma mem_of_mem_window {x : α} (h : x ∈ options.window xs) : x ∈ xs := by
  exact mem_of_mem_drop ((isPrefix_takeUpTo _ _).subset h)

lemma window_head (hpos : 0 < options.portion) :
    (options.window xs).head? = xs[options.offset.getD 0]? := by
  unfold window
  cases hl : options.limit with
  | none => simp [takeUpTo]
  | some limit =>
    have hle := portion_le_limit hl
    simp [takeUpTo, head?_take]
    omega

lemma selects_of_yields (hpos : 0 < options.portion) (hn : xs.Nodup)
    (h : options.yields p xs = options.window (xs.filter p)) : options.Selects p xs := by
  refine ⟨hpos, ?_⟩
  rcases Nat.lt_or_ge (options.offset.getD 0) (xs.countP p) with hmo | hfe
  · right
    have hl : options.offset.getD 0 < (xs.filter p).length := by
      rwa [← countP_eq_length_filter]
    have hma : ∀ x ∈ options.yields p xs, p x = true := by
      intro x hx
      rw [h] at hx
      exact (mem_filter.mp (mem_of_mem_window hx)).2
    have hfu : ∀ portion ∈ options.servable p xs, portion.all p = true :=
      (rounds_full hpos (fun _ => length_of_mem_portions hpos) (.inl hma)).1
    have hy := yields_of_full hpos hfu
    refine ⟨hmo, ?_, hfu, ?_⟩
    · -- the first element that is yielded stands behind the matches of the skipped portions
      have hh := @window_head _ options (xs.filter p) hpos
      rw [← h, hy] at hh
      obtain ⟨rest, hs⟩ := filter_split hpos hfu
      cases hf : (options.servable p xs).flatten with
      | nil =>
        rw [hf, head?_nil, getElem?_eq_getElem hl] at hh
        cases hh
      | cons first others =>
        rw [hf, head?_cons] at hh
        have hp : (xs.filter p)[((xs.take
            (options.skipped * options.portion)).filter p).length]? = some first := by
          rw [hs, hf, getElem?_append_right (Nat.le_refl _), Nat.sub_self]
          rfl
        have hsa := (getElem?_inj hl (hn.filter p)).mp (hh.symm.trans hp.symm)
        rw [countP_eq_length_filter, ← hsa]
    · rw [← length_servable hpos, ← hy, h, window, length_takeUpTo,
        length_drop, countP_eq_length_filter]
  · left
    refine ⟨hfe, servable_eq_nil hpos (fun _ => length_of_mem_portions hpos)
      (h.trans (window_eq_nil ?_))⟩
    rwa [← countP_eq_length_filter]

end Filtered

lemma selects_map {p : α → Bool} {xs : List α} :
    options.Selects id (xs.map p) ↔ options.Selects p xs := by
  have hma : ∀ chunks : List (List α), matching id (chunks.map (List.map p)) =
      (matching p chunks).map (List.map p) := by
    intro chunks
    unfold matching
    rw [filter_map]
    simp [Function.comp_def]
  have hs : options.servable id (xs.map p) = (options.servable p xs).map (List.map p) := by
    unfold servable
    rw [← map_drop, portions_map, hma, takeUpTo_map]
  have hc : ∀ l : List α, (l.map p).countP id = l.countP p := by
    intro l
    rw [countP_map]
    rfl
  unfold Selects
  rw [hs, ← map_take, hc, hc]
  simp

lemma rounds_map {β : Type} (g : α → β) (p : β → Bool) (index : Nat) (chunks : List (List α)) :
    rounds p options index (chunks.map (List.map g)) =
      (rounds (fun x => p (g x)) options index chunks).map g := by
  induction chunks generalizing index with
  | nil => rfl
  | cons chunk chunks ih =>
    have hf : (chunk.map g).filter p = (chunk.filter fun x => p (g x)).map g := by
      rw [filter_map]
      rfl
    rw [map_cons, rounds, rounds, hf]
    simp only [isEmpty_map, length_map, ih]
    split_ifs <;> simp

lemma yields_map {α β : Type} {options : StreamOptions} (g : α → β) (p : β → Bool)
    (xs : List α) : options.yields p (xs.map g) = (options.yields (fun x => p (g x)) xs).map g := by
  unfold yields
  rw [← map_drop, portions_map, rounds_map]

lemma filteredLoop_succ {filter : δ → Bool} {map : δ → γ} {fuel index : Nat}
    (h : (filteredLoop memory filter map options fuel index f).ending = .done) :
    filteredLoop memory filter map options (fuel + 1) index f =
      filteredLoop memory filter map options fuel index f := by
  induction fuel generalizing index f with
  | zero => cases h
  | succ fuel ih =>
    rw [filteredLoop] at h
    rw [filteredLoop, filteredLoop]
    cases hn : executorNext memory options.portion f with
    | mk g result =>
      rw [hn] at h
      match result with
      | .error _ => rfl
      | .ok none => rfl
      | .ok (some tuples) =>
        dsimp only at h ⊢
        split_ifs at h ⊢
        · exact ih h
        · exact ih h
        · rfl
        · rw [ih h]

lemma filteredLoop_empty (hm : memory.Sufficient) (filter : δ → Bool) (map : δ → γ)
    (hz : options.portion = 0) (fuel : Nat) {ts : List (BoxTuple decode)} (hd : f.diag = none)
    (hb : f.box = ts.map .ok) :
    (filteredLoop memory filter map options fuel 0 f).ending = .running := by
  induction fuel generalizing f with
  | zero => rfl
  | succ fuel ih =>
    obtain ⟨g, hn, hg, hgb⟩ :=
      executorNext_full hm options.portion_lt (by omega : options.portion ≤ ts.length) hd hb
    have hr := ih hg (by rw [hgb, hz, drop_zero])
    rw [filteredLoop, hn]
    simp only [hz, Nat.add_zero, take_zero, map_nil, filter_nil, isEmpty_nil, if_true]
    split_ifs
    · exact hr
    · exact hr

/-- For every sequence with matches at these places and every mapping, the stream ends and has
yielded the images of the matches asked for. -/
def StreamOptions.Filters (options : StreamOptions) (pattern : List Bool) : Prop :=
  ∀ (δ γ : Type) (decode : Bytes → Option (δ × Bytes)) (memory : Memory) (filter : δ → Bool)
    (map : δ → γ) (ts : List (BoxTuple decode)) (f : Fiber (Cursor decode)), memory.Sufficient →
    (ts.map fun t => filter t.fields) = pattern → f.diag = none → f.box = ts.map .ok →
    ∃ fuel, streamFiltered memory filter map options fuel f =
      ⟨(options.window (ts.filter fun t => filter t.fields)).map fun t => map t.fields, .done⟩

theorem stream_filtered_iff (options : StreamOptions) (pattern : List Bool) :
    options.Filters pattern ↔ options.Selects id pattern := by
  constructor
  · intro hf
    have hp : (range pattern.length).map (fun n => pattern.getD n false) = pattern := by
      refine ext_getElem (by simp) fun n h₁ h₂ => ?_
      simp [getElem?_eq_getElem h₂]
    have hm : ampleMemory.Sufficient := ⟨fun _ => rfl, fun _ => rfl⟩
    obtain ⟨fuel, hfu⟩ := hf Nat Nat decodeUnary ampleMemory
      (fun n => pattern.getD n false) id ((range pattern.length).map unaryTuple)
      (unaryFiber (range pattern.length)) hm (by rw [map_map]; exact hp) rfl rfl
    have hdo : (filteredLoop ampleMemory (fun n => pattern.getD n false) id options fuel 0
        (unaryFiber (range pattern.length))).ending = .done := by
      rw [← streamFiltered, hfu]
    rw [← hp, selects_map]
    rcases Nat.eq_zero_or_pos options.portion with hz | hpos
    · rw [filteredLoop_empty hm _ id hz fuel rfl rfl] at hdo
      cases hdo
    · have hl := @filteredLoop_eq _ _ _ ampleMemory hm (fun n => pattern.getD n false) id options
        hpos (fuel + (pattern.length / options.portion + 1)) 0
        ((range pattern.length).map unaryTuple) (by simp; omega)
        (unaryFiber (range pattern.length)) rfl rfl (Nat.zero_le _)
      rw [Nat.zero_mul, add_of_succ hdo fun _ => filteredLoop_succ, ← streamFiltered, hfu,
        Nat.sub_zero] at hl
      have he := (congrArg Yielded.elements hl).symm
      refine selects_of_yields hpos nodup_range ?_
      have hy := @yields_map _ _ options unaryTuple
        (fun t => pattern.getD t.fields false) (range pattern.length)
      have hfi : ((range pattern.length).map unaryTuple).filter
          (fun t => pattern.getD t.fields false) =
          ((range pattern.length).filter fun n => pattern.getD n false).map unaryTuple := by
        rw [filter_map]
        rfl
      rw [yields] at hy
      simp only [hy, hfi, window_map, map_map] at he
      simpa [Function.comp_def, unaryTuple] using he
  · intro hs δ γ decode memory filter map ts f hm hp hd hb
    rw [← hp, selects_map] at hs
    have hpos := hs.1
    refine ⟨ts.length / options.portion + 1, ?_⟩
    have hl := filteredLoop_eq hm filter map hpos (Nat.lt_succ_self _) hd hb
      (Nat.zero_le options.skipped)
    rw [Nat.zero_mul, Nat.sub_zero] at hl
    have hy := yields_of_selects hs
    rw [yields] at hy
    rw [streamFiltered, hl, hy]

/-- Four tuples in portions of two, of which the first and the last match: whole portions are
yielded, also with an offset of one. -/
theorem unmatched_yielded :
    streamFiltered ampleMemory (fun n => n = 0 ∨ n = 3) id ⟨none, none, 2, by decide⟩ 3
        (unaryFiber [0, 1, 2, 3]) = ⟨[0, 1, 2, 3], .done⟩ ∧
      streamFiltered ampleMemory (fun n => n = 0 ∨ n = 3) id ⟨some 2, some 1, 2, by decide⟩ 3
        (unaryFiber [0, 1, 2, 3]) = ⟨[2, 3], .done⟩ :=
  ⟨rfl, rfl⟩

end TarantoolStorage.Binding
