import TarantoolStorage.Vinyl.ViewHistory

/-!
Merging the history of a read view keeps its meaning, unless it begins with a DELETE and the read
view before ends with one.
-/
namespace TarantoolStorage.Vinyl

open Schema List Terminal

variable {V F K : Type*} {S : Schema V F K} {κ : Type*} [LinearOrder κ] [DecidableEq K]
  {below : Option (Nat × S.Tuple)}

/-- What statements, newest first, make of the version below them. -/
def value : List S.Stmt → Option (Nat × S.Tuple) → Option (Nat × S.Tuple)
  | [], below => below
  | .terminal stmt :: _, _ => stmt.version?
  | .upsert stmt :: older, below =>
    some (stmt.lsn, appliedTuple stmt ((value older below).map Prod.snd))

/-- Every UPSERT that is applied on the way keeps the primary key. -/
def KeepsAlong : List S.Stmt → Option (Nat × S.Tuple) → Prop
  | [], _ => True
  | .terminal _ :: _, _ => True
  | .upsert stmt :: older, below =>
    KeepsKey stmt ((value older below).map Prod.snd) ∧ KeepsAlong older below

lemma value_append (xs ys : List S.Stmt) (below : Option (Nat × S.Tuple)) :
    value (xs ++ ys) below = value xs (value ys below) := by
  induction xs with
  | nil => rfl
  | cons x xs ih =>
    cases x with
    | terminal t => rfl
    | upsert u => simp [value, ih]

/-- Nothing behind a statement that is not an UPSERT matters. -/
lemma value_of_terminal {xs : List S.Stmt} (h : ∃ x ∈ xs, x.isUpsert = false)
    (a b : Option (Nat × S.Tuple)) : value xs a = value xs b := by
  induction xs with
  | nil => simp at h
  | cons x xs ih =>
    cases x with
    | terminal t => rfl
    | upsert u =>
      obtain ⟨x, hx, ht⟩ := h
      rcases mem_cons.mp hx with rfl | hx
      · cases ht
      · simp [value, ih ⟨x, hx, ht⟩]

lemma keepsAlong_append {xs ys : List S.Stmt} (h : KeepsAlong (xs ++ ys) below) :
    KeepsAlong xs (value ys below) ∧ ((∀ x ∈ xs, x.isUpsert = true) → KeepsAlong ys below) := by
  induction xs with
  | nil => exact ⟨trivial, fun _ => h⟩
  | cons x xs ih =>
    cases x with
    | terminal t =>
      refine ⟨trivial, fun ha => ?_⟩
      cases ha (.terminal t) (by simp)
    | upsert u =>
      rw [cons_append] at h
      obtain ⟨hk, hr⟩ := h
      obtain ⟨hxs, hy⟩ := ih hr
      rw [value_append] at hk
      exact ⟨⟨hk, hxs⟩, fun ha => hy fun x hx => ha x (by simp [hx])⟩

def applyVersions (upserts : List S.Upsert) (below : Option (Nat × S.Tuple)) :
    Option (Nat × S.Tuple) :=
  upserts.foldl (fun curr u => some (u.lsn, appliedTuple u (curr.map Prod.snd))) below

omit [DecidableEq K] in
lemma version?_map_snd (stmt : Option S.Terminal) :
    (stmt.bind version?).map Prod.snd = stmt.bind tuple? := by
  rcases stmt with _ | (_ | _ | _) <;> rfl

lemma version?_applyAll (upserts : List S.Upsert) (stmt : Option S.Terminal) :
    (applyAll upserts stmt).bind version? = applyVersions upserts (stmt.bind version?) := by
  induction upserts generalizing stmt with
  | nil => rfl
  | cons u upserts ih =>
    simp only [applyAll, applyVersions, foldl_cons] at ih ⊢
    rw [ih, version?_map_snd]
    rfl

lemma value_upserts (upserts : List S.Upsert) (older : List S.Stmt)
    (below : Option (Nat × S.Tuple)) :
    value (upserts.reverse.map .upsert ++ older) below =
      applyVersions upserts (value older below) := by
  induction upserts generalizing older with
  | nil => rfl
  | cons u upserts ih =>
    rw [reverse_cons, map_append, append_assoc, ih]
    rfl

lemma KeepsAlong.keepsKeys {upserts : List S.Upsert} {older : List S.Stmt}
    (h : KeepsAlong (upserts.reverse.map .upsert ++ older) below) :
    KeepsKeys upserts ((value older below).map Prod.snd) := by
  induction upserts generalizing older with
  | nil => trivial
  | cons u upserts ih =>
    rw [reverse_cons, map_append, append_assoc] at h
    have hu := (keepsAlong_append h).2 (by simp [Stmt.isUpsert])
    exact ⟨hu.1, ih h⟩

lemma readAt_eq_value (vlsn : Nat) (stmts : List S.Stmt) :
    readAt vlsn stmts = value (visible vlsn stmts) none := by
  unfold readAt
  generalize visible vlsn stmts = stmts
  unfold historyApply
  dsimp only [Bool.false_eq_true, if_false]
  rw [version?_applyAll]
  induction stmts with
  | nil => rfl
  | cons stmt stmts ih =>
    cases stmt with
    | terminal t => cases t <;> rfl
    | upsert u =>
      simp only [History.collect, reverse_cons, applyVersions, foldl_append,
        foldl_cons, foldl_nil, value] at ih ⊢
      rw [ih]

namespace WriteIterator

/-- A sequence of UPSERTs, combined from the oldest on. -/
def squashing (first : Squashing S) (upserts : List S.Upsert) : Squashing S :=
  upserts.foldl (fun older u => .pair older (.one u)) first

omit [DecidableEq K] in
lemma upserts_squashing (first : Squashing S) (upserts : List S.Upsert) :
    (squashing first upserts).upserts = first.upserts ++ upserts := by
  induction upserts generalizing first with
  | nil => simp [squashing]
  | cons u upserts ih =>
    simp only [squashing, foldl_cons] at ih ⊢
    rw [ih]
    simp [Squashing.upserts]

lemma squashAll_upsert (first : Squashing S) (upserts : List S.Upsert) :
    squashAll (.upsert first.result) upserts = .upsert (squashing first upserts).result := by
  induction upserts generalizing first with
  | nil => rfl
  | cons u upserts ih => exact ih (.pair first (.one u))

variable {upserts : List S.Upsert} {below : Option (Nat × S.Tuple)} {stmt : S.Stmt}

/-- UPSERTs without anything to apply them to become one UPSERT with the same meaning. -/
lemma value_squashAll_upsert {u : S.Upsert} {older : List S.Stmt}
    (h : KeepsKeys (u :: upserts) ((value older below).map Prod.snd)) :
    value (squashAll (.upsert u) upserts :: older) below =
      applyVersions (u :: upserts) (value older below) := by
  have hal := upserts_squashing (.one u) upserts
  rw [Squashing.upserts, singleton_append] at hal
  have hr : squashAll (.upsert u) upserts = .upsert (squashing (.one u) upserts).result :=
    squashAll_upsert (.one u) upserts
  rw [hr, value]
  generalize squashing (.one u) upserts = t at hal
  generalize value older below = base at h
  -- any statement with the version below will do
  let stmt : Option S.Terminal := base.map fun version => .replace version.1 false false version.2
  have hv : stmt.bind version? = base := by
    cases base <;> rfl
  have ht : stmt.bind tuple? = base.map Prod.snd := by
    cases base <;> rfl
  have hs := (t.sound (base.map Prod.snd)).1 (by rw [hal]; exact h.dropLast)
  rw [← ht] at hs
  have ha := applyAll_eq t.lsn_result hs
  rw [← hv, ← hal, ← version?_applyAll, ← ha, version?_map_snd]
  rfl

lemma squashAll_terminal (stmt : S.Terminal) (upserts : List S.Upsert) :
    ∃ t : S.Terminal, squashAll (.terminal stmt) upserts = .terminal t ∧
      t.version? = applyVersions upserts stmt.version? := by
  induction upserts generalizing stmt with
  | nil => exact ⟨stmt, rfl, rfl⟩
  | cons u upserts ih =>
    obtain ⟨t, ha, hv⟩ := ih (applyUpsertOnTerminalStmt u (some stmt))
    refine ⟨t, ha, ?_⟩
    rw [hv]
    cases stmt <;> rfl

lemma isDelete_applyUpsert (u : S.Upsert) (older : Option S.Stmt) :
    (applyUpsert u older).isDelete = false := by
  rcases older with _ | (_ | _) <;> rfl

lemma isDelete_squashAll (h : (squashAll stmt upserts).isDelete = true) :
    upserts = [] ∧ stmt.isDelete = true := by
  induction upserts generalizing stmt with
  | nil => exact ⟨rfl, h⟩
  | cons u upserts ih =>
    have hf := (ih h).2
    rw [isDelete_applyUpsert] at hf
    cases hf

lemma squashAll_or (stmt : S.Stmt) (upserts : List S.Upsert) :
    squashAll stmt upserts = stmt ∨ ∃ u ∈ upserts, (squashAll stmt upserts).lsn = u.lsn := by
  induction upserts generalizing stmt with
  | nil => exact .inl rfl
  | cons u upserts ih =>
    have hl : (applyUpsert u (some stmt)).lsn = u.lsn := by
      cases stmt <;> rfl
    rcases ih (applyUpsert u (some stmt)) with h | ⟨v, hv, h⟩
    · exact .inr ⟨u, by simp, (congrArg Stmt.lsn h).trans hl⟩
    · exact .inr ⟨v, by simp [hv], h⟩

/-- The last adjustments change no more than flags and the kind of a new tuple. -/
structure Adjusted (stmt made : S.Stmt) : Prop where
  lsn : made.lsn = stmt.lsn
  isUpsert : made.isUpsert = stmt.isUpsert
  isDelete : made.isDelete = stmt.isDelete
  value : ∀ older below, value (made :: older) below = value (stmt :: older) below

section Finish

variable {deferred : Option S.Terminal} {isFirstInsert : Bool} {prev : Option S.Stmt}

lemma adjusted_terminal {t made : S.Terminal} (hl : made.lsn = t.lsn)
    (hd : made.isDelete = t.isDelete) (hv : made.version? = t.version?) :
    Adjusted (.terminal t) (.terminal made) :=
  ⟨hl, rfl, hd, fun _ _ => hv⟩

lemma adjusted_of_finishMerge {made : S.Stmt}
    (h : finishMerge deferred isFirstInsert prev stmt = some made) : Adjusted stmt made := by
  cases stmt with
  | upsert u =>
    cases h
    exact ⟨rfl, rfl, rfl, fun _ _ => rfl⟩
  | terminal t =>
    simp only [finishMerge] at h
    -- clearing the flag keeps everything else
    have hf : ∃ t' : S.Terminal,
        (if deferred.map lsn = some t.lsn then t else t.clearDeferredDelete) = t' ∧
          t'.lsn = t.lsn ∧ t'.isDelete = t.isDelete ∧ t'.version? = t.version? := by
      refine ⟨_, rfl, ?_⟩
      split
      · exact ⟨rfl, rfl, rfl⟩
      · cases t <;> exact ⟨rfl, rfl, rfl⟩
    obtain ⟨t', ht', hl, hd, hv⟩ := hf
    rw [ht'] at h
    cases prev <;> cases isFirstInsert <;> cases t' <;> cases h <;> exact adjusted_terminal hl hd hv

omit [DecidableEq K] in
/-- Only the first DELETE of a key that began with an INSERT is discarded. -/
lemma finishMerge_eq_none (h : finishMerge deferred isFirstInsert prev stmt = none) :
    prev = none ∧ isFirstInsert = true ∧ stmt.isDelete = true := by
  cases stmt with
  | upsert u => cases h
  | terminal t =>
    simp only [finishMerge] at h
    have hd : (if deferred.map lsn = some t.lsn then t
        else t.clearDeferredDelete).isDelete = t.isDelete := by
      split
      · rfl
      · cases t <;> rfl
    generalize (if deferred.map lsn = some t.lsn then t else t.clearDeferredDelete) = t' at *
    cases prev <;> cases isFirstInsert <;> cases t' <;> cases h
    exact ⟨rfl, rfl, hd.symm⟩

end Finish

def stmtsOf (history : WriteHistory S) : List S.Stmt :=
  history.upserts.reverse.map .upsert ++ history.oldest.toList.map .terminal

variable {it : WriteIterator κ S} {builder : HistoryBuilder S} {made : List S.Stmt}
  {history : WriteHistory S}

/-- The statement that `vy_read_view_merge` makes before the last adjustments. -/
inductive Merged (it : WriteIterator κ S) (made : List S.Stmt) : WriteHistory S → S.Stmt → Prop
  | terminal (stmt : S.Terminal) (upserts : List S.Upsert) :
    Merged it made ⟨some stmt, upserts⟩ (squashAll (.terminal stmt) upserts)
  | applied (u : S.Upsert) (upserts : List S.Upsert)
    (h : it.isLastLevel = true ∨ ∃ t older, made = .terminal t :: older) :
    Merged it made ⟨none, u :: upserts⟩ (squashAll (applyUpsert u made.head?) upserts)
  | squashed (u : S.Upsert) (upserts : List S.Upsert) (hlast : it.isLastLevel = false)
    (h : ∀ t older, made ≠ .terminal t :: older) :
    Merged it made ⟨none, u :: upserts⟩ (squashAll (.upsert u) upserts)

/-- The case the merge gets wrong: a DELETE with UPSERTs over it, on top of a DELETE. -/
def DropsUpserts (made : List S.Stmt) (history : WriteHistory S) : Prop :=
  made.head?.any Stmt.isDelete = true ∧ history.oldest.any isDelete = true ∧
    history.upserts.isEmpty = false

instance (made : List S.Stmt) (history : WriteHistory S) : Decidable (DropsUpserts made history) :=
  inferInstanceAs (Decidable (_ ∧ _ ∧ _))

lemma mergeView_cases (it : WriteIterator κ S) (builder : HistoryBuilder S)
    (made : List S.Stmt) (history : WriteHistory S) :
    (it.mergeView builder made history = made ∧ (history = .empty ∨
      made.head?.any Stmt.isDelete = true ∧ history.oldest.any isDelete = true ∨
      made = [] ∧ builder.isFirstInsert = true ∧
        ∃ stmt, Merged it made history stmt ∧ stmt.isDelete = true)) ∨
    ∃ stmt m, Merged it made history stmt ∧
      ¬ (made.head?.any Stmt.isDelete = true ∧ history.oldest.any isDelete = true) ∧
      finishMerge (it.lastDeferred builder) builder.isFirstInsert made.head? stmt = some m ∧
      it.mergeView builder made history = m :: made := by
  suffices h : (it.mergeView builder made history = made ∧ (history = .empty ∨
        made.head?.any Stmt.isDelete = true ∧ history.oldest.any isDelete = true)) ∨
      ∃ stmt, Merged it made history stmt ∧
        ¬ (made.head?.any Stmt.isDelete = true ∧ history.oldest.any isDelete = true) ∧
        it.readViewMerge builder made.head? history =
          finishMerge (it.lastDeferred builder) builder.isFirstInsert made.head? stmt by
    rcases h with ⟨he, h⟩ | ⟨stmt, hme, hn, he⟩
    · exact .inl ⟨he, h.imp_right .inl⟩
    · unfold mergeView
      rw [he]
      cases hm : finishMerge (it.lastDeferred builder) builder.isFirstInsert made.head? stmt with
      | none =>
        obtain ⟨hp, hi, hde⟩ := finishMerge_eq_none hm
        exact .inl ⟨rfl, .inr (.inr ⟨head?_eq_none_iff.mp hp, hi, stmt, hme, hde⟩)⟩
      | some m => exact .inr ⟨stmt, m, hme, hn, hm, rfl⟩
  obtain ⟨oldest, upserts⟩ := history
  cases oldest with
  | some stmt =>
    by_cases hd : (made.head?.any Stmt.isDelete && stmt.isDelete) = true
    · refine .inl ⟨?_, .inr (by simpa using hd)⟩
      simp [mergeView, readViewMerge, hd]
    · refine .inr ⟨_, .terminal stmt upserts, by simpa using hd, ?_⟩
      simp only [readViewMerge, hd]
      rfl
  | none =>
    cases upserts with
    | nil => exact .inl ⟨rfl, .inl rfl⟩
    | cons u upserts =>
      by_cases ha : (it.isLastLevel || made.head?.any fun stmt => !stmt.isUpsert) = true
      · refine .inr ⟨_, .applied u upserts ?_, by simp, ?_⟩
        · rcases Bool.or_eq_true_iff.mp ha with hl | hp
          · exact .inl hl
          · rcases made with _ | ⟨_ | _, older⟩
            · cases hp
            · exact .inr ⟨_, _, rfl⟩
            · cases hp
        · simp only [readViewMerge, ha]
          rfl
      · simp only [Bool.or_eq_true_iff, not_or, Bool.not_eq_true] at ha
        refine .inr ⟨_, .squashed u upserts ha.1 ?_, by simp, ?_⟩
        · rintro t older rfl
          cases ha.2
        · simp [readViewMerge, ha.1, ha.2]

omit [DecidableEq K] in
lemma version?_of_isDelete {stmt : S.Terminal} (h : stmt.isDelete = true) :
    stmt.version? = none := by
  cases stmt with
  | delete => rfl
  | insert => cases h
  | replace => cases h

lemma value_of_head_delete (h : made.head?.any Stmt.isDelete = true)
    (below : Option (Nat × S.Tuple)) : value made below = none := by
  rcases made with _ | ⟨t | u, older⟩
  · cases h
  · exact version?_of_isDelete h
  · cases h

section

variable (h : Merged it made history stmt)
include h

/-- The statement made for a read view means what its history means. -/
lemma Merged.value
    (hla : it.isLastLevel = true → below = none ∧ ∀ s ∈ made, s.isUpsert = false)
    (hk : KeepsAlong (stmtsOf history) (value made below)) :
    Vinyl.value (stmt :: made) below = Vinyl.value (stmtsOf history) (Vinyl.value made below) := by
  unfold stmtsOf at hk ⊢
  rw [value_upserts]
  cases h with
  | terminal stmt upserts =>
    obtain ⟨t, hal, hv⟩ := squashAll_terminal stmt upserts
    rw [hal]
    exact hv
  | applied u upserts ha =>
    have hf : ∃ t : S.Terminal, applyUpsert u made.head? = .terminal t ∧
        t.version? = some (u.lsn, appliedTuple u ((Vinyl.value made below).map Prod.snd)) := by
      rcases made with _ | ⟨t | v, older⟩
      · have hb : below = none := by
          rcases ha with hl | ⟨t, older, hn⟩
          · exact (hla hl).1
          · cases hn
        subst hb
        exact ⟨_, rfl, rfl⟩
      · refine ⟨_, rfl, ?_⟩
        cases t <;> rfl
      · rcases ha with hl | ⟨t, older, hcons⟩
        · cases (hla hl).2 (.upsert v) (by simp)
        · cases hcons
    obtain ⟨t, ht, hv⟩ := hf
    obtain ⟨t', hal, hv'⟩ := squashAll_terminal t upserts
    rw [ht, hal]
    exact hv'.trans (by rw [hv]; rfl)
  | squashed u upserts => exact value_squashAll_upsert hk.keepsKeys

lemma Merged.isDelete (hd : stmt.isDelete = true) :
    history.upserts = [] ∧ history.oldest.any isDelete = true := by
  cases h with
  | terminal t upserts => exact isDelete_squashAll hd
  | applied u upserts =>
    have hf := (isDelete_squashAll hd).2
    rw [isDelete_applyUpsert] at hf
    cases hf
  | squashed u upserts => cases (isDelete_squashAll hd).2

lemma Merged.origin :
    ∃ s ∈ stmtsOf history, stmt.lsn = s.lsn ∧ (stmt = s ∨ s.isUpsert = true) := by
  have hm (upserts : List S.Upsert) (oldest : Option S.Terminal) (u : S.Upsert)
      (hu : u ∈ upserts) : .upsert u ∈ stmtsOf (S := S) ⟨oldest, upserts⟩ := by
    simp [stmtsOf, hu]
  have hup {first : S.Stmt} {u : S.Upsert} {upserts : List S.Upsert} (hf : first.lsn = u.lsn) :
      ∃ v ∈ u :: upserts, (squashAll first upserts).lsn = v.lsn := by
    rcases squashAll_or first upserts with h | ⟨v, hv, h⟩
    · exact ⟨u, by simp, (congrArg Stmt.lsn h).trans hf⟩
    · exact ⟨v, by simp [hv], h⟩
  cases h with
  | terminal t upserts =>
    rcases squashAll_or (.terminal t) upserts with h | ⟨u, hu, h⟩
    · exact ⟨.terminal t, by simp [stmtsOf], congrArg _ h, .inl h⟩
    · exact ⟨.upsert u, hm _ _ u hu, h, .inr rfl⟩
  | applied u upserts =>
    have hf : (applyUpsert u made.head?).lsn = u.lsn := by
      rcases made.head? with _ | (_ | _) <;> rfl
    obtain ⟨v, hv, h⟩ := hup hf
    exact ⟨.upsert v, hm _ _ v hv, h, .inr rfl⟩
  | squashed u upserts =>
    have hf : (Stmt.upsert u : S.Stmt).lsn = u.lsn := rfl
    obtain ⟨v, hv, h⟩ := hup hf
    exact ⟨.upsert v, hm _ _ v hv, h, .inr rfl⟩

lemma Merged.isUpsert
    (hm : it.isLastLevel = true → ∀ s ∈ made, s.isUpsert = false) :
    stmt.isUpsert = true ↔ history.oldest = none ∧ it.isLastLevel = false ∧
      ∀ t older, made ≠ .terminal t :: older := by
  cases h with
  | terminal t upserts =>
    obtain ⟨t', hal, _⟩ := squashAll_terminal t upserts
    simp [hal, Stmt.isUpsert]
  | applied u upserts ha =>
    have hf : ∃ t : S.Terminal, applyUpsert u made.head? = .terminal t := by
      rcases made with _ | ⟨t | v, older⟩
      · exact ⟨_, rfl⟩
      · exact ⟨_, rfl⟩
      · rcases ha with hl | ⟨t, older, hcons⟩
        · cases hm hl (.upsert v) (by simp)
        · cases hcons
    obtain ⟨t, ht⟩ := hf
    obtain ⟨t', hal, _⟩ := squashAll_terminal t upserts
    rw [ht, hal]
    constructor
    · intro h
      cases h
    · rintro ⟨_, hla, hn⟩
      rcases ha with hl | ⟨t, older, hcons⟩
      · rw [hl] at hla
        cases hla
      · exact absurd hcons (hn t older)
  | squashed u upserts hla hn =>
    rw [show squashAll (.upsert u) upserts = .upsert (squashing (.one u) upserts).result from
      squashAll_upsert (.one u) upserts]
    exact ⟨fun _ => ⟨rfl, hla, hn⟩, fun _ => rfl⟩

end

/-- The merge of a read view keeps the meaning, unless it drops UPSERTs. -/
lemma value_mergeView (hi : builder.isFirstInsert = true → below = none)
    (hl : it.isLastLevel = true → below = none ∧ ∀ s ∈ made, s.isUpsert = false)
    (hk : KeepsAlong (stmtsOf history) (value made below))
    (hdr : ¬ DropsUpserts made history) :
    value (it.mergeView builder made history) below =
      value (stmtsOf history) (value made below) := by
  rcases mergeView_cases it builder made history with
    ⟨he, rfl | ⟨hh, hd⟩ | ⟨hn, hf, stmt, hme, hd⟩⟩ |
    ⟨stmt, m, hme, -, hm, he⟩
  · rw [he]
    rfl
  · -- both sides are DELETEs
    have hu : history.upserts = [] := by
      by_contra hne
      exact hdr ⟨hh, hd, by simpa using hne⟩
    rw [he, value_of_head_delete hh]
    obtain ⟨oldest, upserts⟩ := history
    cases oldest with
    | none => cases hd
    | some t =>
      simp only at hu
      subst hu
      exact (version?_of_isDelete hd).symm
  · -- the key began with an INSERT, so there is nothing below
    obtain ⟨hu, ho⟩ := hme.isDelete hd
    rw [he, hn, value, hi hf]
    obtain ⟨oldest, upserts⟩ := history
    cases oldest with
    | none => cases ho
    | some t =>
      simp only at hu
      subst hu
      exact (version?_of_isDelete ho).symm
  · rw [he, (adjusted_of_finishMerge hm).value]
    exact hme.value hl hk

/-- If UPSERTs are dropped, the key is absent in the output, but not in the input. -/
lemma value_of_dropsUpserts (it : WriteIterator κ S) (builder : HistoryBuilder S)
    (h : DropsUpserts made history) (below : Option (Nat × S.Tuple)) :
    it.mergeView builder made history = made ∧ value made below = none ∧
      ∀ base, value (stmtsOf history) base ≠ none := by
  obtain ⟨hh, hd, hu⟩ := h
  refine ⟨?_, value_of_head_delete hh below, fun base => ?_⟩
  · rcases mergeView_cases it builder made history with ⟨he, -⟩ | ⟨-, -, -, hno, -⟩
    · exact he
    · exact absurd ⟨hh, hd⟩ hno
  · unfold stmtsOf
    rcases eq_nil_or_concat history.upserts with hn | ⟨us, u, hus⟩
    · rw [hn] at hu
      cases hu
    · rw [hus]
      simp [value]

end WriteIterator

end TarantoolStorage.Vinyl
