import TarantoolStorage.Gc.State

/-! How clocks and consumers are ordered. -/
namespace TarantoolStorage.Gc

open List Consumer

section

variable {a b : Clock} {ids : List (Fin vclockMax)}

/-- The result of a comparison from what holds of all components. -/
def orderOf (le ge : Bool) : Int :=
  match le, ge with
  | true, true => 0
  | true, false => -1
  | false, true => 1
  | false, false => vclockOrderUndefined

/-- The loop stops as soon as neither flag is left, with the result it would have in the end. -/
lemma orderOf_stop {le ge p q : Bool} {rest : Int}
    (h : (le || ge) = true → rest = orderOf (le && p) (ge && q)) :
    (if !ge && !le then vclockOrderUndefined else rest) = orderOf (le && p) (ge && q) := by
  cases le <;> cases ge <;> first | rfl | exact h rfl

lemma compareLoop_eq {le ge : Bool} (h : (le || ge) = true) : compareLoop a b le ge ids =
      orderOf (le && ids.all fun id => a id ≤ b id) (ge && ids.all fun id => b id ≤ a id) := by
  induction ids generalizing le ge with
  | nil => cases le <;> cases ge <;> simp_all [compareLoop, orderOf]
  | cons id ids ih =>
    rw [compareLoop, all_cons, all_cons, ← Bool.and_assoc, ← Bool.and_assoc]
    exact orderOf_stop ih

lemma orderOf_nonpos {le ge : Bool} : orderOf le ge ≤ 0 ↔ le = true := by
  cases le <;> cases ge <;> decide

lemma le_of_orderOf {le ge : Bool} (ho : orderOf le ge ≠ vclockOrderUndefined)
    (h : 0 ≤ orderOf le ge) : ge = true := by
  cases le <;> cases ge <;> simp_all [orderOf]

lemma le_of_vclocksetNodeCompare (ho : vclockCompare a b ≠ vclockOrderUndefined)
    (h : 0 ≤ vclocksetNodeCompare a b) : b ≤ a := by
  rw [vclocksetNodeCompare, if_neg ho] at h
  rw [vclockCompare, compareLoop_eq rfl] at h ho
  have ha : ∀ id, b id ≤ a id := by simpa using le_of_orderOf ho h
  exact ha

lemma vclockCompareIgnore0_nonpos :
    vclockCompareIgnore0 a b ≤ 0 ↔ ∀ id, id.val ≠ 0 → a id ≤ b id := by
  have ht : ∀ id : Fin vclockMax, id ∈ (List.finRange vclockMax).tail ↔ id.val ≠ 0 := by
    decide
  rw [vclockCompareIgnore0, compareLoop_eq rfl, orderOf_nonpos]
  simp [ht]

lemma sum_lt_sum (h : a ≤ b) (hn : a ≠ b) : a.sum < b.sum := by
  obtain ⟨id, hi⟩ : ∃ id, a id ≠ b id := Function.ne_iff.mp hn
  exact Finset.sum_lt_sum (fun id _ => h id) ⟨id, Finset.mem_univ id, lt_of_le_of_ne (h id) hi⟩

/-- The components in order, and the address that breaks a tie. -/
def Consumer.rank (consumer : Consumer) : List Nat :=
  (List.finRange vclockMax).map consumer.vclock ++ [consumer.address]

lemma lexLoop_cmp (x y : Nat) : ids.map a ++ [x] < ids.map b ++ [y] ↔
      lexLoop a b ids < 0 ∨ lexLoop a b ids = 0 ∧ x < y := by
  induction ids with
  | nil => simp [lexLoop, cons_lt_cons_iff]
  | cons id ids ih =>
    rw [map_cons, map_cons, cons_append, cons_append, cons_lt_cons_iff, ih, lexLoop]
    split_ifs with hl hg
    · simp [hl]
    · simp [hl, Nat.ne_of_gt hg]
    · have he : a id = b id := by omega
      simp [he]

lemma gcConsumerCmp_neg {a b : Consumer} : gcConsumerCmp a b < 0 ↔ a.rank < b.rank := by
  rw [rank, rank, lexLoop_cmp, gcConsumerCmp, vclockLexCompare]
  simp only [ne_eq, ite_not]
  split_ifs <;> simp_all

lemma lexLoop_nonneg (h : b ≤ a) : 0 ≤ lexLoop a b ids := by
  induction ids with
  | nil => exact Int.le_refl 0
  | cons id ids ih =>
    have hi : b id ≤ a id := h id
    rw [lexLoop]
    split_ifs with hl hg
    · omega
    · decide
    · exact ih

end

section

variable {consumer other moved : Consumer} {consumers consumers' : List Consumer} {address : Nat}
  {vclock : Clock}

/-- The consumers in the tree are in order, and no two have the same address. -/
structure Tree (consumers : List Consumer) : Prop where
  inOrder : InOrder consumers
  nodup : (consumers.map Consumer.address).Nodup

lemma mem_gcTreeInsert : other ∈ gcTreeInsert consumer consumers ↔
    other = consumer ∨ other ∈ consumers := by
  induction consumers with
  | nil => simp [gcTreeInsert]
  | cons first rest ih =>
    rw [gcTreeInsert]
    split
    · simp
    · simp only [mem_cons, ih]
      tauto

lemma inOrder_iff : InOrder consumers ↔ consumers.Pairwise fun a b => a.rank < b.rank := by
  simp [InOrder, gcConsumerCmp_neg]

lemma inOrder_cons : InOrder (consumer :: consumers) ↔
    (∀ other ∈ consumers, consumer.rank < other.rank) ∧ InOrder consumers := by
  rw [inOrder_iff, inOrder_iff, pairwise_cons]

lemma inOrder_gcTreeInsert (h : InOrder consumers)
    (hf : ∀ other ∈ consumers, other.address ≠ consumer.address) :
    InOrder (gcTreeInsert consumer consumers) := by
  induction consumers with
  | nil => exact pairwise_singleton _ _
  | cons first rest ih =>
    obtain ⟨hfi, hr⟩ := inOrder_cons.mp h
    obtain ⟨hne, hf⟩ := forall_mem_cons.mp hf
    rw [gcTreeInsert]
    split
    · rename_i hl
      rw [gcConsumerCmp_neg] at hl
      refine inOrder_cons.mpr ⟨fun other ho => ?_, h⟩
      rcases mem_cons.mp ho with rfl | ho
      · exact hl
      · exact hl.trans (hfi other ho)
    · rename_i hn
      rw [gcConsumerCmp_neg, not_lt] at hn
      have hl : first.rank < consumer.rank := by
        refine lt_of_le_of_ne hn fun he => hne ?_
        have hla := congrArg List.getLast? he
        simpa [rank] using hla
      refine inOrder_cons.mpr ⟨fun other ho => ?_, ih hr hf⟩
      rcases mem_gcTreeInsert.mp ho with rfl | ho
      · exact hl
      · exact hfi other ho

lemma nodup_gcTreeInsert (h : (consumers.map Consumer.address).Nodup)
    (hf : ∀ other ∈ consumers, other.address ≠ consumer.address) :
    ((gcTreeInsert consumer consumers).map Consumer.address).Nodup := by
  induction consumers with
  | nil => simp [gcTreeInsert]
  | cons first rest ih =>
    obtain ⟨hn, hf'⟩ := forall_mem_cons.mp hf
    rw [map_cons, nodup_cons] at h
    rw [gcTreeInsert]
    split
    · refine nodup_cons.mpr ⟨fun hm => ?_, nodup_cons.mpr h⟩
      obtain ⟨other, ho, he⟩ := mem_map.mp hm
      exact hf other ho he
    · refine nodup_cons.mpr ⟨fun hm => ?_, ih h.2 hf'⟩
      obtain ⟨other, ho, he⟩ := mem_map.mp hm
      rcases mem_gcTreeInsert.mp ho with rfl | ho
      · exact hn he.symm
      · exact h.1 (mem_map.mpr ⟨other, ho, he⟩)

lemma Tree.insert (h : Tree consumers)
    (hf : ∀ other ∈ consumers, other.address ≠ consumer.address) :
    Tree (gcTreeInsert consumer consumers) :=
  ⟨inOrder_gcTreeInsert h.inOrder hf, nodup_gcTreeInsert h.nodup hf⟩

lemma Tree.filter (h : Tree consumers) (p : Consumer → Bool) : Tree (consumers.filter p) :=
  ⟨h.inOrder.filter p, h.nodup.sublist (filter_sublist.map _)⟩

lemma rank_le_of_le (hle : consumer.vclock ≤ vclock) :
    consumer.rank ≤ ({ consumer with vclock := vclock } : Consumer).rank := by
  rw [← not_lt, rank, rank, lexLoop_cmp]
  rintro (hl | ⟨-, hl⟩)
  · exact absurd (lexLoop_nonneg hle) (not_le.mpr hl)
  · exact lt_irrefl _ hl

lemma tree_cons (h : Tree (consumer :: consumers)) :
    (∀ other ∈ consumers, consumer.rank < other.rank ∧ other.address ≠ consumer.address) ∧
      Tree consumers := by
  obtain ⟨hr, hre⟩ := inOrder_cons.mp h.inOrder
  obtain ⟨hf, hn⟩ := nodup_cons.mp h.nodup
  refine ⟨fun other ho => ⟨hr other ho, fun he => hf ?_⟩, hre, hn⟩
  exact mem_map.mpr ⟨other, ho, he⟩

/-- A clock that grows within the bound of the next consumer does not change the order. -/
lemma inOrder_update (h : Tree consumers) (hm : consumer ∈ consumers)
    (hle : consumer.vclock ≤ vclock)
    (hn : ∀ other ∈ gcTreeNext consumer.address consumers,
      vclockLexCompare vclock other.vclock < 0) :
    InOrder (consumers.map fun other =>
      if other.address = consumer.address then { consumer with vclock := vclock } else other) := by
  induction consumers with
  | nil => exact Pairwise.nil
  | cons first rest ih =>
    obtain ⟨hf, hr⟩ := tree_cons h
    by_cases he : first.address = consumer.address
    · -- the consumer is the first one, and those after it stay
      have hs : (rest.map fun other => if other.address = consumer.address then
          { consumer with vclock := vclock } else other) = rest := by
        refine (map_congr_left fun other ho => ?_).trans (map_id rest)
        rw [← he]
        exact if_neg (hf other ho).2
      rw [map_cons, if_pos he, hs]
      refine inOrder_cons.mpr ⟨?_, hr.inOrder⟩
      rw [gcTreeNext, if_pos he] at hn
      cases rest with
      | nil => simp
      | cons next rest =>
        have hl : ({ consumer with vclock := vclock } : Consumer).rank < next.rank := by
          rw [rank, rank, lexLoop_cmp]
          exact .inl (hn next rfl)
        obtain ⟨ha, -⟩ := tree_cons hr
        intro other ho
        rcases mem_cons.mp ho with rfl | ho
        · exact hl
        · exact hl.trans (ha other ho).1
    · have hm : consumer ∈ rest := by
        rcases mem_cons.mp hm with rfl | hm
        · exact absurd rfl he
        · exact hm
      rw [gcTreeNext, if_neg he] at hn
      rw [map_cons, if_neg he]
      refine inOrder_cons.mpr ⟨fun other ho => ?_, ih hr hm hn⟩
      obtain ⟨old, hol, rfl⟩ := mem_map.mp ho
      split
      · exact (hf consumer hm).1.trans_le (rank_le_of_le hle)
      · exact (hf old hol).1

/-- `gc_consumer_advance` keeps the tree in order, as long as clocks only grow. -/
lemma Tree.advance (h : Tree consumers) (hm : consumer ∈ consumers)
    (hl : consumer.vclock ≤ vclock) :
    ∃ consumers', advanceConsumer consumer vclock consumers = some consumers' ∧
      Tree consumers' ∧ ∀ other ∈ consumers',
        other = { consumer with vclock := vclock } ∨ other ∈ consumers := by
  unfold advanceConsumer
  simp only
  split
  · have hf : ∀ other ∈ consumers.filter (·.address ≠ consumer.address),
        other.address ≠ consumer.address := fun other ho =>
      of_decide_eq_true (mem_filter.mp ho).2
    refine ⟨gcTreeInsert { consumer with vclock := vclock }
      (consumers.filter (·.address ≠ consumer.address)), ?_, (h.filter _).insert hf, ?_⟩
    · simp [gcTreeRemove, Checked.assertThat_of h.inOrder]
    · intro other ho
      rcases mem_gcTreeInsert.mp ho with rfl | ho
      · exact .inl rfl
      · exact .inr (mem_of_mem_filter ho)
  · rename_i hn
    refine ⟨_, rfl, ⟨inOrder_update h hm hl ?_, ?_⟩, ?_⟩
    · intro other ho
      by_contra hno
      exact hn (by simp [Option.mem_def.mp ho, Int.not_lt.mp hno])
    · have ha : ((consumers.map fun other => if other.address = consumer.address then
          { consumer with vclock := vclock } else other).map Consumer.address) =
          consumers.map Consumer.address := by
        rw [map_map]
        refine map_congr_left fun other _ => ?_
        simp only [Function.comp_apply]
        split
        · rename_i he
          exact he.symm
        · rfl
      rw [ha]
      exact h.nodup
    · intro other ho
      obtain ⟨old, hol, rfl⟩ := mem_map.mp ho
      split
      · exact .inl rfl
      · exact .inr hol

end

end TarantoolStorage.Gc
