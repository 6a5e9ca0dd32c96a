import TarantoolStorage.Limbo.Steps

/-!
Whom a quorum consists of: a transaction counts an instance once as long as no replica goes back.
-/
namespace TarantoolStorage

open Checked Relation Transition List LimboNode

/-- The instances that have acknowledged the LSN or a greater one. -/
def ackers (acked : List (Nat × Int)) (lsn : Int) : Finset Nat :=
  ((acked.filter fun ack => lsn ≤ ack.2).map Prod.fst).toFinset

/-- No instance acknowledges less than before. -/
def Rising (acked : List (Nat × Int)) : Prop :=
  acked.Pairwise fun a b => a.1 = b.1 → a.2 ≤ b.2

instance (acked : List (Nat × Int)) : Decidable (Rising acked) :=
  inferInstanceAs (Decidable (List.Pairwise _ _))

def LimboNode.foreignAcks (s : LimboNode) : List (Nat × Int) :=
  s.acked.filter fun ack => ack.1 ≠ s.instanceId

/-- The components of the clock that have reached the LSN. -/
def reached (v : Vclock) (lsn : Int) : Finset Nat :=
  (Finset.range vclockMax).filter fun id => lsn ≤ vclockGet v id

variable {s s' : LimboNode} {v v' : Vclock} {id replicaId : Nat} {lsn bound : Int}
  {acked more : List (Nat × Int)} {a : NodeAction} {actions : List NodeAction}

lemma mem_ackers : id ∈ ackers acked lsn ↔ ∃ n, (id, n) ∈ acked ∧ lsn ≤ n := by
  simp [ackers]

lemma ackers_mono (h : acked ⊆ more) (lsn : Int) : ackers acked lsn ⊆ ackers more lsn := by
  intro id hi
  obtain ⟨n, hn, hl⟩ := mem_ackers.mp hi
  exact mem_ackers.mpr ⟨n, h hn, hl⟩

lemma mem_reached : id ∈ reached v lsn ↔ id < vclockMax ∧ lsn ≤ vclockGet v id := by
  rw [reached, Finset.mem_filter, Finset.mem_range]

lemma vclockGet_move (hi : id < vclockMax) (k : Nat) :
    vclockGet (vclockMove v id lsn) k = if k = id then lsn else vclockGet v k := by
  have hb := bitSet_getLsbD v.map hi (k := k)
  by_cases hk : k = id
  · subst hk
    simp [vclockGet, vclockMove, hb]
  · simp [vclockGet, vclockMove, hb, hk]

/-- One component of the clock has moved, and in a build with assertions not backwards. -/
lemma follow_some (h : s.follow replicaId lsn = some v') : v' = vclockMove s.vclock replicaId lsn ∧
      (s.ndebug = false → vclockGet s.vclock replicaId < lsn) := by
  unfold follow at h
  split at h
  · rename_i hn
    exact ⟨(Option.some.inj h).symm, fun hd => absurd (hn.symm.trans hd) (by simp)⟩
  · unfold vclockFollow at h
    simp only [assert_bind_eq_some] at h
    obtain ⟨-, -, hg, ⟨⟩⟩ := h
    exact ⟨rfl, fun _ => hg⟩

lemma vclockCount_eq (hp : 0 < lsn) : vclockCount v lsn = (reached v lsn).card := by
  have hn : ((setBits v.map).filter fun id => lsn ≤ v.lsn id).Nodup :=
    (nodup_range.filter _).filter _
  rw [vclockCount, ← toFinset_card_of_nodup hn]
  congr 1
  ext id
  rw [mem_reached]
  simp only [mem_toFinset, mem_filter, mem_setBits, decide_eq_true_eq, vclockGet]
  constructor
  · rintro ⟨hb, hl⟩
    exact ⟨BitVec.lt_of_getLsbD hb, by simpa [hb] using hl⟩
  · rintro ⟨-, hl⟩
    split at hl
    · rename_i hb
      exact ⟨hb, hl⟩
    · omega

lemma reached_move (hi : id < vclockMax) (hl : vclockGet v id ≤ lsn) (bound : Int) :
    (reached v bound).card + (if vclockGet v id < bound ∧ bound ≤ lsn then 1 else 0) ≤
      (reached (vclockMove v id lsn) bound).card := by
  have hs : reached v bound ⊆ reached (vclockMove v id lsn) bound := by
    intro k hk
    rw [mem_reached] at hk ⊢
    rw [vclockGet_move hi]
    refine ⟨hk.1, ?_⟩
    split
    · rename_i he
      rw [he] at hk
      omega
    · exact hk.2
  split
  · rename_i ho
    have hn : id ∉ reached v bound := by
      rw [mem_reached]
      omega
    have hm : id ∈ reached (vclockMove v id lsn) bound := by
      rw [mem_reached, vclockGet_move hi]
      exact ⟨hi, by simpa using ho.2⟩
    rw [← Finset.card_insert_of_notMem hn]
    exact Finset.card_le_card (Finset.insert_subset hm hs)
  · simpa using Finset.card_le_card hs

/-- An acknowledgement is counted once for each LSN between the previous one and itself. -/
lemma ackLoop_counts {quorum prevLsn start confirmLsn : Int} {queue : List LimboEntry}
    {counts counts' : Nat → Int} (hi : queue.Pairwise fun a b => a.txn < b.txn)
    (h : ackLoop quorum prevLsn lsn queue counts start = some (counts', confirmLsn)) :
    (∀ txn, (∀ e ∈ queue, e.txn ≠ txn) → counts' txn = counts txn) ∧ ∀ e ∈ queue, counts' e.txn ≤
        counts e.txn + if prevLsn < e.lsn ∧ e.lsn ≤ lsn then 1 else 0 := by
  induction queue generalizing counts start with
  | nil =>
    cases h
    exact ⟨fun _ _ => rfl, by simp⟩
  | cons e rest ih =>
    obtain ⟨hf, hr⟩ := pairwise_cons.mp hi
    have hn : ∀ d ∈ rest, d.txn ≠ e.txn := fun d hd => Nat.ne_of_gt (hf d hd)
    -- the rest of the loop starts with the counts after this entry
    have hco {c : Nat → Int} {n : Int} (ho : ∀ txn, txn ≠ e.txn → c txn = counts txn)
        (hc : c e.txn ≤ counts e.txn + if prevLsn < e.lsn ∧ e.lsn ≤ lsn then 1 else 0)
        (hl : ackLoop quorum prevLsn lsn rest c n = some (counts', confirmLsn)) :
        (∀ txn, (∀ d ∈ e :: rest, d.txn ≠ txn) → counts' txn = counts txn) ∧
          ∀ d ∈ e :: rest, counts' d.txn ≤
            counts d.txn + if prevLsn < d.lsn ∧ d.lsn ≤ lsn then 1 else 0 := by
      obtain ⟨hs, hle⟩ := ih hr hl
      constructor
      · intro txn ht
        rw [forall_mem_cons] at ht
        rw [hs txn ht.2, ho txn ht.1.symm]
      · rw [forall_mem_cons]
        refine ⟨by rw [hs e.txn hn]; exact hc, fun d hd => ?_⟩
        rw [← ho d.txn (hn d hd)]
        exact hle d hd
    simp only [ackLoop] at h
    obtain ⟨-, h⟩ := assert_bind_eq_some.mp h
    split at h
    · cases h
      refine ⟨fun _ _ => rfl, fun d _ => ?_⟩
      split <;> omega
    · rename_i hg
      have hse : counts e.txn ≤ counts e.txn + if prevLsn < e.lsn ∧ e.lsn ≤ lsn then 1 else 0 := by
        split <;> omega
      split at h
      · obtain ⟨-, h⟩ := assert_bind_eq_some.mp h
        exact hco (fun _ _ => rfl) hse h
      · split at h
        · exact hco (fun _ _ => rfl) hse h
        · rename_i hp
          refine hco (fun txn ht => Function.update_of_ne ht _ _) ?_ h
          rw [Function.update_self, if_pos (by omega)]

/-- How the counts of the waiting transactions come from the acknowledgements. -/
structure LimboNode.Counted (s : LimboNode) : Prop where
  acked_ok : ∀ ack ∈ s.acked, ack.1 < vclockMax ∧ 0 ≤ ack.2
  own : ∀ ack ∈ s.acked, ack.1 = s.instanceId → ack.2 ≤ s.walLsn ∧ ∀ w ∈ s.written, ack.2 < w.2
  own_rising : Rising (s.acked.filter fun ack => ack.1 = s.instanceId)
  heard : ∀ id, vclockGet s.vclock id ≠ 0 → (id, vclockGet s.vclock id) ∈ s.acked
  uncounted : ∀ p ∈ s.slots, p.2 = -1 ∨ s.limbo.ownerId ≠ s.instanceId → s.ackCount p.1 = 0
  counted : ∀ p ∈ s.slots, 0 < p.2 → s.ackCount p.1 ≤ vclockCount s.vclock p.2
  quorum_pos : 0 < s.quorum
  confirmed : ∀ c ∈ s.confirms, c.2 ≤ (ackers s.acked c.1).card

section

variable (h : s.Counted)
include h

lemma LimboNode.Counted.reached_subset (hp : 0 < lsn) :
    reached s.vclock lsn ⊆ ackers s.acked lsn := by
  intro id hi
  have hl : lsn ≤ vclockGet s.vclock id := (mem_reached.mp hi).2
  exact mem_ackers.mpr ⟨_, h.heard id (by omega), hl⟩

lemma LimboNode.Counted.count_le {e : LimboEntry} (he : e ∈ s.limbo.queue)
    (hp : 0 < e.lsn) : s.ackCount e.txn ≤ (ackers s.acked e.lsn).card := by
  have hl : s.ackCount e.txn ≤ vclockCount s.vclock e.lsn := h.counted e.slot (mem_map_of_mem he) hp
  rw [vclockCount_eq hp] at hl
  have hc := Finset.card_le_card (h.reached_subset hp)
  omega

lemma LimboNode.Counted.get_nonneg (id : Nat) : 0 ≤ vclockGet s.vclock id := by
  by_cases hz : vclockGet s.vclock id = 0
  · omega
  · exact (h.acked_ok _ (h.heard id hz)).2

section

variable (ho : s.Ordered)
include ho

/-- The counts of the transactions that stay do not change, and those of new ones are zero. -/
lemma LimboNode.Counted.sameAcks (ha : s.SameAcks s')
    (hi : s'.instanceId = s.instanceId) (hwa : s.walLsn ≤ s'.walLsn)
    (hwr : ∀ w ∈ s'.written, w ∈ s.written ∨ s.walLsn < w.2)
    (hs : ∀ p ∈ s'.slots, p ∈ s.slots ∧ s'.limbo.ownerId = s.limbo.ownerId ∨ s'.ackCount p.1 = 0)
    (hc : ∀ c ∈ s'.confirms, c.2 ≤ (ackers s.acked c.1).card) : s'.Counted := by
  refine ⟨ha.acked ▸ h.acked_ok, ?_, ?_, ?_, ?_, ?_, ha.quorum h.quorum_pos, ?_⟩
  · rw [ha.acked, hi]
    intro ack hac he
    obtain ⟨hl, hlt⟩ := h.own ack hac he
    exact ⟨hl.trans hwa, fun w hw => (hwr w hw).elim (hlt w) hl.trans_lt⟩
  · rw [ha.acked, hi]
    exact h.own_rising
  · rw [ha.acked, ha.vclock]
    exact h.heard
  · intro p hp hor
    rcases hs p hp with ⟨hp, how⟩ | hz
    · rw [how, hi] at hor
      rw [ha.counts p.1 (ho.id_lt p hp)]
      exact h.uncounted p hp hor
    · exact hz
  · intro p hp hpo
    rcases hs p hp with ⟨hp, -⟩ | hz
    · rw [ha.counts p.1 (ho.id_lt p hp), ha.vclock]
      exact h.counted p hp hpo
    · simp [hz]
  · rw [ha.acked]
    exact hc

lemma LimboNode.Counted.shrink (hs : s.Shrinks s')
    (ha : s.SameAcks s') (hc : ∀ c ∈ s'.confirms, c.2 ≤ (ackers s.acked c.1).card) :
    s'.Counted :=
  h.sameAcks ho ha hs.instance_eq hs.wal (fun _ hw => .inl (hs.written.mem hw))
    (fun _ hp => .inl ⟨hs.slots.mem hp, hs.owner hp⟩) hc

lemma LimboNode.Counted.push (hp : s.Pushes s' lsn)
    (ha : s.SameAcks s') (hc : s'.confirms = s.confirms) (hn : s'.ackCount s.nextTxn = 0) :
    s'.Counted := by
  refine h.sameAcks ho ha hp.instance_eq hp.wal.ge (hp.written ▸ fun _ => .inl) ?_
    (hc ▸ h.confirmed)
  rw [hp.slots, forall_mem_append, forall_mem_singleton]
  exact ⟨fun p hm => .inl ⟨hm, hp.owner_eq⟩, .inr hn⟩

lemma LimboNode.Counted.wake {txn : Nat}
    (hw : s.Wakes s' txn lsn) (ha : s.SameAcks s') (hc : s'.confirms = s.confirms) :
    s'.Counted := by
  refine h.sameAcks ho ha hw.instance_eq (hw.wal ▸ hw.lsn_gt.le) ?_
    (hw.slots ▸ fun p hp => .inl ⟨hp, hw.owner_eq⟩) (hc ▸ h.confirmed)
  rw [hw.written, forall_mem_append, forall_mem_singleton]
  exact ⟨fun _ => .inl, .inr hw.lsn_gt⟩

lemma LimboNode.Counted.assign {txn : Nat} (hf : s.Fibered)
    (ha : s.Assigns s' txn lsn)
    (hco : s'.ackCount = Function.update s.ackCount txn (vclockCount s.vclock lsn))
    (hac : s'.acked = s.acked ++ [(s.instanceId, lsn)]) (hv : s'.vclock = s.vclock)
    (hcn : s'.confirms = s.confirms) (hqu : s'.quorum = s.quorum) : s'.Counted := by
  have hwm : (txn, lsn) ∈ s.written := by simp [ha.written]
  have hls := ho.written_le _ hwm
  have hs : s.acked ⊆ s'.acked := by
    rw [hac]
    exact subset_append_left _ _
  refine ⟨?_, ?_, ?_, ?_, ?_, ?_, hqu ▸ h.quorum_pos, ?_⟩
  · rw [hac, forall_mem_append, forall_mem_singleton]
    exact ⟨h.acked_ok, hf.instance_lt, hls.1.le⟩
  · rw [hac, ha.instance_eq, ha.wal, forall_mem_append, forall_mem_singleton]
    refine ⟨fun ack hak he => ?_, fun _ => ⟨hls.2, fun w hw => ?_⟩⟩
    · obtain ⟨hle, hlt⟩ := h.own ack hak he
      exact ⟨hle, fun w hw => hlt w (by rw [ha.written]; exact mem_cons_of_mem _ hw)⟩
    · exact (pairwise_cons.mp (ha.written ▸ ho.written_increasing)).1 w hw
  · rw [hac, ha.instance_eq, filter_append]
    refine pairwise_append.mpr ⟨h.own_rising, (pairwise_singleton _ _).filter _, ?_⟩
    intro a how b hl _
    obtain ⟨hm, he⟩ := mem_filter.mp how
    obtain rfl : b = (s.instanceId, lsn) := mem_singleton.mp (mem_of_mem_filter hl)
    exact ((h.own a hm (by simpa using he)).2 _ hwm).le
  · rw [hv]
    exact fun id hi => hs (h.heard id hi)
  · rw [ha.slots, ha.owner_eq, ha.instance_eq, hco]
    intro p hp hor
    obtain ⟨q, hq, rfl⟩ := mem_map.mp hp
    by_cases hqt : q.1 = txn
    · simp only [hqt, if_true, ha.owner, ne_eq, not_true, or_false] at hor
      omega
    · simp only [hqt, if_false] at hor ⊢
      rw [Function.update_of_ne hqt]
      exact h.uncounted q hq hor
  · rw [ha.slots, hv, hco]
    intro p hp hpo
    obtain ⟨q, hq, rfl⟩ := mem_map.mp hp
    by_cases hqt : q.1 = txn
    · simp [hqt]
    · simp only [hqt, if_false] at hpo ⊢
      rw [Function.update_of_ne hqt]
      exact h.counted q hq hpo
  · rw [hcn]
    intro c hc
    have hle := h.confirmed c hc
    have hca := Finset.card_le_card (ackers_mono hs c.1)
    omega

end

lemma LimboNode.Counted.get_le (hc : s.Counts s' replicaId lsn)
    (hr : s.ndebug = true → Rising s.foreignAcks) : vclockGet s.vclock replicaId ≤ lsn := by
  cases hn : s.ndebug with
  | false => exact ((follow_some hc.follow).2 hn).le
  | true =>
    obtain ⟨earlier, ha⟩ := getLast?_eq_some_iff.mp hc.last
    have hl : (replicaId, lsn) ∈ s.acked := by simp [ha]
    have hno := (h.acked_ok _ hl).2
    by_cases hz : vclockGet s.vclock replicaId = 0
    · omega
    have hpr : (replicaId, vclockGet s.vclock replicaId) ∈ earlier := by
      have hm := h.heard replicaId hz
      rw [ha] at hm
      rcases mem_append.mp hm with hm | hm
      · exact hm
      · exact absurd (congrArg Prod.snd (mem_singleton.mp hm)).symm hc.new
    -- the previous acknowledgement stands before this one in the list of its kind
    have hk {p : Nat × Int → Bool} (hp : Rising (s.acked.filter p))
        (hb : ∀ n, p (replicaId, n) = true) : vclockGet s.vclock replicaId ≤ lsn := by
      rw [ha, filter_append] at hp
      refine (pairwise_append.mp hp).2.2 _ (mem_filter.mpr ⟨hpr, hb _⟩) (replicaId, lsn) ?_ rfl
      exact mem_filter.mpr ⟨mem_singleton_self _, hb _⟩
    by_cases ho : replicaId = s.instanceId
    · exact hk h.own_rising fun _ => by simpa using ho
    · exact hk (hr hn) fun _ => by simpa using ho

lemma LimboNode.Counted.count (ho : s.Ordered) (hs : s.Shrinks s')
    (hsl : s'.slots = s.slots) (hc : s.Counts s' replicaId lsn)
    (hr : s.ndebug = true → Rising s.foreignAcks) : s'.Counted := by
  obtain ⟨confirmLsn, hl⟩ := hc.loop
  obtain ⟨hv, -⟩ := follow_some hc.follow
  have hla : (replicaId, lsn) ∈ s.acked := mem_of_getLast? hc.last
  obtain ⟨hi, hn⟩ := h.acked_ok _ hla
  have hle := h.get_le hc hr
  have hpr := h.get_nonneg replicaId
  have hco (p : Nat × Int) (hp : p ∈ s.slots) : s'.ackCount p.1 ≤ s.ackCount p.1 +
      if vclockGet s.vclock replicaId < p.2 ∧ p.2 ≤ lsn then 1 else 0 := by
    obtain ⟨e, he, rfl⟩ := mem_map.mp hp
    exact (ackLoop_counts ho.queue_ids hl).2 e he
  refine ⟨hc.acked ▸ h.acked_ok, ?_, ?_, ?_, ?_, ?_, hc.quorum ▸ h.quorum_pos, ?_⟩
  · rw [hc.acked, hs.instance_eq]
    intro ack ha heq
    obtain ⟨hwa, hlt⟩ := h.own ack ha heq
    exact ⟨hwa.trans hs.wal, fun w hw => hlt w (hs.written.mem hw)⟩
  · rw [hc.acked, hs.instance_eq]
    exact h.own_rising
  · rw [hc.acked, hv]
    intro k hk
    rw [vclockGet_move hi] at hk ⊢
    split
    · rename_i heq
      rw [heq]
      exact hla
    · rename_i heq
      rw [if_neg heq] at hk
      exact h.heard k hk
  · rw [hsl, hs.instance_eq]
    intro p hp hor
    rw [hs.owner (hsl ▸ hp)] at hor
    have hno : p.2 = -1 := hor.resolve_right fun hne => hne hc.owner
    have hz := h.uncounted p hp hor
    have hu := hco p hp
    have hd := (ackLoop_some hl).1 p.1
    rw [if_neg (by omega)] at hu
    omega
  · rw [hsl, hv]
    intro p hp hpo
    have hcn := h.counted p hp hpo
    have hu := hco p hp
    have hm := reached_move hi hle p.2
    rw [vclockCount_eq hpo] at hcn ⊢
    by_cases hov : vclockGet s.vclock replicaId < p.2 ∧ p.2 ≤ lsn
    · simp only [hov, and_self, if_true] at hu hm
      omega
    · simp only [hov, if_false] at hu hm
      omega
  · rw [hc.acked, hc.confirms]
    exact h.confirmed

lemma LimboNode.Counted.quorum_le (ho : s.Ordered) {e : LimboEntry}
    (he : e ∈ s.limbo.queue) (hl : s.quorum ≤ s.ackCount e.txn) :
    s.quorum ≤ (ackers s.acked e.lsn).card := by
  have hs : e.slot ∈ s.slots := mem_map_of_mem he
  have hp := h.quorum_pos
  have hpo : 0 < e.lsn := by
    refine (ho.lsn e.slot hs).resolve_left fun hn => ?_
    have hz : s.ackCount e.txn = 0 := h.uncounted e.slot hs (.inl hn)
    omega
  exact hl.trans (h.count_le he hpo)

end

lemma Rising.of_append (h : Rising (acked ++ more)) : Rising acked := (pairwise_append.mp h).1

lemma LimboNode.Shape.foreignAcks_eq (hs : s.Shape s') :
    s'.foreignAcks = s.foreignAcks ∧ s'.ndebug = s.ndebug ∧ s'.instanceId = s.instanceId := by
  have hsa (hac : s'.acked = s.acked) (hi : s'.instanceId = s.instanceId) :
      s'.foreignAcks = s.foreignAcks := by
    simp [foreignAcks, hac, hi]
  cases hs with
  | shrink hs ha _ | confirm _ hs ha _ _ =>
    exact ⟨hsa ha.acked hs.instance_eq, ha.ndebug, hs.instance_eq⟩
  | push _ hp ha _ _ => exact ⟨hsa ha.acked hp.instance_eq, ha.ndebug, hp.instance_eq⟩
  | wake _ _ hw ha _ => exact ⟨hsa ha.acked hw.instance_eq, ha.ndebug, hw.instance_eq⟩
  | assign _ _ ha _ hac _ _ _ hn =>
    refine ⟨?_, hn, ha.instance_eq⟩
    simp [foreignAcks, hac, ha.instance_eq]
  | count _ _ hs _ hc => exact ⟨hsa hc.acked hs.instance_eq, hc.ndebug, hs.instance_eq⟩

/-- The counts are right as long as nobody has acknowledged less than before. -/
def LimboNode.CountedIfRising (s : LimboNode) : Prop :=
  (s.ndebug = true → Rising s.foreignAcks) → s.Counted

lemma LimboNode.Shape.counted (hs : s.Shape s') (ho : s.Ordered) (hf : s.Fibered)
    (h : s.CountedIfRising) : s'.CountedIfRising := by
  intro hr
  obtain ⟨hfo, hn, -⟩ := hs.foreignAcks_eq
  rw [hfo, hn] at hr
  have h := h hr
  cases hs with
  | shrink hs ha hc => exact h.shrink ho hs ha (hc ▸ h.confirmed)
  | push _ hp ha hc hne => exact h.push ho hp ha hc hne
  | wake _ _ hw ha hc => exact h.wake ho hw ha hc
  | assign _ _ ha hco hac hv hc hq _ => exact h.assign ho hf ha hco hac hv hc hq
  | count _ _ hs hsl hc => exact h.count ho hs hsl hc hr
  | confirm _ hs ha hc hq =>
    refine h.shrink ho hs ha ?_
    obtain ⟨e, he, -, rfl, hl⟩ := hq
    rw [hc, forall_mem_append, forall_mem_singleton]
    exact ⟨h.confirmed, h.quorum_le ho he hl⟩

/-- The replicas that are heard are others, with ids of the cluster. -/
lemma hearing_acked (hv : s.Valid a) :
    ∃ more, (s.hearing a).acked = s.acked ++ more ∧ more.Sublist a.acks ∧
      ∀ ack ∈ more, ack.1 < vclockMax ∧ ack.1 ≠ s.instanceId ∧ 0 ≤ ack.2 := by
  refine ⟨_, rfl, ?_, ?_⟩
  · split
    · exact Sublist.refl _
    · exact nil_sublist _
  · split
    · cases a with
      | ack replicaId lsn =>
        intro ack ha
        rw [mem_singleton.mp ha]
        exact hv
      | _ => simp [NodeAction.acks]
    · simp

/-- What a replica has acknowledged is recorded, and nothing is counted by that. -/
lemma LimboNode.CountedIfRising.hear (h : s.CountedIfRising) (hv : s.Valid a) :
    (s.hearing a).CountedIfRising := by
  obtain ⟨more, ha, -, hm⟩ := hearing_acked hv
  intro hr
  have h : s.Counted := by
    refine h fun hn => ?_
    have hal := hr hn
    rw [foreignAcks, ha, filter_append] at hal
    exact hal.of_append
  have hno : more.filter (fun ack => ack.1 = s.instanceId) = [] :=
    filter_eq_nil_iff.mpr fun ack hac => by simpa using (hm ack hac).2.1
  refine ⟨?_, ?_, ?_, ?_, h.uncounted, h.counted, h.quorum_pos, ?_⟩
  · rw [ha, forall_mem_append]
    exact ⟨h.acked_ok, fun ack hac => ⟨(hm ack hac).1, (hm ack hac).2.2⟩⟩
  · rw [ha, forall_mem_append]
    exact ⟨h.own, fun ack hac he => absurd he (hm ack hac).2.1⟩
  · rw [ha, filter_append]
    change Rising (_ ++ more.filter fun ack => ack.1 = s.instanceId)
    rw [hno, append_nil]
    exact h.own_rising
  · intro id hi
    rw [ha]
    exact mem_append_left _ (h.heard id hi)
  · intro c hc
    have hl := h.confirmed c hc
    have hs : s.acked ⊆ (s.hearing a).acked := ha ▸ subset_append_left _ _
    have hca := Finset.card_le_card (ackers_mono hs c.1)
    omega

lemma LimboNode.Fresh.counted (h : s.Fresh) : s.Counted := by
  have hs : s.slots = [] := slots_nil_iff.mpr h.queue_eq
  have hg (id : Nat) : vclockGet s.vclock id = 0 := by
    simp [h.vclock_eq, vclockGet, vclockCreate]
  constructor <;> simp [h.acked_eq, h.confirms_eq, hs, hg, h.quorum_pos, Rising]

lemma hearing_foreignAcks : s.foreignAcks.Sublist (s.hearing a).foreignAcks := by
  rw [foreignAcks, foreignAcks, hearing, filter_append]
  exact sublist_append_left _ _

lemma run_foreignAcks (ho : s.Ordered) (hf : s.Fibered) (hv : Along step Valid s actions)
    (hru : run step s actions = some s') :
    s'.foreignAcks.Sublist (s.foreignAcks ++ actions.flatMap NodeAction.acks) ∧
      s'.ndebug = s.ndebug := by
  induction actions generalizing s with
  | nil =>
    obtain rfl := Option.some.inj hru
    simp
  | cons a actions ih =>
    obtain ⟨t, hstep, hr⟩ := Option.bind_eq_some_iff.mp hru
    obtain ⟨hot, hft, hfo, hn⟩ := step_invariant
      (P := fun t => t.foreignAcks.Sublist (s.hearing a).foreignAcks ∧ t.ndebug = s.ndebug)
      (fun hi _ => by
        obtain ⟨ha, hn, -⟩ := hi.shape.foreignAcks_eq
        exact ⟨ha ▸ hearing_foreignAcks, hn⟩)
      (fun he ho _ hp => by
        obtain ⟨ha, hn, -⟩ := he.shape.foreignAcks_eq
        exact ⟨ha ▸ hp.1, hn.trans hp.2⟩)
      hv.1 hstep ho hf ⟨Sublist.refl _, rfl⟩
    obtain ⟨hsu, hs⟩ := ih hot hft (hv.2 t hstep) hr
    refine ⟨hsu.trans ?_, hs.trans hn⟩
    obtain ⟨more, hac, hm, -⟩ := hearing_acked hv.1
    have hh : (s.hearing a).foreignAcks.Sublist (s.foreignAcks ++ a.acks) := by
      rw [foreignAcks, hac, filter_append]
      exact Sublist.append (Sublist.refl _) (filter_sublist.trans hm)
    rw [flatMap_cons, ← append_assoc]
    exact Sublist.append (hfo.trans hh) (Sublist.refl _)

/-- In every run the counts are right, if the replicas do not go back or the build has the
assertion of `vclock_follow`. -/
lemma run_counted {start : LimboNode} (hfr : start.Fresh) (hva : Along step Valid start actions)
    (hr : start.ndebug = true → Rising (actions.flatMap NodeAction.acks))
    (hru : run step start actions = some s) : s.Ordered ∧ s.Fibered ∧ s.Counted := by
  obtain ⟨ho, hf, h⟩ := run_effects_invariant (P := CountedIfRising)
    (fun he ho hf h => he.shape.counted ho hf h)
    (fun he ho hf h => he.shape.counted ho hf h) (fun hv h => h.hear hv) hfr hva hru
    fun _ => hfr.counted
  refine ⟨ho, hf, h fun hn => ?_⟩
  obtain ⟨hsu, hs⟩ := run_foreignAcks hfr.ordered hfr.fibered hva hru
  have hni : start.foreignAcks = [] := by simp [foreignAcks, hfr.acked_eq]
  rw [hni, nil_append] at hsu
  exact (hr (hs.symm.trans hn)).sublist hsu

/-- CONFIRM is written for an LSN only when a quorum of instances has acknowledged it, and no
count exceeds the number of instances that have. -/
theorem confirm_has_quorum {start : LimboNode} {actions : List NodeAction} (hfresh : start.Fresh)
    (hvalid : Along step Valid start actions)
    (hrising : start.ndebug = true → Rising (actions.flatMap NodeAction.acks))
    (hrun : run step start actions = some s) :
    (∀ c ∈ s.confirms, c.2 ≤ (ackers s.acked c.1).card) ∧
      ∀ e ∈ s.limbo.queue, e.lsn ≠ -1 → s.ackCount e.txn ≤ (ackers s.acked e.lsn).card := by
  obtain ⟨ho, -, h⟩ := run_counted hfresh hvalid hrising hrun
  refine ⟨h.confirmed, fun e he hl => h.count_le he ?_⟩
  exact (ho.lsn e.slot (mem_map_of_mem he)).resolve_left hl

/-- The transaction is confirmed when two replicas have acknowledged it, one of them before
it had its LSN. -/
def acknowledged : List NodeAction :=
  [.commit true true, .walDone 5 5, .ack 2 3, .ack 2 5, .run, .ack 3 7, .ack 3 7]

theorem confirm_has_quorum_of_three :
    ∃ s, run step (owningNode true 3) acknowledged = some s ∧ s.confirms = [(5, 3)] ∧
      (3 : Int) ≤ (ackers s.acked 5).card := by
  have hf : (owningNode true 3).Fresh := owningNode_fresh (by decide)
  have hv : Along step Valid (owningNode true 3) acknowledged := by decide
  have hq := (confirm_has_quorum hf hv (fun _ => by decide) rfl).1 (5, 3) (by decide)
  exact ⟨_, rfl, rfl, hq⟩

/-- Replica 2 acknowledges an LSN, a lower one, and the first one again. -/
def steppingBack : List NodeAction :=
  [.commit true true, .walDone 5 5, .run, .ack 2 5, .ack 2 3, .ack 2 5]

/-- It is counted twice, and CONFIRM is written for a quorum of three that two instances make up.
An assertion of `vclock_follow` would have stopped this. -/
theorem lower_ack_counted_twice : Along step Valid (owningNode true 3) steppingBack ∧
      (∃ s, run step (owningNode true 3) steppingBack = some s ∧
        s.confirms = [(5, 3)] ∧ (ackers s.acked 5).card = 2) ∧
      run step (owningNode false 3) steppingBack = none :=
  ⟨by decide, ⟨_, rfl, rfl, by decide⟩, rfl⟩

end TarantoolStorage
