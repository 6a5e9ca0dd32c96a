import TarantoolStorage.Vclock.Refinement

/-! How vclocks are ordered, after `vclock.h`. In a set of logs those without an order are equal. -/
namespace TarantoolStorage.Vclock

open Checked SearchTree List

/-- `vclock_compare`. -/
def compare (a b : Vclock) : Int := vclockCompareGeneric a b false

/-- The loop of `vclock_lex_compare`. -/
def lexLoop (a b : Vclock) : List Nat → Int
  | [] => 0
  | id :: ids =>
    if vclockGet a id < vclockGet b id then -1
    else if vclockGet a id > vclockGet b id then 1
    else lexLoop a b ids

def lexCompare (a b : Vclock) : Int := lexLoop a b (setBits (a.map ||| b.map))

/-- A vclock that operations have made: its signature is the sum of its non-negative components, or
it was cleared with `vclock_clear`. -/
structure Valid (v : Vclock) : Prop where
  nonneg : ∀ id, 0 ≤ vclockGet v id
  signature : v.signature = v.calcSum ∨ v.signature = -1 ∧ v.map = 0
  fits : InInt64 v.signature

section

variable {a b c v w : Vclock} {ids : List Nat} {id : Nat}

lemma vclockGet_of_unused (h : v.map.getLsbD id = false) : vclockGet v id = 0 := by
  rw [vclockGet, h]
  rfl

lemma eq_zero_of_unused (h : id ∉ setBits (a.map ||| b.map)) :
    vclockGet a id = 0 ∧ vclockGet b id = 0 := by
  rw [mem_setBits, BitVec.getLsbD_or, Bool.not_eq_true, Bool.or_eq_false_iff] at h
  exact ⟨vclockGet_of_unused h.1, vclockGet_of_unused h.2⟩

lemma mem_skipZero {map : BitVec 32} : id ∈ skipZero (setBits map) ↔ id ≠ 0 ∧ id ∈ setBits map := by
  have hr : (List.finRange vclockMax).tail.map Fin.val = range' 1 31 := by decide
  rw [skipZero_setBits, mem_filter, hr, mem_range'_1, mem_setBits]
  refine and_congr_left fun hb => ?_
  have hl := BitVec.lt_of_getLsbD hb
  omega

/-- What a comparison tells, from what holds of all components but the first that it leaves out. -/
lemma vclockCompareGeneric_spec (a b : Vclock) (ignoreZero : Bool) :
    ∃ le ge, vclockCompareGeneric a b ignoreZero = Gc.orderOf le ge ∧
      (le = true ↔ ∀ id, (ignoreZero = true → id ≠ 0) → vclockGet a id ≤ vclockGet b id) ∧
      (ge = true ↔ ∀ id, (ignoreZero = true → id ≠ 0) → vclockGet b id ≤ vclockGet a id) := by
  have hi (id : Nat) : id ∈ (if ignoreZero then skipZero (setBits (a.map ||| b.map))
      else setBits (a.map ||| b.map)) ↔
      (ignoreZero = true → id ≠ 0) ∧ id ∈ setBits (a.map ||| b.map) := by
    cases ignoreZero <;> simp [mem_skipZero]
  rw [vclockCompareGeneric_loop, compareLoop_eq rfl]
  refine ⟨_, _, rfl, ?_, ?_⟩
  all_goals
    simp only [Bool.true_and, all_eq_true, decide_eq_true_eq, hi, and_imp]
    refine forall₂_congr fun id _ => ⟨fun h => ?_, fun h _ => h⟩
    by_contra hnot
    have hz := eq_zero_of_unused fun hm => hnot (h hm)
    omega

lemma compare_spec (a b : Vclock) : ∃ le ge, compare a b = Gc.orderOf le ge ∧
    (le = true ↔ vclockGet a ≤ vclockGet b) ∧ (ge = true ↔ vclockGet b ≤ vclockGet a) := by
  obtain ⟨le, ge, he, hl, hg⟩ := vclockCompareGeneric_spec a b false
  simp only [Bool.false_eq_true, false_implies, true_implies] at hl hg
  exact ⟨le, ge, he, hl, hg⟩

lemma compare_nonpos : compare a b ≤ 0 ↔ vclockGet a ≤ vclockGet b := by
  obtain ⟨le, ge, he, hl, -⟩ := compare_spec a b
  rw [he, Gc.orderOf_nonpos, hl]

lemma compare_eq_neg_one : compare a b = -1 ↔ vclockGet a < vclockGet b := by
  obtain ⟨le, ge, he, hl, hg⟩ := compare_spec a b
  rw [he, lt_iff_le_not_ge, ← hl, ← hg]
  cases le <;> cases ge <;> decide

lemma calcSum_eq (v : Vclock) : v.calcSum = ∑ id ∈ Finset.range vclockMax, vclockGet v id := by
  have hn : (setBits v.map).Nodup := nodup_range.filter _
  have hb : (setBits v.map).toFinset =
      (Finset.range vclockMax).filter fun id => v.map.getLsbD id = true := by
    ext id
    simp [setBits, vclockMax]
  calc v.calcSum = ((setBits v.map).map v.lsn).sum := by rw [calcSum, items, map_map]; rfl
    _ = ∑ id ∈ (setBits v.map).toFinset, v.lsn id := (sum_toFinset v.lsn hn).symm
    _ = ∑ id ∈ Finset.range vclockMax, vclockGet v id := by rw [hb, Finset.sum_filter]; rfl

lemma Valid.calcSum_nonneg (h : v.Valid) : 0 ≤ v.calcSum := by
  rw [calcSum_eq]
  exact Finset.sum_nonneg fun id _ => h.nonneg id

lemma Valid.signature_lt (ha : a.Valid) (hb : b.Valid) (h : vclockGet a < vclockGet b) :
    a.signature < b.signature := by
  obtain ⟨hle, id, hl⟩ := Pi.lt_def.mp h
  have hi : id < vclockMax := by
    by_contra hi
    have hu (v : Vclock) : vclockGet v id = 0 :=
      vclockGet_of_unused (BitVec.getLsbD_of_ge _ _ (not_lt.mp hi))
    rw [hu, hu] at hl
    omega
  have hsu : a.calcSum < b.calcSum := by
    rw [calcSum_eq, calcSum_eq]
    exact Finset.sum_lt_sum (fun k _ => hle k) ⟨id, Finset.mem_range.mpr hi, hl⟩
  have hn := ha.calcSum_nonneg
  -- a vclock that was cleared has no component above another
  have hse : b.signature = b.calcSum := by
    refine hb.signature.resolve_right fun hc => ?_
    have hz : vclockGet b id = 0 := vclockGet_of_unused (by simp [hc.2])
    have hp := ha.nonneg id
    omega
  rcases ha.signature with hs | ⟨hs, -⟩ <;> omega

lemma Valid.reset_zero (h : v.Valid) : Ensures (v.reset 0 0) fun v' =>
    ∀ id, vclockGet v' id = if id = 0 then 0 else vclockGet v id := by
  have hn := h.nonneg 0
  have hr : InInt64 (v.signature - vclockGet v 0) := by
    have hf := h.fits.2
    rcases h.signature with hs | ⟨hs, hm⟩
    · have hle : vclockGet v 0 ≤ v.calcSum := by
        rw [calcSum_eq]
        exact Finset.single_le_sum (fun id _ => h.nonneg id) (by simp [vclockMax])
      constructor <;> omega
    · have hz : vclockGet v 0 = 0 := vclockGet_of_unused (by simp [hm])
      constructor <;> omega
  refine ensures_assert le_rfl (ensures_assert (by decide) (ensures_assert hr ?_))
  refine ensures_some fun id => ?_
  split_ifs with hi
  · simp [vclockGet, hi]
  · have hb : (v.map &&& ~~~BitVec.twoPow 32 0).getLsbD id = v.map.getLsbD id := by
      by_cases hl : id < 32
      · simp [hl, hi]
      · simp [BitVec.getLsbD_of_ge _ _ (not_lt.mp hl)]
    simp [vclockGet, hb]

lemma lexLoop_cases (a b : Vclock) (ids : List Nat) :
    lexLoop a b ids = 0 ∧ (∀ id ∈ ids, vclockGet a id = vclockGet b id) ∨
      ∃ front id back, ids = front ++ id :: back ∧ (∀ k ∈ front, vclockGet a k = vclockGet b k) ∧
        (lexLoop a b ids = -1 ∧ vclockGet a id < vclockGet b id ∨
          lexLoop a b ids = 1 ∧ vclockGet b id < vclockGet a id) := by
  induction ids with
  | nil => exact .inl ⟨rfl, by simp⟩
  | cons id ids ih =>
    rw [lexLoop]
    split_ifs with hl hg
    · exact .inr ⟨[], id, ids, rfl, by simp, .inl ⟨rfl, hl⟩⟩
    · exact .inr ⟨[], id, ids, rfl, by simp, .inr ⟨rfl, hg⟩⟩
    · have he : vclockGet a id = vclockGet b id := by omega
      rcases ih with ⟨hz, ha⟩ | ⟨front, k, back, rfl, hf, hc⟩
      · exact .inl ⟨hz, forall_mem_cons.mpr ⟨he, ha⟩⟩
      · exact .inr ⟨id :: front, k, back, rfl, forall_mem_cons.mpr ⟨he, hf⟩, hc⟩

lemma lexCompare_cases (a b : Vclock) :
    lexCompare a b = 0 ∧ toLex (vclockGet a) = toLex (vclockGet b) ∨
      lexCompare a b = -1 ∧ toLex (vclockGet a) < toLex (vclockGet b) ∨
      lexCompare a b = 1 ∧ toLex (vclockGet b) < toLex (vclockGet a) := by
  have ho (k : Nat) (hk : k ∉ setBits (a.map ||| b.map)) : vclockGet a k = vclockGet b k := by
    obtain ⟨ha, hb⟩ := eq_zero_of_unused hk
    rw [ha, hb]
  rcases lexLoop_cases a b (setBits (a.map ||| b.map)) with
    ⟨hz, hal⟩ | ⟨front, id, back, hi, hf, hc⟩
  · refine .inl ⟨hz, congrArg toLex (funext fun k => ?_)⟩
    by_cases hk : k ∈ setBits (a.map ||| b.map)
    · exact hal k hk
    · exact ho k hk
  · -- the components before the one that decides are in front of it, or not in use
    have hbe (k : Nat) (hk : k < id) : vclockGet a k = vclockGet b k := by
      by_cases hm : k ∈ setBits (a.map ||| b.map)
      · have hs : (setBits (a.map ||| b.map)).Pairwise (· < ·) := pairwise_lt_range.filter _
        rw [hi] at hm hs
        obtain ⟨-, hba, -⟩ := pairwise_append.mp hs
        rcases mem_append.mp hm with hm | hm
        · exact hf k hm
        · rcases mem_cons.mp hm with rfl | hm
          · omega
          · have hl := (pairwise_cons.mp hba).1 k hm
            omega
      · exact ho k hm
    rcases hc with ⟨he, hl⟩ | ⟨he, hg⟩
    · exact .inr (.inl ⟨he, id, hbe, hl⟩)
    · exact .inr (.inr ⟨he, id, fun k hk => (hbe k hk).symm, hg⟩)

lemma lexCompare_iff (a b : Vclock) :
    (lexCompare a b = 0 ↔ toLex (vclockGet a) = toLex (vclockGet b)) ∧
      (lexCompare a b = -1 ↔ toLex (vclockGet a) < toLex (vclockGet b)) ∧
      (lexCompare a b = 1 ↔ toLex (vclockGet b) < toLex (vclockGet a)) ∧
      (lexCompare a b ≤ 0 ↔ toLex (vclockGet a) ≤ toLex (vclockGet b)) := by
  rcases lexCompare_cases a b with ⟨hr, h⟩ | ⟨hr, h⟩ | ⟨hr, h⟩ <;> rw [hr]
  · exact ⟨iff_of_true rfl h, iff_of_false (by decide) h.not_lt,
      iff_of_false (by decide) h.not_gt, iff_of_true (by decide) h.le⟩
  · exact ⟨iff_of_false (by decide) h.ne, iff_of_true rfl h,
      iff_of_false (by decide) h.not_gt, iff_of_true (by decide) h.le⟩
  · exact ⟨iff_of_false (by decide) h.ne', iff_of_false (by decide) h.not_gt,
      iff_of_true rfl h, iff_of_false (by decide) h.not_ge⟩

lemma compareIgnore0_eq {a' b' : Vclock}
    (ha : ∀ id, vclockGet a' id = if id = 0 then 0 else vclockGet a id)
    (hb : ∀ id, vclockGet b' id = if id = 0 then 0 else vclockGet b id) :
    vclockCompareIgnore0 a b = compare a' b' := by
  obtain ⟨le, ge, he, hl, hg⟩ := vclockCompareGeneric_spec a b true
  obtain ⟨le', ge', he', hl', hg'⟩ := compare_spec a' b'
  have hs (v w v' w' : Vclock) (hv : ∀ id, vclockGet v' id = if id = 0 then 0 else vclockGet v id)
      (hw : ∀ id, vclockGet w' id = if id = 0 then 0 else vclockGet w id) :
      vclockGet v' ≤ vclockGet w' ↔
        ∀ id, (true = true → id ≠ 0) → vclockGet v id ≤ vclockGet w id := by
    refine forall_congr' fun id => ?_
    rw [hv, hw]
    by_cases hi : id = 0 <;> simp [hi]
  rw [hs a b a' b' ha hb, ← hl] at hl'
  rw [hs b a b' a' hb ha, ← hg] at hg'
  rw [vclockCompareIgnore0, he, he', Bool.eq_iff_iff.mpr hl', Bool.eq_iff_iff.mpr hg']

/-- The comparison decides the order by components, and the lexicographic one extends it to a
linear order; without component 0 the comparison is that of vclocks in which it is reset. -/
theorem vclock_compare_orders (a b c : Vclock) : (compare a b = 0 ↔ vclockGet a = vclockGet b) ∧
      (compare a b = -1 ↔ vclockGet a ≤ vclockGet b ∧ vclockGet a ≠ vclockGet b) ∧
      (compare a b = 1 ↔ vclockGet b ≤ vclockGet a ∧ vclockGet a ≠ vclockGet b) ∧
      (compare a b = vclockOrderUndefined ↔
        ¬ vclockGet a ≤ vclockGet b ∧ ¬ vclockGet b ≤ vclockGet a) ∧
      (compare a b ≤ 0 → compare b a ≤ 0 → compare a b = 0) ∧
      (compare a b ≤ 0 → compare b c ≤ 0 → compare a c ≤ 0) ∧
      (compare a b = -1 → compare b c = -1 → compare a c = -1) ∧
      (a.Valid → b.Valid → compare a b = -1 → a.signature < b.signature) ∧
      (compare a b = -1 → lexCompare a b = -1) ∧
      (lexCompare a b = 0 ↔ vclockGet a = vclockGet b) ∧
      (lexCompare a b = -1 ↔ lexCompare b a = 1) ∧
      (lexCompare a b = -1 ∨ lexCompare a b = 0 ∨ lexCompare a b = 1) ∧
      (lexCompare a b ≤ 0 → lexCompare b c ≤ 0 → lexCompare a c ≤ 0) ∧
      (a.Valid → b.Valid → Ensures (a.reset 0 0) fun a' => Ensures (b.reset 0 0) fun b' =>
        vclockCompareIgnore0 a b = compare a' b') := by
  obtain ⟨le, ge, heq, hle, hg⟩ := compare_spec a b
  have hlt := compare_eq_neg_one (a := a) (b := b)
  obtain ⟨he, hl, -, -⟩ := lexCompare_iff a b
  refine ⟨?_, ?_, ?_, ?_, ?_, ?_, ?_, ?_, ?_, ?_, ?_, ?_, ?_, ?_⟩
  · rw [heq, le_antisymm_iff (a := vclockGet a), ← hle, ← hg]
    cases le <;> cases ge <;> decide
  · rw [hlt, lt_iff_le_and_ne]
  · rw [heq, ne_comm, ← lt_iff_le_and_ne, lt_iff_le_not_ge, ← hle, ← hg]
    cases le <;> cases ge <;> decide
  · rw [heq, ← hle, ← hg]
    cases le <;> cases ge <;> decide
  · rw [compare_nonpos, compare_nonpos, heq, ← hle, ← hg]
    rintro rfl rfl
    rfl
  · simp only [compare_nonpos]
    exact le_trans
  · simp only [compare_eq_neg_one]
    exact lt_trans
  · exact fun ha hb h => ha.signature_lt hb (hlt.mp h)
  · intro h
    exact hl.mpr (Pi.toLex_strictMono (hlt.mp h))
  · rw [he, toLex_inj]
  · rw [hl, (lexCompare_iff b a).2.2.1]
  · rcases lexCompare_cases a b with ⟨hr, -⟩ | ⟨hr, -⟩ | ⟨hr, -⟩ <;> simp [hr]
  · rw [(lexCompare_iff a b).2.2.2, (lexCompare_iff b c).2.2.2, (lexCompare_iff a c).2.2.2]
    exact le_trans
  · intro ha hb
    exact ha.reset_zero.mono fun a' ha' => hb.reset_zero.mono fun b' hb' =>
      compareIgnore0_eq ha' hb'

end

section

variable {κ : Type} {s : κ → Vclock} {a b : κ}

/-- `vclockset_node_compare`, of vclocks in memory. -/
def nodeCompare (s : κ → Vclock) (a b : κ) : Int :=
  let res := compare (s a) (s b)
  if res = vclockOrderUndefined then 0 else res

/-- `vclockset_match`: from the vclock found on, `vclockset_prev` goes back in the order of the
tree to one that is not after the key. -/
def vclocksetMatch [DecidableEq κ] (s : κ → Vclock) (set : BinaryTree κ) (key : κ) : Option κ :=
  let unwound := (psearch (nodeCompare s) key set none).bind fun found =>
    (found :: ((inorder set).takeWhile (· ≠ found)).reverse).find? fun v =>
      compare (s v) (s key) ≤ 0
  unwound.or (inorder set).head?

lemma nodeCompare_neg : nodeCompare s a b < 0 ↔ vclockGet (s a) < vclockGet (s b) := by
  rw [← compare_eq_neg_one, nodeCompare]
  obtain ⟨le, ge, he, -, -⟩ := compare_spec (s a) (s b)
  rw [he]
  cases le <;> cases ge <;> decide

lemma nodeCompare_pos (h : vclockGet (s b) < vclockGet (s a)) : 0 < nodeCompare s a b := by
  obtain ⟨le, ge, he, hl, hg⟩ := compare_spec (s a) (s b)
  rw [lt_iff_le_not_ge, ← hl, ← hg] at h
  rw [nodeCompare, he, h.1, Bool.eq_false_iff.mpr h.2]
  decide

/-- In a set of vclocks one after the other the greatest that is not after the key is found,
whatever the key, and the first vclock if there is none. -/
theorem vclockset_match_greatest [DecidableEq κ] (s : κ → Vclock) (set : BinaryTree κ) (key : κ)
    (h : (inorder set).Pairwise fun a b => compare (s a) (s b) = -1) :
    (∃ m ∈ inorder set, vclocksetMatch s set key = some m ∧ vclockGet (s m) ≤ vclockGet (s key) ∧
        ∀ v ∈ inorder set, vclockGet (s v) ≤ vclockGet (s key) →
          vclockGet (s v) ≤ vclockGet (s m)) ∨
      (∀ v ∈ inorder set, ¬ vclockGet (s v) ≤ vclockGet (s key)) ∧
        vclocksetMatch s set key = (inorder set).head? := by
  simp only [compare_eq_neg_one] at h
  have hse : (inorder set).Pairwise fun a b =>
      nodeCompare s key a < 0 → nodeCompare s key b < 0 := by
    refine h.imp fun hlt hl => ?_
    rw [nodeCompare_neg] at hl ⊢
    exact hl.trans hlt
  have ha {v : κ} (hv : nodeCompare s key v < 0) : ¬ vclockGet (s v) ≤ vclockGet (s key) :=
    (nodeCompare_neg.mp hv).not_ge
  rcases psearch_split none hse with
    ⟨hn, hal⟩ | ⟨front, found, back, hst, hfo, hle, hls⟩
  · refine .inr ⟨fun v hv => ha (hal v hv), ?_⟩
    rw [vclocksetMatch, hn]
    rfl
  rw [hst] at h ⊢
  obtain ⟨hfr, hr, hc⟩ := pairwise_append.mp h
  have hb : ∀ v ∈ back, ¬ vclockGet (s v) ≤ vclockGet (s key) := by
    intro v hv hk
    by_cases hp : 0 < nodeCompare s key found
    · exact ha (hls hp v hv) hk
    · exact hp (nodeCompare_pos (((pairwise_cons.mp hr).1 v hv).trans_le hk))
  have hbe : (inorder set).takeWhile (· ≠ found) = front := by
    rw [hst, takeWhile_append_of_pos, takeWhile_cons_of_neg (by simp), append_nil]
    intro v hv
    have hlt := hc v hv found mem_cons_self
    refine decide_eq_true fun he => ?_
    rw [he] at hlt
    exact lt_irrefl _ hlt
  have hma : vclocksetMatch s set key = ((found :: front.reverse).find? fun v =>
      compare (s v) (s key) ≤ 0).or (front ++ found :: back).head? := by
    rw [vclocksetMatch, hfo, ← hst, ← hbe]
    rfl
  rw [hma]
  cases hf : (found :: front.reverse).find? fun v => compare (s v) (s key) ≤ 0 with
  | none =>
    refine .inr ⟨fun v hv => ?_, rfl⟩
    simp only [find?_eq_none, mem_cons, mem_reverse, decide_eq_true_eq, compare_nonpos] at hf
    rcases mem_append.mp hv with hv | hv
    · exact hf v (.inr hv)
    · exact (mem_cons.mp hv).elim (fun he => hf v (.inl he)) (hb v)
  | some m =>
    obtain ⟨hm, later, earlier, hs, hla⟩ := find?_eq_some_iff_append.mp hf
    rw [decide_eq_true_eq, compare_nonpos] at hm
    have hme (v : κ) : v ∈ front ++ found :: back ↔ v ∈ later ++ m :: earlier ∨ v ∈ back := by
      rw [← hs]
      simp only [mem_append, mem_cons, mem_reverse]
      tauto
    -- the vclocks further back are before the one at which the loop stops
    have hd : (later ++ m :: earlier).Pairwise fun a b => vclockGet (s b) < vclockGet (s a) := by
      rw [← hs]
      exact pairwise_cons.mpr
        ⟨fun v hv => hc v (mem_reverse.mp hv) found mem_cons_self, pairwise_reverse.mpr hfr⟩
    obtain ⟨-, hd, -⟩ := pairwise_append.mp hd
    refine .inl ⟨m, (hme m).mpr (.inl (by simp)), rfl, hm, fun v hv hk => ?_⟩
    rcases (hme v).mp hv with hv | hv
    · rcases mem_append.mp hv with hv | hv
      · have hno := hla v hv
        simp only [Bool.not_eq_true', decide_eq_false_iff_not, compare_nonpos] at hno
        exact absurd hk hno
      · rcases mem_cons.mp hv with rfl | hv
        · exact le_rfl
        · exact ((pairwise_cons.mp hd).1 v hv).le
    · exact absurd hk (hb v hv)

/-- The logs of `{1: 5}` and `{1: 7}` and a key with another component that is not ordered against
the second. -/
def twoLogs : Nat → Vclock
  | 0 => ⟨2, 5, fun _ => 5⟩
  | 1 => ⟨2, 7, fun _ => 7⟩
  | _ => ⟨6, 7, fun id => if id = 1 then 6 else 1⟩

theorem vclockset_match_two_logs : compare (twoLogs 1) (twoLogs 2) = vclockOrderUndefined ∧
    ∃ m, vclocksetMatch twoLogs (.node 1 (.node 0 .nil .nil) .nil) 2 = some m ∧
      vclockGet (twoLogs m) ≤ vclockGet (twoLogs 2) := by
  refine ⟨by decide, ?_⟩
  rcases vclockset_match_greatest twoLogs (.node 1 (.node 0 .nil .nil) .nil) 2 (by decide) with
    ⟨m, -, hm, hl, -⟩ | ⟨hn, -⟩
  · exact ⟨m, hm, hl⟩
  · exact absurd (compare_nonpos.mp (by decide)) (hn 0 (by decide))

end

end TarantoolStorage.Vclock
