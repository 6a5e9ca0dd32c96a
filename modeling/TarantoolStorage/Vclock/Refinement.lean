import TarantoolStorage.Gc.Order
import TarantoolStorage.Lib.Run

/-!
Vector clocks as finite maps (`vclock.h`). A component is dropped by its bit alone and a copy moves
only a part of the array.
-/
namespace TarantoolStorage.Vclock

open Checked Transition List Function

/-- A signed sum outside of the range of `int64_t` has no meaning. -/
def InInt64 (z : Int) : Prop := -2 ^ 63 ≤ z ∧ z < 2 ^ 63

instance (z : Int) : Decidable (InInt64 z) := inferInstanceAs (Decidable (_ ∧ _))

/-- `vclock_create`: of the array only the first entry is written. -/
def create (v : Vclock) : Vclock :=
  { map := 0, signature := 0, lsn := update v.lsn 0 0 }

/-- `vclock_inc`, with the LSN it returns. -/
def inc (v : Vclock) (id : Nat) : Option (Int × Vclock) := do
  assertThat (id < vclockMax)
  let v := if v.map.getLsbD id then v
    else { v with lsn := update v.lsn id 0, map := (bitSet v.map id).1 }
  assertThat (InInt64 (v.signature + 1))
  assertThat (InInt64 (v.lsn id + 1))
  return (v.lsn id + 1, { v with
    signature := v.signature + 1
    lsn := update v.lsn id (v.lsn id + 1) })

/-- `vclock_follow`, with the previous LSN that it returns. -/
def follow (v : Vclock) (id : Nat) (lsn : Int) : Option (Int × Vclock) := do
  let followed ← vclockFollow v id lsn
  assertThat (InInt64 followed.signature)
  return (vclockGet v id, followed)

/-- `vclock_reset`: a zero takes the component out of the map and leaves the array alone. -/
def reset (v : Vclock) (id : Nat) (lsn : Int) : Option Vclock := do
  assertThat (lsn ≥ 0)
  assertThat (id < vclockMax)
  let rest := v.signature - vclockGet v id
  assertThat (InInt64 rest)
  if lsn = 0 then
    return { v with signature := rest, map := v.map &&& ~~~BitVec.twoPow 32 id }
  else do
    assertThat (InInt64 (rest + lsn))
    return {
      map := (bitSet v.map id).1
      lsn := update v.lsn id lsn
      signature := rest + lsn }

/-- `vclock_copy`: the array is copied up to the highest component in use. -/
def copy (dst src : Vclock) : Vclock :=
  let maxPos := vclockMax - (src.map ||| 1).clz.toNat
  { map := src.map
    signature := src.signature
    lsn := fun k => if k < maxPos then src.lsn k else dst.lsn k }

/-- `vclock_foreach`: the components in use with what the array holds for them. -/
def items (v : Vclock) : List (Nat × Int) := (setBits v.map).map fun id => (id, v.lsn id)

def calcSum (v : Vclock) : Int := (v.items.map Prod.snd).sum

/-- The loop of `vclock_merge` over the components of the difference. -/
def mergeLoop (diff : Vclock) : Vclock → List Nat → Option Vclock
  | dst, [] => some dst
  | dst, id :: ids => do
    assertThat (InInt64 (vclockGet dst id + diff.lsn id))
    let followed ← follow dst id (vclockGet dst id + diff.lsn id)
    mergeLoop diff followed.2 ids

/-- A bit iterator that leaves out position 0. -/
def skipZero (ids : List Nat) : List Nat := if ids.head? = some 0 then ids.tail else ids

/-- The loop of `vclock_min_ignore0`. -/
def minLoop (b : Vclock) : Vclock → List Nat → Option Vclock
  | a, [] => some a
  | a, id :: ids =>
    if vclockGet a id ≤ vclockGet b id then minLoop b a ids
    else do
      let a ← reset a id (vclockGet b id)
      minLoop b a ids

def minIgnore0 (a b : Vclock) : Option Vclock := minLoop b a (skipZero (setBits (a.map ||| b.map)))

/-- A call of one of the operations on the vclocks of a program. -/
inductive Op (κ : Type) where
  | create (v : κ)
  | inc (v : κ) (id : Fin vclockMax)
  | follow (v : κ) (id : Fin vclockMax) (lsn : Nat)
  | reset (v : κ) (id : Fin vclockMax) (lsn : Nat)
  | copy (dst src : κ)
  | merge (dst diff : κ)
  | minIgnore0 (a b : κ)

variable {κ : Type} [DecidableEq κ]

/-- A call on the memory. `vclock_merge` ends with a `vclock_create` of the difference. -/
def step (s : κ → Vclock) : Op κ → Option (κ → Vclock)
  | .create v => some (update s v (s v).create)
  | .inc v id => do
    let result ← (s v).inc id
    return update s v result.2
  | .follow v id lsn => do
    let result ← (s v).follow id lsn
    return update s v result.2
  | .reset v id lsn => do
    let result ← (s v).reset id lsn
    return update s v result
  | .copy dst src => some (update s dst ((s dst).copy (s src)))
  | .merge dst diff => do
    let merged ← mergeLoop (s diff) (s dst) (setBits (s diff).map)
    let s := update s dst merged
    return update s diff (s diff).create
  | .minIgnore0 a b => do
    let result ← (s a).minIgnore0 (s b)
    return update s a result

/-- A map is stored as long as its sum is a signed 64 bit number. -/
def assign (c : κ → Option Gc.Clock) (v : κ) (m : Gc.Clock) : Option (κ → Option Gc.Clock) :=
  if m.sum < 2 ^ 63 then some (update c v (some m)) else none

/-- The same call on maps; `none` stands for memory without a vclock, and for a call on it. -/
def effect (c : κ → Option Gc.Clock) : Op κ → Option (κ → Option Gc.Clock)
  | .create v => assign c v 0
  | .inc v id => do
    let m ← c v
    assign c v (update m id (m id + 1))
  | .follow v id lsn => do
    let m ← c v
    assertThat (m id < lsn)
    assign c v (update m id lsn)
  | .reset v id lsn => do
    let m ← c v
    assign c v (update m id lsn)
  | .copy dst src => do
    let m ← c src
    assign c dst m
  | .merge dst diff => do
    let m ← c dst
    let d ← c diff
    let c ← assign c dst (m + d)
    assign c diff 0
  | .minIgnore0 a b => do
    let m ← c a
    let n ← c b
    assign c a (Gc.vclockMinIgnore0 m n)

/-- The vclock stands for the map. A component in use is not 0. -/
structure Represents (v : Vclock) (m : Gc.Clock) : Prop where
  get : ∀ id : Fin vclockMax, vclockGet v id = m id
  used : ∀ id, v.map.getLsbD id = true → 0 < v.lsn id
  signature : v.signature = m.sum

section

variable {v w : Vclock} {m n d : Gc.Clock} {id : Fin vclockMax} {ids : List (Fin vclockMax)}

lemma sum_update (m : Gc.Clock) (id : Fin vclockMax) (n : Nat) :
    Gc.Clock.sum (update m id n) + m id = m.sum + n := by
  have hu := Finset.sum_update_of_mem (Finset.mem_univ id) m n
  have hs := Finset.sum_sdiff (f := m) (Finset.subset_univ {id})
  rw [Finset.sum_singleton] at hs
  simp only [Gc.Clock.sum]
  omega

lemma le_sum (m : Gc.Clock) (id : Fin vclockMax) : m id ≤ m.sum :=
  Finset.single_le_sum (f := m) (fun _ _ => Nat.zero_le _) (Finset.mem_univ id)

lemma int64_of_le {n bound : Nat} (h : n ≤ bound) (hb : bound < 2 ^ 63) : InInt64 n := by
  constructor <;> omega

lemma Represents.bit (h : Represents v m) : v.map.getLsbD id = true ↔ m id ≠ 0 := by
  have hg := h.get id
  rw [vclockGet] at hg
  split at hg
  · rename_i hb
    have hu := h.used id hb
    simp only [hb, true_iff]
    omega
  · rename_i hb
    simp only [hb, Bool.false_eq_true, false_iff, ne_eq, not_not]
    omega

lemma Represents.lsn (h : Represents v m) (hb : v.map.getLsbD id = true) : v.lsn id = m id := by
  rw [← h.get id, vclockGet, if_pos hb]

lemma represents_create (v : Vclock) : Represents v.create 0 where
  get id := by simp [create, vclockGet]
  used id hbit := by simp [create] at hbit
  signature := by simp [create, Gc.Clock.sum]

section

variable (h : Represents v m)
include h

/-- Writing a component that is not 0 and putting it in use. -/
lemma Represents.assign {n : Nat} (hn : 0 < n) {signature : Int}
    (hs : signature + m id = m.sum + n) :
    Represents ⟨(bitSet v.map id).1, signature, update v.lsn id (n : Int)⟩ (update m id n) where
  get k := by
    have hb := bitSet_getLsbD v.map id.isLt (k := k)
    by_cases hk : k = id
    · subst hk
      simp [vclockGet, hb]
    · have hv : (k : Nat) ≠ id := fun he => hk (Fin.ext he)
      simpa [vclockGet, hb, hk, hv] using h.get k
  used k hb := by
    rw [bitSet_getLsbD v.map id.isLt] at hb
    by_cases hk : k = id
    · subst hk
      simpa using hn
    · simpa [hk] using h.used k (hb.resolve_left hk)
  signature := by
    have := sum_update m id n
    simp only
    omega

lemma Represents.drop :
    Represents { v with signature := v.signature - m id, map := v.map &&& ~~~BitVec.twoPow 32 id }
      (update m id 0) where
  get k := by
    by_cases hk : k = id
    · subst hk
      simp [vclockGet]
    · have hv : (k : Nat) ≠ id := fun he => hk (Fin.ext he)
      have hl : (k : Nat) < 32 := k.isLt
      simpa [vclockGet, hk, hv, hl] using h.get k
  used k hb := by
    refine h.used k ?_
    simp only [BitVec.getLsbD_and, Bool.and_eq_true] at hb
    exact hb.1
  signature := by
    have hs := sum_update m id 0
    have hsi := h.signature
    simp only
    omega

lemma Represents.inc (hs : Gc.Clock.sum (update m id (m id + 1)) < 2 ^ 63) :
    Ensures (v.inc id) fun result =>
      result.1 = m id + 1 ∧ Represents result.2 (update m id (m id + 1)) := by
  have hu := sum_update m id (m id + 1)
  have hle := le_sum m id
  have hsi := h.signature
  have ha : Represents ⟨(bitSet v.map id).1, v.signature + 1,
      update v.lsn id ((m id + 1 : Nat) : Int)⟩ (update m id (m id + 1)) :=
    h.assign (Nat.succ_pos _) (by omega)
  have hf : InInt64 (v.signature + 1) := by constructor <;> omega
  have hl : InInt64 ((m id : Int) + 1) := by constructor <;> omega
  unfold Vclock.inc
  refine ensures_assert id.isLt ?_
  by_cases hb : v.map.getLsbD id = true
  · have hm : (bitSet v.map id).1 = v.map := by
      refine BitVec.eq_of_getLsbD_eq fun k _ => ?_
      rw [Bool.eq_iff_iff, bitSet_getLsbD v.map id.isLt, or_iff_right_iff_imp]
      rintro rfl
      exact hb
    simp only [hb, if_true, h.lsn hb]
    refine ensures_assert hf (ensures_assert hl (ensures_some ⟨rfl, ?_⟩))
    rwa [hm] at ha
  · have hz : m id = 0 := by_contra fun hn => hb (h.bit.mpr hn)
    simp only [hb, Bool.false_eq_true, if_false, update_self, update_idem]
    rw [hz] at ha hl ⊢
    exact ensures_assert hf (ensures_assert hl (ensures_some ⟨rfl, ha⟩))

lemma Represents.follow {lsn : Nat} (hl : m id < lsn)
    (hs : Gc.Clock.sum (update m id lsn) < 2 ^ 63) :
    Ensures (v.follow id lsn) fun result =>
      result.1 = m id ∧ Represents result.2 (update m id lsn) := by
  have hu := sum_update m id lsn
  have hg := h.get id
  have hsi := h.signature
  unfold Vclock.follow vclockFollow
  simp only [assertThat_of (show (lsn : Int) ≥ 0 by omega), assertThat_of id.isLt, hg,
    assertThat_of (show (lsn : Int) > m id by omega), Option.bind_eq_bind, Option.bind_some,
    Option.pure_def]
  refine ensures_assert ⟨by omega, by omega⟩ (ensures_some ⟨rfl, h.assign (by omega) ?_⟩)
  omega

lemma Represents.reset {lsn : Nat}
    (hs : Gc.Clock.sum (update m id lsn) < 2 ^ 63) :
    Ensures (v.reset id lsn) (Represents · (update m id lsn)) := by
  have hu := sum_update m id lsn
  have hl := le_sum m id
  have hsi := h.signature
  unfold Vclock.reset
  rw [h.get id]
  refine ensures_assert (by omega) (ensures_assert id.isLt (ensures_assert ⟨by omega, by omega⟩ ?_))
  by_cases hz : lsn = 0
  · subst hz
    exact ensures_some h.drop
  · rw [if_neg (by omega)]
    refine ensures_assert ⟨by omega, by omega⟩ (ensures_some (h.assign (by omega) ?_))
    omega

end

lemma lt_maxPos {map : BitVec 32} {k : Nat} (h : map.getLsbD k = true) :
    k < vclockMax - (map ||| 1).clz.toNat := by
  have hb : (map ||| 1).toNat.testBit k = true := by
    have ho : (map ||| 1).getLsbD k = true := by rw [BitVec.getLsbD_or, h, Bool.true_or]
    exact ho
  have hl := Nat.ge_two_pow_of_testBit hb
  have hh := BitVec.toNat_lt_two_pow_sub_clz (x := map ||| 1)
  exact (Nat.pow_lt_pow_iff_right (by decide)).mp (hl.trans_lt hh)

lemma copy_lsn {k : Nat} (h : w.map.getLsbD k = true) : (v.copy w).lsn k = w.lsn k :=
  if_pos (lt_maxPos h)

lemma Represents.copy (h : Represents w m) (v : Vclock) : Represents (v.copy w) m where
  get id := by
    rw [← h.get id, vclockGet, vclockGet]
    exact ite_congr rfl copy_lsn fun _ => rfl
  used k hb := by
    have hb : w.map.getLsbD k = true := hb
    rw [copy_lsn hb]
    exact h.used k hb
  signature := h.signature

lemma setBits_eq (map : BitVec 32) :
    setBits map = ((List.finRange vclockMax).map Fin.val).filter map.getLsbD := by
  rw [map_coe_finRange_eq_range]
  rfl

lemma Represents.mergeLoop (hd : Represents w d) (hn : ids.Nodup)
    (hb : ∀ id ∈ ids, w.map.getLsbD id = true) (h : Represents v m)
    (hs : Gc.Clock.sum (fun k => m k + if k ∈ ids then d k else 0) < 2 ^ 63) :
    Ensures (mergeLoop w v (ids.map Fin.val))
      (Represents · fun k => m k + if k ∈ ids then d k else 0) := by
  induction ids generalizing v m with
  | nil => exact ensures_some (by simpa using h)
  | cons id ids ih =>
    obtain ⟨hfr, hn⟩ := nodup_cons.mp hn
    obtain ⟨hbi, hb⟩ := forall_mem_cons.mp hb
    have hp : 0 < d id := Nat.pos_of_ne_zero (hd.bit.mp hbi)
    -- what is left to add after the first component
    have hre : (fun k => m k + if k ∈ id :: ids then d k else 0) = fun k =>
        update m id (m id + d id) k + if k ∈ ids then d k else 0 := by
      funext k
      by_cases hk : k = id
      · subst hk
        simp [hfr]
      · simp [hk]
    rw [hre] at hs ⊢
    have hf : Gc.Clock.sum (update m id (m id + d id)) < 2 ^ 63 :=
      lt_of_le_of_lt (Finset.sum_le_sum fun k _ => Nat.le_add_right _ _) hs
    have hl : vclockGet v id + w.lsn id = ((m id + d id : Nat) : Int) := by
      rw [h.get, hd.lsn hbi, Nat.cast_add]
    have hle := le_sum (update m id (m id + d id)) id
    rw [update_self] at hle
    rw [map_cons, Vclock.mergeLoop, hl]
    refine ensures_assert (int64_of_le hle hf) ?_
    refine ensures_bind (h.follow (by omega) hf) fun result hr => ?_
    exact ih hn hb hr.2 hs

lemma Represents.merge (h : Represents v m) (hd : Represents w d)
    (hs : Gc.Clock.sum (m + d) < 2 ^ 63) :
    Ensures (Vclock.mergeLoop w v (setBits w.map)) (Represents · (m + d)) := by
  have ha : (fun k => m k + if k ∈ (List.finRange vclockMax).filter (w.map.getLsbD ·.val)
      then d k else 0) = m + d := by
    funext k
    by_cases hb : w.map.getLsbD k = true
    · simp [hb]
    · have hz : d k = 0 := by_contra fun hn => hb (hd.bit.mpr hn)
      simp [hz]
  rw [setBits_eq, filter_map]
  rw [← ha] at hs ⊢
  refine Represents.mergeLoop hd ((nodup_finRange _).filter _) (fun id hi => ?_) h hs
  simpa using hi

lemma skipZero_setBits (map : BitVec 32) :
    skipZero (setBits map) = ((List.finRange vclockMax).tail.map Fin.val).filter map.getLsbD := by
  have hr : (List.finRange vclockMax).map Fin.val =
      0 :: (List.finRange vclockMax).tail.map Fin.val := by decide
  have hp : ∀ id ∈ (List.finRange vclockMax).tail.map Fin.val, id ≠ 0 := by decide
  rw [setBits_eq, hr, filter_cons]
  split
  · rfl
  · refine if_neg fun hh => ?_
    have hm := mem_of_mem_head? hh
    exact hp 0 (mem_of_mem_filter hm) rfl

lemma Represents.minLoop (hn : Represents w n) (h : Represents v m) (hs : m.sum < 2 ^ 63) :
    Ensures (minLoop w v (ids.map Fin.val))
      (Represents · fun k => if k ∈ ids then min (m k) (n k) else m k) := by
  induction ids generalizing v m with
  | nil => exact ensures_some (by simpa using h)
  | cons id ids ih =>
    rw [map_cons, Vclock.minLoop, h.get, hn.get]
    have hre : (fun k => if k ∈ id :: ids then min (m k) (n k) else m k) = fun k =>
        if k ∈ ids then min (update m id (min (m id) (n id)) k) (n k)
        else update m id (min (m id) (n id)) k := by
      funext k
      by_cases hk : k = id
      · subst hk
        simp
      · simp [hk]
    rw [hre]
    split
    · rename_i hle
      rw [Nat.min_eq_left (by omega), Function.update_eq_self]
      exact ih h hs
    · rename_i hg
      have hu := sum_update m id (n id)
      rw [Nat.min_eq_right (by omega)]
      have hl : Gc.Clock.sum (update m id (n id)) < 2 ^ 63 := by omega
      exact ensures_bind (h.reset hl) fun result hr => ih hr hl

lemma Represents.minIgnore0 (h : Represents v m) (hn : Represents w n) (hs : m.sum < 2 ^ 63) :
    Ensures (v.minIgnore0 w) (Represents · (Gc.vclockMinIgnore0 m n)) := by
  have ht : ∀ id : Fin vclockMax, id ∈ (List.finRange vclockMax).tail ↔ id.val ≠ 0 := by
    decide
  have ha : (fun k => if k ∈ (List.finRange vclockMax).tail.filter
      ((v.map ||| w.map).getLsbD ·.val) then min (m k) (n k) else m k) =
      Gc.vclockMinIgnore0 m n := by
    funext k
    have hm : v.map.getLsbD k = true ↔ m k ≠ 0 := h.bit
    simp only [mem_filter, ht, BitVec.getLsbD_or, Bool.or_eq_true, Gc.vclockMinIgnore0]
    by_cases hk : k.val = 0
    · simp [hk]
    · by_cases hz : m k = 0
      · simp [hk, hz]
      · simp [hk, hm.mpr hz]
  rw [Vclock.minIgnore0, skipZero_setBits, filter_map, ← ha]
  exact hn.minLoop h hs

/-- What a program sees of a vclock. -/
structure Shows (v : Vclock) (m : Gc.Clock) : Prop where
  get : ∀ id : Fin vclockMax, vclockGet v id = m id
  items : v.items =
    ((List.finRange vclockMax).filter (m · ≠ 0)).map fun id => (id.val, (m id : Int))
  calcSum : v.calcSum = m.sum
  sum : v.signature = m.sum

lemma Represents.items (h : Represents v m) : v.items =
    ((List.finRange vclockMax).filter (m · ≠ 0)).map fun id => (id.val, (m id : Int)) := by
  have hf : ∀ id : Fin vclockMax, v.map.getLsbD id = decide (m id ≠ 0) := by
    intro id
    rw [Bool.eq_iff_iff, decide_eq_true_iff]
    exact h.bit
  rw [Vclock.items, setBits_eq, filter_map, map_map]
  rw [show v.map.getLsbD ∘ Fin.val = fun id : Fin vclockMax => decide (m id ≠ 0) from funext hf]
  refine map_congr_left fun id hi => ?_
  rw [comp_apply, h.lsn ((hf id).trans (mem_filter.mp hi).2)]

lemma sum_filter_ne_zero (ids : List (Fin vclockMax)) :
    ((ids.filter (m · ≠ 0)).map fun id => (m id : Int)).sum =
      (ids.map fun id => (m id : Int)).sum := by
  induction ids with
  | nil => rfl
  | cons id ids ih =>
    by_cases hz : m id = 0
    · simpa [hz] using ih
    · simpa [hz] using ih

lemma Represents.shows (h : Represents v m) : Shows v m where
  get := h.get
  items := h.items
  calcSum := by
    rw [Vclock.calcSum, h.items, map_map]
    refine (sum_filter_ne_zero _).trans ?_
    rw [Gc.Clock.sum, Nat.cast_sum, ← sum_ofFn, ofFn_eq_map]
  sum := h.signature

lemma compareLoop_eq {le ge : Bool} {ids : List Nat} (h : (le || ge) = true) :
    compareLoop v w le ge ids = Gc.orderOf (le && ids.all fun id => vclockGet v id ≤ vclockGet w id)
      (ge && ids.all fun id => vclockGet w id ≤ vclockGet v id) := by
  induction ids generalizing le ge with
  | nil => cases le <;> cases ge <;> simp_all [compareLoop, Gc.orderOf]
  | cons id ids ih =>
    rw [compareLoop, all_cons, all_cons, ← Bool.and_assoc, ← Bool.and_assoc]
    exact Gc.orderOf_stop ih

lemma vclockCompareGeneric_loop (v w : Vclock) (ignoreZero : Bool) :
    vclockCompareGeneric v w ignoreZero = compareLoop v w true true
      (if ignoreZero then skipZero (setBits (v.map ||| w.map)) else setBits (v.map ||| w.map)) := by
  unfold vclockCompareGeneric
  split
  · rename_i ids hb
    simp [hb, skipZero]
  · rename_i hb
    have hh : (setBits (v.map ||| w.map)).head? ≠ some 0 := fun he => hb _ (eq_cons_of_mem_head? he)
    simp [skipZero, hh]

/-- Components in use in neither vclock do not change a comparison. -/
lemma compareLoop_filter (h : Represents v m) (hn : Represents w n) :
    compareLoop v w true true ((ids.map Fin.val).filter (v.map ||| w.map).getLsbD) =
      Gc.compareLoop m n true true ids := by
  have ha (p : Int → Int → Bool) (hp : p 0 0 = true) :
      ((ids.map Fin.val).filter (v.map ||| w.map).getLsbD).all
        (fun id => p (vclockGet v id) (vclockGet w id)) = ids.all fun id => p (m id) (n id) := by
    rw [all_filter, all_map]
    congr 1
    funext id
    rw [comp_apply, h.get, hn.get]
    by_cases hb : (v.map ||| w.map).getLsbD id = true
    · simp [hb]
    · have hz : m id = 0 ∧ n id = 0 := by
        simp only [BitVec.getLsbD_or, Bool.or_eq_true, h.bit, hn.bit] at hb
        omega
      simp [hb, hz, hp]
  rw [compareLoop_eq rfl, Gc.compareLoop_eq rfl, ha (fun x y => x ≤ y) rfl,
    ha (fun x y => y ≤ x) rfl]
  simp

lemma vclockCompareGeneric_eq (h : Represents v m) (hn : Represents w n) :
    vclockCompareGeneric v w false = Gc.vclockCompare m n ∧
      vclockCompareGeneric v w true = Gc.vclockCompareIgnore0 m n := by
  rw [vclockCompareGeneric_loop, vclockCompareGeneric_loop, if_pos rfl, if_neg Bool.false_ne_true,
    skipZero_setBits, setBits_eq]
  exact ⟨compareLoop_filter h hn, compareLoop_filter h hn⟩

end

section

variable {s s' : κ → Vclock} {c c' : κ → Option Gc.Clock} {op : Op κ} {ops : List (Op κ)}

/-- Every vclock of the program stands for its map, and its sum is in range. -/
def Refines (s : κ → Vclock) (c : κ → Option Gc.Clock) : Prop :=
  ∀ v m, c v = some m → Represents (s v) m ∧ m.sum < 2 ^ 63

/-- Storing a vclock that stands for the map that is stored. -/
lemma Refines.store (h : Refines s c) {v : κ} {m : Gc.Clock} {result : Vclock}
    (ha : assign c v m = some c') (hr : Represents result m) :
    Refines (update s v result) c' := by
  rw [assign, Option.ite_none_right_eq_some] at ha
  obtain ⟨hs, ha⟩ := ha
  obtain rfl := Option.some.inj ha
  intro w n hw
  by_cases he : w = v
  · subst he
    rw [update_self] at hw ⊢
    obtain rfl := Option.some.inj hw
    exact ⟨hr, hs⟩
  · rw [update_of_ne he] at hw ⊢
    exact h w n hw

lemma sum_lt_of_assign {v : κ} {m : Gc.Clock} (h : assign c v m = some c') : m.sum < 2 ^ 63 := by
  rw [assign, Option.ite_none_right_eq_some] at h
  exact h.1

/-- Each call has the effect of the call on maps, and passes its assertions. -/
lemma step_refines (h : Refines s c) (he : effect c op = some c') :
    ∃ t, step s op = some t ∧ Refines t c' := by
  cases op with
  | create v => exact ⟨_, rfl, h.store he (represents_create _)⟩
  | inc v id =>
    obtain ⟨m, hm, ha⟩ := Option.bind_eq_some_iff.mp he
    obtain ⟨result, hr, -, hre⟩ := (h v m hm).1.inc (sum_lt_of_assign ha)
    exact ⟨_, by simp [step, hr], h.store ha hre⟩
  | follow v id lsn =>
    obtain ⟨m, hm, ha⟩ := Option.bind_eq_some_iff.mp he
    obtain ⟨hl, ha⟩ := assert_bind_eq_some.mp ha
    obtain ⟨result, hr, -, hre⟩ := (h v m hm).1.follow hl (sum_lt_of_assign ha)
    exact ⟨_, by simp [step, hr], h.store ha hre⟩
  | reset v id lsn =>
    obtain ⟨m, hm, ha⟩ := Option.bind_eq_some_iff.mp he
    obtain ⟨result, hr, hre⟩ := (h v m hm).1.reset (sum_lt_of_assign ha)
    exact ⟨_, by simp [step, hr], h.store ha hre⟩
  | copy dst src =>
    obtain ⟨m, hm, ha⟩ := Option.bind_eq_some_iff.mp he
    exact ⟨_, rfl, h.store ha ((h src m hm).1.copy (s dst))⟩
  | merge dst diff =>
    obtain ⟨m, hm, he⟩ := Option.bind_eq_some_iff.mp he
    obtain ⟨d, hd, he⟩ := Option.bind_eq_some_iff.mp he
    obtain ⟨c₁, hme, hc⟩ := Option.bind_eq_some_iff.mp he
    obtain ⟨result, hr, hre⟩ := (h dst m hm).1.merge (h diff d hd).1 (sum_lt_of_assign hme)
    exact ⟨_, by simp [step, hr]; rfl, (h.store hme hre).store hc (represents_create _)⟩
  | minIgnore0 a b =>
    obtain ⟨m, hm, he⟩ := Option.bind_eq_some_iff.mp he
    obtain ⟨n, hn, ha⟩ := Option.bind_eq_some_iff.mp he
    obtain ⟨hre, hs⟩ := h a m hm
    obtain ⟨result, hr, hre⟩ := hre.minIgnore0 (h b n hn).1 hs
    exact ⟨_, by simp [step, hr], h.store ha hre⟩

/-- **Vector clocks are finite maps.** Whatever the memory held, calls that the maps allow pass
all assertions, and afterwards every vclock shows its map and compares as its map does. -/
theorem run_refines (s : κ → Vclock) (hspec : run effect (fun _ => none) ops = some c) :
    ∃ s', run step s ops = some s' ∧ ∀ v m, c v = some m → Shows (s' v) m ∧ ∀ w n, c w = some n →
        vclockCompareGeneric (s' v) (s' w) false = Gc.vclockCompare m n ∧
          vclockCompareGeneric (s' v) (s' w) true = Gc.vclockCompareIgnore0 m n := by
  have hi : Refines s fun _ => none := fun v m hv => by cases hv
  obtain ⟨s', hru, hr⟩ := run_simulation step_refines hspec hi
  refine ⟨s', hru, fun v m hv => ⟨(hr v m hv).1.shows, fun w n hw => ?_⟩⟩
  exact vclockCompareGeneric_eq (hr v m hv).1 (hr w n hw).1

end

/-- A component is reset, and the vclock is copied over another one that was in use. -/
def reuseOps : List (Op Bool) :=
  [.create true, .create false, .inc true ⟨3, by decide⟩, .follow true ⟨7, by decide⟩ 40,
    .inc false ⟨31, by decide⟩, .reset true ⟨7, by decide⟩ 0, .copy false true, .merge true false,
    .inc false ⟨31, by decide⟩, .minIgnore0 false true]

/-- Memory that holds a 7 everywhere before the first call. -/
theorem run_refines_reuseOps : ∃ s', run step (fun _ => ⟨-1, 7, fun _ => 7⟩) reuseOps = some s' ∧
    vclockGet (s' true) 3 = 2 ∧ vclockGet (s' true) 7 = 0 ∧ (s' true).signature = 2 := by
  have hma : ((run effect (fun _ => none) reuseOps).bind fun c => (c true).map fun m =>
      (m ⟨3, by decide⟩, m ⟨7, by decide⟩, m.sum)) = some (2, 0, 2) := by decide
  obtain ⟨c, hc, hmp⟩ := Option.bind_eq_some_iff.mp hma
  obtain ⟨m, hm, hv⟩ := Option.map_eq_some_iff.mp hmp
  simp only [Prod.mk.injEq] at hv
  obtain ⟨ht, hse, hsu⟩ := hv
  obtain ⟨s', hr, hsh⟩ := run_refines (fun _ => ⟨-1, 7, fun _ => 7⟩) hc
  obtain ⟨hs, -⟩ := hsh true m hm
  refine ⟨s', hr, ?_, ?_, ?_⟩
  · simpa [ht] using hs.get ⟨3, by decide⟩
  · simpa [hse] using hs.get ⟨7, by decide⟩
  · simpa [hsu] using hs.sum

end TarantoolStorage.Vclock
