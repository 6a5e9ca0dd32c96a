import TarantoolStorage.Lib.HeapOrder
import TarantoolStorage.Lib.Run

/-!
The intrusive heap of `heap.h`. Nodes know their places in the array, and what `HEAP_LESS` reads of
a node may change before the heap is updated. `none` is a read past the array, a failed assertion,
or an array that is gone.
-/
namespace TarantoolStorage.Heap

open HeapOrder Transition Function

def heapNodeStrayPos : Nat := 2 ^ 32 - 1

def heapInitialCapacity : Nat := 8

/-- `struct heap_core_structure`, with `pos` and the compared part of all nodes. -/
structure Core (ν κ : Type) where
  size : Nat
  capacity : Nat
  harr : Nat → ν
  pos : ν → Nat
  key : ν → κ

variable {ν κ : Type}

def create (harr : Nat → ν) (key : ν → κ) : Core ν κ :=
  ⟨0, 0, harr, fun _ => heapNodeStrayPos, key⟩

namespace Core

def keyAt (heap : Core ν κ) (i : Nat) : κ := heap.key (heap.harr i)

def top (heap : Core ν κ) : Option ν :=
  if heap.size = 0 then none else some (heap.harr 0)

/-- Whether the array has room for one more node, as far as `realloc` gives it. -/
def reserve (heap : Core ν κ) (isOom : Bool) : Option (Bool × Core ν κ) :=
  if heap.size < heap.capacity then some (true, heap)
  else
    let capacity := if heap.capacity = 0 then heapInitialCapacity else heap.capacity * 2 % 2 ^ 32
    -- the capacity has wrapped around: `realloc` to no bytes frees the array
    if capacity = 0 then none
    else if isOom then some (false, heap) else some (true, { heap with capacity := capacity })

/-- `min_child`, once the left child is in the array. -/
def minChild (less : κ → κ → Bool) (heap : Core ν κ) (left right : Nat) : Nat :=
  if right < heap.size ∧ less (heap.keyAt right) (heap.keyAt left) then right else left

/-- Every node of the array knows its place, and these are the nodes that are held. -/
structure Linked (heap : Core ν κ) (nodes : Finset ν) : Prop where
  pos_eq : ∀ i < heap.size, heap.pos (heap.harr i) = i
  mem_iff : ∀ node, node ∈ nodes ↔ ∃ i < heap.size, heap.harr i = node

/-- The links, the order, and a size that the array can have. -/
structure Inv (le : κ → κ → Prop) (heap : Core ν κ) (nodes : Finset ν) : Prop where
  linked : heap.Linked nodes
  ordered : Ordered le heap.keyAt heap.size 0
  size_le : heap.size ≤ 2 ^ 31

/-- A comparator between an order and its strict part. -/
structure Compares (less : κ → κ → Bool) (le : κ → κ → Prop) : Prop where
  trans : IsTrans κ le
  of_less : ∀ {x y}, less x y = true → le x y
  of_not_less : ∀ {x y}, ¬ less x y = true → le y x

variable {heap t : Core ν κ} {nodes : Finset ν} {node : ν} {i j cur c : Nat} {less : κ → κ → Bool}
  {le : κ → κ → Prop}

lemma Compares.refl (h : Compares less le) (x : κ) : le x x := by
  by_cases hx : less x x = true
  · exact h.of_less hx
  · exact h.of_not_less hx

lemma Linked.inj (h : heap.Linked nodes) (hi : i < heap.size) (hj : j < heap.size)
    (he : heap.harr i = heap.harr j) : i = j := by
  rw [← h.pos_eq i hi, he, h.pos_eq j hj]

/-- The key of a node that is not held is set. -/
lemma Inv.of_key {key : ν → κ} (h : heap.Inv le nodes) (hk : ∀ n ∈ nodes, key n = heap.key n) :
    Inv le { heap with key := key } nodes :=
  ⟨⟨h.linked.pos_eq, h.linked.mem_iff⟩,
    h.ordered.congr fun i hi => hk _ ((h.linked.mem_iff _).mpr ⟨i, hi, rfl⟩), h.size_le⟩

lemma reserve_some (heap : Core ν κ) (isOom : Bool) (hz : heap.size < 2 ^ 31) :
    ∃ ok capacity, heap.reserve isOom = some (ok, { heap with capacity := capacity }) := by
  by_cases hc : heap.size < heap.capacity
  · exact ⟨true, heap.capacity, if_pos hc⟩
  have hne : (if heap.capacity = 0 then heapInitialCapacity
      else heap.capacity * 2 % 2 ^ 32) ≠ 0 := by
    unfold heapInitialCapacity
    split_ifs <;> omega
  simp only [reserve, if_neg hc, if_neg hne]
  cases isOom with
  | false => exact ⟨true, _, rfl⟩
  | true => exact ⟨false, heap.capacity, rfl⟩

lemma minChild_spec (hcmp : Compares less le) (hl : 2 * cur + 1 < heap.size) :
    let m := heap.minChild less (2 * cur + 1) (2 * cur + 2)
    0 < m ∧ m < heap.size ∧ parent m = cur ∧
      ∀ i, 0 < i → i < heap.size → parent i = cur → le (heap.keyAt m) (heap.keyAt i) := by
  have hch {i} (hi : 0 < i) (hpi : parent i = cur) : i = 2 * cur + 1 ∨ i = 2 * cur + 2 := by
    unfold parent at hpi
    omega
  unfold minChild
  split_ifs with hr
  · refine ⟨by omega, hr.1, by unfold parent; omega, fun i hi _ hpi => ?_⟩
    rcases hch hi hpi with rfl | rfl
    · exact hcmp.of_less hr.2
    · exact hcmp.refl _
  · refine ⟨by omega, hl, by unfold parent; omega, fun i hi his hpi => ?_⟩
    rcases hch hi hpi with rfl | rfl
    · exact hcmp.refl _
    · exact hcmp.of_not_less fun hlt => hr ⟨his, hlt⟩

variable [DecidableEq ν]

/-- A store into the array, and `update_link`. -/
def put (heap : Core ν κ) (i : Nat) (node : ν) : Core ν κ :=
  { heap with harr := update heap.harr i node, pos := update heap.pos node i }

def swap (heap : Core ν κ) (i j : Nat) : Core ν κ :=
  (heap.put i (heap.harr j)).put j (heap.harr i)

/-- A store at the end of the array. -/
def push (heap : Core ν κ) (node : ν) : Core ν κ :=
  { heap.put heap.size node with size := heap.size + 1 }

variable (less)

def siftUpLoop (heap : Core ν κ) (node : ν) (cur : Nat) : Core ν κ :=
  if 0 < cur ∧ less (heap.key node) (heap.keyAt (parent cur)) then
    siftUpLoop (heap.swap cur (parent cur)) (heap.harr cur) (parent cur)
  else heap
termination_by cur
decreasing_by exact parent_lt (by tauto)

def siftUp (heap : Core ν κ) (node : ν) : Core ν κ := heap.siftUpLoop less node (heap.pos node)

/-- The loop of `sift_down`, which ends within as many rounds as there are nodes. -/
def siftDownLoop : Nat → Core ν κ → Nat → Option (Core ν κ)
  | 0, _, _ => none
  | fuel + 1, heap, cur =>
    let left := (2 * cur + 1) % 2 ^ 32
    let right := (2 * cur + 2) % 2 ^ 32
    -- the left child is read whenever the right one is in the array
    if right < heap.size ∧ heap.size ≤ left then none
    else
      let minChild := heap.minChild less left right
      if heap.size ≤ left ∨ less (heap.keyAt cur) (heap.keyAt minChild) then some heap
      else siftDownLoop fuel (heap.swap cur minChild) minChild

def siftDown (heap : Core ν κ) (node : ν) : Option (Core ν κ) :=
  siftDownLoop less heap.size heap (heap.pos node)

def updateNode (heap : Core ν κ) (node : ν) : Option (Core ν κ) :=
  (heap.siftDown less node).map fun heap => heap.siftUp less node

/-- Whether the node was inserted. -/
def insert (heap : Core ν κ) (node : ν) (isOom : Bool) : Option (Bool × Core ν κ) :=
  (heap.reserve isOom).map fun (ok, heap) =>
    if ok then (true, (heap.push node).siftUp less node) else (false, heap)

def delete (heap : Core ν κ) (node : ν) : Option (Core ν κ) :=
  if heap.size = 0 then some heap
  else if heap.pos node = heapNodeStrayPos then none
  else
    let last := heap.size - 1
    let cur := heap.pos node
    let heap := { heap with size := last, pos := update heap.pos node heapNodeStrayPos }
    if cur = last then some heap
    else updateNode less (heap.put cur (heap.harr last)) (heap.harr last)

def updateAllLoop : Nat → Core ν κ → Option (Core ν κ)
  | 0, heap => heap.siftDown less (heap.harr 0)
  | cur + 1, heap => (heap.siftDown less (heap.harr (cur + 1))).bind (updateAllLoop cur)

def updateAll (heap : Core ν κ) : Option (Core ν κ) :=
  if heap.size ≤ 1 then some heap else updateAllLoop less ((heap.size - 2) / 2) heap

variable {less}

lemma harr_swap (hne : i ≠ j) : (heap.swap i j).harr = heap.harr ∘ Equiv.swap i j := by
  funext k
  simp only [swap, put, update_apply, comp, Equiv.swap_apply_def]
  grind

lemma keyAt_swap (hne : i ≠ j) : (heap.swap i j).keyAt = heap.keyAt ∘ Equiv.swap i j := by
  funext k
  exact congrArg heap.key (congrFun (harr_swap hne) k)

lemma Linked.swap (h : heap.Linked nodes) (hi : i < heap.size) (hj : j < heap.size) (hne : i ≠ j) :
    (heap.swap i j).Linked nodes := by
  refine ⟨fun k hk => ?_, fun n => (h.mem_iff n).trans ?_⟩
  · have hp := h.pos_eq k hk
    have hki := h.inj hk hi
    have hkj := h.inj hk hj
    have hij := h.inj hi hj
    simp only [Core.swap, put, update_apply]
    grind
  · have hlt {k} (hk : k < heap.size) : Equiv.swap i j k < heap.size := by
      rw [Equiv.swap_apply_def]
      split_ifs <;> assumption
    rw [harr_swap hne]
    constructor <;> rintro ⟨k, hk, rfl⟩ <;> exact ⟨Equiv.swap i j k, hlt hk, by simp⟩

lemma harr_push (heap : Core ν κ) (node : ν) : (heap.push node).harr heap.size = node :=
  update_self ..

lemma harr_push_of_lt (hi : i < heap.size) : (heap.push node).harr i = heap.harr i :=
  update_of_ne hi.ne ..

lemma Linked.push (h : heap.Linked nodes) (hn : node ∉ nodes) :
    (heap.push node).Linked (Insert.insert node nodes) := by
  have hne {i} (hi : i < heap.size) : heap.harr i ≠ node :=
    fun he => hn ((h.mem_iff node).mpr ⟨i, hi, he⟩)
  refine ⟨fun i hi => ?_, fun n => ?_⟩
  · rcases Nat.lt_succ_iff_lt_or_eq.mp hi with hl | rfl
    · rw [harr_push_of_lt hl]
      exact (update_of_ne (hne hl) ..).trans (h.pos_eq i hl)
    · rw [harr_push]
      exact update_self ..
  · rw [Finset.mem_insert, h.mem_iff]
    constructor
    · rintro (rfl | ⟨i, hi, rfl⟩)
      · exact ⟨heap.size, Nat.lt_succ_self _, harr_push ..⟩
      · exact ⟨i, Nat.lt_succ_of_lt hi, harr_push_of_lt hi⟩
    · rintro ⟨i, hi, rfl⟩
      rcases Nat.lt_succ_iff_lt_or_eq.mp hi with hl | rfl
      · exact .inr ⟨i, hl, (harr_push_of_lt hl).symm⟩
      · exact .inl (harr_push ..)

/-- The last node takes the place of the one that is deleted. -/
lemma Linked.replace {last : Nat} (h : heap.Linked nodes) (hs : cur < last + 1)
    (hl : heap.size = last + 1) {pos : ν → Nat}
    (hp : ∀ n ≠ heap.harr cur, pos n = if n = heap.harr last then cur else heap.pos n) :
    Linked { heap with size := last, harr := update heap.harr cur (heap.harr last), pos := pos }
      (nodes.erase (heap.harr cur)) := by
  have hin {i j} (hi : i < last + 1) (hj : j < last + 1) := h.inj (hl ▸ hi) (hl ▸ hj)
  refine ⟨fun i hi => ?_, fun n => ?_⟩
  · change i < last at hi
    have hpi := h.pos_eq i (by omega)
    have hil := hin (i := i) (j := last) (by omega) (by omega)
    have hic := hin (i := i) (by omega) hs
    have hcl := hin hs (Nat.lt_succ_self last)
    simp only [update_apply]
    grind
  · rw [Finset.mem_erase, h.mem_iff]
    simp only [update_apply]
    have hcl := hin hs (Nat.lt_succ_self last)
    constructor
    · rintro ⟨hn, i, hi, rfl⟩
      by_cases hil : i = last
      · exact ⟨cur, by grind, by grind⟩
      · exact ⟨i, by omega, by grind⟩
    · rintro ⟨i, hi, rfl⟩
      have hic := hin (i := i) (by omega) hs
      split_ifs with he
      · exact ⟨by grind, last, by omega, rfl⟩
      · exact ⟨fun hx => he (hic hx), i, by omega, rfl⟩

section

variable (hcmp : Compares less le)
include hcmp

section

variable (h : heap.Linked nodes)
include h

lemma siftUpLoop_spec (hz : heap.size ≤ 2 ^ 31) (hs : cur < heap.size)
    (hn : heap.harr cur = node) (r : Risen le heap.keyAt heap.size 0 cur) :
    (heap.siftUpLoop less node cur).Inv le nodes := by
  have := hcmp.trans
  induction cur using Nat.strong_induction_on generalizing heap node with
  | _ cur ih =>
    subst hn
    rw [siftUpLoop]
    split_ifs with hl
    · obtain ⟨hp, hl⟩ := hl
      have hlt := parent_lt hp
      have hr := r.swap hp hs (hcmp.of_less hl)
      rw [← keyAt_swap hlt.ne'] at hr
      exact ih _ hlt (h.swap hs (hlt.trans hs) hlt.ne') hz (hlt.trans hs)
        (by simp [harr_swap hlt.ne']) hr
    · exact ⟨h, r.ordered fun hp _ => hcmp.of_not_less fun hl' => hl ⟨hp, hl'⟩, hz⟩

/-- The node ends at a place `q` below which the order holds; above it, too, if it held at the
first place or the node was moved. -/
lemma siftDownLoop_spec {fuel : Nat} (hz : heap.size < 2 ^ 31)
    (hs : cur < heap.size) (hf : heap.size ≤ cur + fuel) (hc : c ≤ cur)
    (o : Hole le heap.keyAt heap.size c cur) :
    ∃ t q, siftDownLoop less fuel heap cur = some t ∧ t.Linked nodes ∧ t.size = heap.size ∧
      q < heap.size ∧ t.harr q = heap.harr cur ∧ Risen le t.keyAt heap.size c q ∧
      ((0 < cur → c ≤ parent cur → le (heap.keyAt (parent cur)) (heap.keyAt cur)) →
        0 < q → c ≤ parent q → le (t.keyAt (parent q)) (t.keyAt q)) := by
  have := hcmp.trans
  induction fuel generalizing heap cur with
  | zero => omega
  | succ fuel ih =>
    simp only [siftDownLoop, Nat.mod_eq_of_lt (show 2 * cur + 1 < 2 ^ 32 by omega),
      Nat.mod_eq_of_lt (show 2 * cur + 2 < 2 ^ 32 by omega)]
    rw [if_neg (by omega)]
    by_cases hl : heap.size ≤ 2 * cur + 1
    · rw [if_pos (.inl hl)]
      refine ⟨heap, cur, rfl, h, rfl, hs, rfl, ⟨o, fun i hi his hpi => ?_⟩, id⟩
      unfold parent at hpi
      omega
    obtain ⟨hm0, hms, hmp, hmin⟩ := minChild_spec hcmp (not_le.mp hl)
    generalize heap.minChild less _ _ = m at *
    split_ifs with hlm
    · refine ⟨heap, cur, rfl, h, rfl, hs, rfl, ⟨o, fun i hi his hpi => ?_⟩, id⟩
      exact trans_of le (hcmp.of_less (hlm.resolve_left hl)) (hmin i hi his hpi)
    · have hlt : cur < m := hmp ▸ parent_lt hm0
      have ho := o.swap hm0 hms hmp hc hmin
      rw [← keyAt_swap hlt.ne] at ho
      obtain ⟨t, q, ht, hl, hsi, hq, hn, hr, hed⟩ := ih (h.swap hs hms hlt.ne) hz hms
        (show heap.size ≤ m + fuel by omega) (hc.trans hlt.le) ho
      refine ⟨t, q, ht, hl, hsi, hq, hn.trans (by simp [harr_swap hlt.ne]), hr, fun _ => hed ?_⟩
      intro _ _
      simpa [keyAt_swap hlt.ne, hmp] using hcmp.of_not_less fun hx => hlm (.inr hx)

lemma siftUp_spec (hz : heap.size ≤ 2 ^ 31) (hs : cur < heap.size)
    (hn : heap.harr cur = node) (r : Risen le heap.keyAt heap.size 0 cur) :
    (heap.siftUp less node).Inv le nodes := by
  rw [siftUp, ← hn, h.pos_eq cur hs]
  exact siftUpLoop_spec hcmp h hz hs rfl r

variable (hz : heap.size < 2 ^ 31)
include hz

lemma updateNode_spec (hs : cur < heap.size) (hn : heap.harr cur = node)
    (o : Hole le heap.keyAt heap.size 0 cur) :
    ∃ t, heap.updateNode less node = some t ∧ t.Inv le nodes := by
  obtain ⟨t, q, ht, hl, hsi, hq, hqn, hr, -⟩ :=
    siftDownLoop_spec hcmp h hz hs (Nat.le_add_left ..) (Nat.zero_le _) o
  rw [← hsi] at hz hq hr
  refine ⟨_, ?_, siftUp_spec hcmp hl hz.le hq (hqn.trans hn) hr⟩
  rw [updateNode, siftDown, ← hn, h.pos_eq cur hs, ht, Option.map_some]

lemma siftDown_from (hs : cur < heap.size)
    (o : Ordered le heap.keyAt heap.size (cur + 1)) :
    ∃ t, heap.siftDown less (heap.harr cur) = some t ∧
      t.Linked nodes ∧ t.size = heap.size ∧ Ordered le t.keyAt heap.size cur := by
  have hp (h0 : 0 < cur) (hc : cur ≤ parent cur) : False := (parent_lt h0).not_ge hc
  have ho : Hole le heap.keyAt heap.size cur cur :=
    ⟨fun i hi his hc _ _ => o i hi his (by omega), fun _ _ _ _ h0 hc => (hp h0 hc).elim⟩
  obtain ⟨t, q, ht, hl, hsi, -, -, hr, hed⟩ :=
    siftDownLoop_spec hcmp h hz hs (Nat.le_add_left ..) le_rfl ho
  rw [siftDown, h.pos_eq cur hs]
  exact ⟨t, ht, hl, hsi, hr.ordered (hed fun h0 hc => (hp h0 hc).elim)⟩

/-- Parents are put in order from the last one on. -/
lemma updateAllLoop_spec (hs : cur < heap.size)
    (o : Ordered le heap.keyAt heap.size (cur + 1)) :
    ∃ t, heap.updateAllLoop less cur = some t ∧ t.Inv le nodes := by
  induction cur generalizing heap with
  | zero =>
    obtain ⟨t, ht, hl, hsi, ho⟩ := siftDown_from hcmp h hz hs o
    rw [← hsi] at hz ho
    exact ⟨t, ht, hl, ho, hz.le⟩
  | succ cur ih =>
    obtain ⟨t, ht, hl, hsi, ho⟩ := siftDown_from hcmp h hz hs o
    rw [updateAllLoop, ht, Option.bind_some]
    rw [← hsi] at hz hs ho
    exact ih hl hz (by omega) ho

lemma updateAll_spec : ∃ t, heap.updateAll less = some t ∧ t.Inv le nodes := by
  unfold updateAll
  split_ifs with hl
  · refine ⟨heap, rfl, h, fun i hi his _ => ?_, hz.le⟩
    omega
  · refine updateAllLoop_spec hcmp h hz (by omega) fun i hi his hc => ?_
    unfold parent at hc
    omega

end

lemma insert_spec (isOom : Bool) (h : heap.Inv le nodes) (hz : heap.size < 2 ^ 31)
    (hn : node ∉ nodes) : ∃ ok t, heap.insert less node isOom = some (ok, t) ∧
      t.Inv le (if ok then Insert.insert node nodes else nodes) := by
  obtain ⟨ok, capacity, hr⟩ := reserve_some heap isOom hz
  have hl : Linked { heap with capacity := capacity } nodes := ⟨h.linked.pos_eq, h.linked.mem_iff⟩
  rw [insert, hr, Option.map_some]
  cases ok with
  | false => exact ⟨false, _, rfl, hl, h.ordered, hz.le⟩
  | true =>
    exact ⟨true, _, rfl, siftUp_spec hcmp (hl.push hn) hz (Nat.lt_succ_self _) (harr_push ..)
      (h.ordered.push fun i hi => congrArg heap.key (harr_push_of_lt hi))⟩

lemma update_spec {key : ν → κ} (h : heap.Inv le nodes) (hz : heap.size < 2 ^ 31)
    (hn : node ∈ nodes) (hk : ∀ other ≠ node, key other = heap.key other) :
    ∃ t, updateNode less { heap with key := key } node = some t ∧ t.Inv le nodes := by
  have := hcmp.trans
  obtain ⟨cur, hs, rfl⟩ := (h.linked.mem_iff node).mp hn
  have hl : Linked { heap with key := key } nodes := ⟨h.linked.pos_eq, h.linked.mem_iff⟩
  refine updateNode_spec hcmp hl hz hs rfl (h.ordered.hole le_rfl fun i hi hne => ?_)
  exact hk _ fun he => hne (h.linked.inj hi hs he)

lemma delete_spec (h : heap.Inv le nodes) (hn : node ∈ nodes) :
    ∃ t, heap.delete less node = some t ∧ t.Inv le (nodes.erase node) := by
  have := hcmp.trans
  obtain ⟨cur, hs, rfl⟩ := (h.linked.mem_iff node).mp hn
  have hz := h.size_le
  obtain ⟨last, hl⟩ : ∃ last, heap.size = last + 1 := ⟨heap.size - 1, by omega⟩
  have hp : cur ≠ heapNodeStrayPos := by
    unfold heapNodeStrayPos
    omega
  simp only [delete, h.linked.pos_eq cur hs, if_neg hp, hl, Nat.succ_ne_zero, if_false,
    Nat.add_sub_cancel]
  have hs : cur < last + 1 := hl ▸ hs
  split_ifs with hc
  · subst hc
    have hr : Linked { heap with
        size := cur, harr := update heap.harr cur (heap.harr cur)
        pos := update heap.pos (heap.harr cur) heapNodeStrayPos } _ :=
      h.linked.replace hs hl fun n hne => by rw [if_neg hne, update_of_ne hne]
    rw [update_eq_self] at hr
    exact ⟨_, rfl, hr, fun i hi hic => h.ordered i hi (hic.trans (hl ▸ hs)), hs.le.trans (hl ▸ hz)⟩
  · have hr : Linked (put { heap with
        size := last, pos := update heap.pos (heap.harr cur) heapNodeStrayPos } cur
        (heap.harr last)) _ :=
      h.linked.replace hs hl fun n hne => by simp [update_apply, hne]
    refine updateNode_spec hcmp hr (show last < _ by omega) (show cur < last by omega)
      (update_self ..) (h.ordered.hole (show last ≤ heap.size by omega) fun i hi hne => ?_)
    exact congrArg heap.key (update_of_ne hne ..)

end

end Core

inductive Op (ν κ : Type) where
  | insert (node : ν) (key : κ) (isOom : Bool)
  | delete (node : ν)
  | update (node : ν) (key : κ)
  | updateAll (key : ν → κ)

/-- A call, after the keys were set. The nodes inserted and not yet deleted are kept beside. -/
def step [DecidableEq ν] (less : κ → κ → Bool) :
    Core ν κ × Finset ν → Op ν κ → Option (Core ν κ × Finset ν)
  | (heap, nodes), .insert node key isOom =>
    (Core.insert less { heap with key := update heap.key node key } node isOom).map
      fun (ok, heap) =>
      (heap, if ok then insert node nodes else nodes)
  | (heap, nodes), .delete node => (heap.delete less node).map (·, nodes.erase node)
  | (heap, nodes), .update node key =>
    (Core.updateNode less { heap with key := update heap.key node key } node).map (·, nodes)
  | (heap, nodes), .updateAll key => (Core.updateAll less { heap with key := key }).map (·, nodes)

/-- A stray node is inserted, one in the heap is deleted or updated, and the heap has less than
2^31 nodes before a call that could make it larger or sift down from its last place. -/
def Fits (s : Core ν κ × Finset ν) : Op ν κ → Prop
  | .insert node _ _ => node ∉ s.2 ∧ s.1.size < 2 ^ 31
  | .delete node => node ∈ s.2
  | .update node _ => node ∈ s.2 ∧ s.1.size < 2 ^ 31
  | .updateAll _ => s.1.size < 2 ^ 31

variable {less : κ → κ → Bool} [DecidableEq ν]

lemma step_inv {le : κ → κ → Prop} (hcmp : Core.Compares less le) {s : Core ν κ × Finset ν}
    {op : Op ν κ} (h : s.1.Inv le s.2) (hf : Fits s op) :
    ∃ t, step less s op = some t ∧ t.1.Inv le t.2 := by
  obtain ⟨heap, nodes⟩ := s
  cases op with
  | insert node key isOom =>
    have hk : Core.Inv le { heap with key := update heap.key node key } nodes :=
      h.of_key fun n hn => update_of_ne (ne_of_mem_of_not_mem hn hf.1) ..
    obtain ⟨ok, t, ht, hi⟩ := Core.insert_spec hcmp isOom hk hf.2 hf.1
    exact ⟨_, by rw [step, ht]; rfl, hi⟩
  | delete node =>
    obtain ⟨t, ht, hi⟩ := Core.delete_spec hcmp h hf
    exact ⟨_, by rw [step, ht]; rfl, hi⟩
  | update node key =>
    obtain ⟨t, ht, hi⟩ := Core.update_spec hcmp h hf.2 hf.1 fun other hne =>
      update_of_ne hne key heap.key
    exact ⟨_, by rw [step, ht]; rfl, hi⟩
  | updateAll key =>
    have hl : Core.Linked { heap with key := key } nodes := ⟨h.linked.pos_eq, h.linked.mem_iff⟩
    obtain ⟨t, ht, hi⟩ := Core.updateAll_spec hcmp hl hf
    exact ⟨_, by rw [step, ht]; rfl, hi⟩

/-- Nodes `0`, `1`, … are inserted into an empty heap. -/
def filling (n : Nat) : List (Op Nat Unit) := (List.range n).map (.insert · () false)

lemma filling_succ (n : Nat) (s : Core Nat Unit × Finset Nat) :
    run (step fun _ _ => false) s (filling (n + 1)) =
      (run (step fun _ _ => false) s (filling n)).bind
      fun s => step (fun _ _ => false) s (.insert n () false) := by
  rw [filling, List.range_succ, List.map_append, run_append]
  simp [filling]

/-- Capacities are eight times a power of two. -/
def Sized (heap : Core Nat Unit) : Prop :=
  heap.capacity = 0 ∧ heap.size = 0 ∨
    ∃ k ≤ 28, heap.capacity = 8 * 2 ^ k ∧ heap.size ≤ heap.capacity

lemma reserve_sized {heap : Core Nat Unit} (hz : heap.size < 2 ^ 31) (hc : Sized heap) :
    ∃ k ≤ 28, heap.reserve false = some (true, { heap with capacity := 8 * 2 ^ k }) ∧
      heap.size < 8 * 2 ^ k := by
  obtain ⟨hc, hs⟩ | ⟨k, hk, hc, hs⟩ := hc
  · exact ⟨0, by omega, by simp [Core.reserve, hc, hs, heapInitialCapacity], by omega⟩
  by_cases hl : heap.size < heap.capacity
  · exact ⟨k, hk, by rw [Core.reserve, if_pos hl, ← hc], hc ▸ hl⟩
  · have hlt : k < 28 := (Nat.pow_lt_pow_iff_right (a := 2) (by omega)).mp (by omega)
    have h2 : heap.capacity * 2 % 2 ^ 32 = 8 * 2 ^ (k + 1) := by
      rw [Nat.mod_eq_of_lt (by omega), hc, pow_succ, mul_assoc]
    have hp := Nat.two_pow_pos k
    refine ⟨k + 1, hlt, ?_, by omega⟩
    simp only [Core.reserve, if_neg hl, if_neg (show heap.capacity ≠ 0 by omega), h2]
    rw [if_neg (by omega)]
    rfl

lemma filled {n : Nat} (hn : n ≤ 2 ^ 31) : ∃ heap nodes,
    run (step fun _ _ => false) (create id fun _ => (), ∅) (filling n) = some (heap, nodes) ∧
      heap.size = n ∧ Sized heap := by
  induction n with
  | zero => exact ⟨_, _, rfl, rfl, .inl ⟨rfl, rfl⟩⟩
  | succ n ih =>
    obtain ⟨heap, nodes, hr, rfl, hc⟩ := ih (by omega)
    obtain ⟨k, hk, he, hs⟩ := reserve_sized hn hc
    refine ⟨Core.push { heap with capacity := 8 * 2 ^ k } heap.size, insert heap.size nodes, ?_,
      rfl, .inr ⟨k, hk, rfl, hs⟩⟩
    rw [filling_succ, hr, Option.bind_some]
    simp only [step, Subsingleton.elim (update heap.key _ _) heap.key, Core.insert, he,
      Option.map_some, if_true]
    rw [Core.siftUp, Core.siftUpLoop]
    simp

end TarantoolStorage.Heap
