import TarantoolStorage.Update.Nested

/-!
The nested '#' has two slips: the count is added to an index in 32 bits, and the size of the key
of a pair is computed again.
-/
namespace TarantoolStorage.Update

open MsgPack TarantoolStorage.Vinyl List Option Node Shape List

variable {node container child : Node} {before after tail tuple : Bytes} {last : Token}
  {path : List Token} {count i n : Nat}

lemma length_of_mpNextTimes {k : Nat} {pos rest : Bytes} (h : mpNextTimes k pos = some rest) :
    rest.length + k ≤ pos.length := by
  induction k generalizing pos with
  | zero =>
    cases h
    exact Nat.le_refl _
  | succ k ih =>
    obtain ⟨next, hne, h⟩ := bind_eq_some_iff.1 h
    have hl := length_of_mpNext hne
    have hle := ih h
    omega

lemma length_between {start finish bytes : Bytes} (h : between start finish = some bytes) :
    bytes.length + finish.length = start.length := by
  unfold between at h
  split at h
  next hl =>
    obtain rfl := some.inj h
    rw [length_take]
    omega
  · cases h

lemma index_array (hhead : container.head = .array n)
    (hi : nodeShape.index last container = some i) : last = .num i ∧ i < n := by
  simp only [index, nodeShape, hhead, childIndex] at hi
  cases last with
  | num index =>
    simp only [ite_none_right_eq_some, some.injEq] at hi
    obtain ⟨hl, rfl⟩ := hi
    exact ⟨rfl, hl⟩
  | str _ | any _ | bad _ => cases hi

lemma index_map (hhead : container.head = .map n)
    (hi : nodeShape.index last container = some i) : 1 ≤ i ∧ i < container.children.length := by
  simp only [index, nodeShape, hhead, childIndex] at hi
  simpa using pairIndex_spec hi

lemma wf_cut (hc : container.WF) {a b : Nat} :
    ∀ m ∈ container.children.take a ++ container.children.drop b, m.WF := by
  intro m hm
  rcases mem_append.1 hm with hm | hm
  · exact hc.children m (mem_of_mem_take hm)
  · exact hc.children m (mem_of_mem_drop hm)

/-- The values of a container from one place to another are cut out. -/
structure Cut (container : Node) (rest : Bytes) (a b : Nat) (place : Place) : Prop where
  le : a ≤ b
  le_length : b ≤ container.children.length
  parent : place.parent = container.bytes ++ rest
  point : place.point = bytesAll (container.children.drop a) ++ rest
  pointSize : place.pointSize + (bytesAll (container.children.drop b)).length =
    (bytesAll (container.children.drop a)).length

namespace Cut

variable {rest : Bytes} {a b : Nat} {place : Place}

lemma drop_point (h : Cut container rest a b place) :
    place.point.drop place.pointSize = bytesAll (container.children.drop b) ++ rest := by
  have hs : bytesAll (container.children.drop a) =
      bytesAll ((container.children.drop a).take (b - a)) ++
        bytesAll (container.children.drop b) := by
    rw [bytesAll_take_drop (container.children.drop a) (b - a), drop_drop, Nat.add_sub_cancel' h.le]
  have hl := h.pointSize
  rw [hs, length_append] at hl
  have hsize : place.pointSize = (bytesAll ((container.children.drop a).take (b - a))).length := by
    omega
  rw [h.point, hs, append_assoc, hsize, drop_left]

lemma before_point (h : Cut container rest a b place) :
    between (bytesAll container.children ++ rest) place.point =
      some (bytesAll (container.children.take a)) := by
  refine between_eq ?_
  rw [h.point, bytesAll_take_drop container.children a, append_assoc]

lemma after_point (h : Cut container (after ++ tail) a b place) :
    between (place.point.drop place.pointSize) tail =
      some (bytesAll (container.children.drop b) ++ after) :=
  between_eq (by rw [h.drop_point, append_assoc])

lemma length_cut (h : Cut container rest a b place) :
    (container.children.take a ++ container.children.drop b).length =
      container.children.length - (b - a) := by
  have := h.le
  have := h.le_length
  simp only [length_append, length_take, length_drop]
  omega

end Cut

section Stores

variable {a b : Nat} {place : Place} {action : Action Node}
  (hfocus : Focus path node before container after last) (hnode : node.WF)
  (hcut : Cut container (after ++ tail) a b place)
  (hedit : nodeShape.edit last container action =
    some (nodeShape.recount container (container.children.take a ++ container.children.drop b)))
include hfocus hnode hcut hedit

lemma stores_cut_array (hhead : container.head = .array n) (hn : n < 2 ^ 32) (hco : count = b - a) :
    Stores (.delete place count) node tail path action (excess container) := by
  have hc := hfocus.wf hnode
  obtain ⟨hln, ht, hd, hh⟩ := reads_array hc hhead (after ++ tail)
  have hle := hcut.le
  have hll := hcut.le_length
  have hl := hcut.length_cut
  have hk : uint32 (n - count) = n - (b - a) := by
    unfold uint32
    omega
  rw [hln] at hl
  refine stores_recount hfocus hnode hedit
    (wf_recount_array hhead (by omega) (@wf_cut container hc a b)) ?_ ?_
  · have hp := hcut.before_point
    simp [barStore, hcut.parent, between_container hfocus, ht, hd, hp,
      hcut.after_point, hk, recountRaw, hhead, hl, bytesAll_append]
  · have hp := hcut.pointSize
    have hs := congrArg length (@bytes_split container a)
    simp only [length_append] at hs
    simp only [barSizeof, hcut.parent, ht, if_true, hd, map_some, hk,
      size_eq hfocus, excess, hhead, headerSize, recountRaw, hl, length_mpEncodeArray,
      bytesAll_append, length_append]
    unfold uint32
    congr 1
    omega

lemma stores_cut_map (hhead : container.head = .map n) (hn : n < 2 ^ 31) (ha : b = a + 2) :
    Stores (.delete place 1) node tail path action (excess container) := by
  have hc := hfocus.wf hnode
  obtain ⟨hln, ht, hd, hh⟩ := reads_map hc hhead (after ++ tail)
  have hle := hcut.le_length
  have hl := hcut.length_cut
  have hl' : (container.children.take a ++ container.children.drop b).length = 2 * (n - 1) := by
    omega
  have hk : uint32 (n - 1) = n - 1 := by
    unfold uint32
    omega
  refine stores_recount hfocus hnode hedit
    (wf_recount_map hhead hl' (by omega) (@wf_cut container hc a b)) ?_ ?_ <;>
    rw [recountRaw_map hhead hl']
  · have hp := hcut.before_point
    simp [barStore, hcut.parent, between_container hfocus, ht, hd, hp,
      hcut.after_point, hk, bytesAll_append]
  · have hp := hcut.pointSize
    have hs := congrArg length (@bytes_split container a)
    simp only [length_append] at hs
    simp only [barSizeof, hcut.parent, ht, some.injEq, reduceCtorEq, if_false, hd,
      map_some, hk, size_eq hfocus, excess, hhead, headerSize, length_mpEncodeMap,
      bytesAll_append, length_append]
    unfold uint32
    congr 1
    omega

end Stores

lemma edit_pair (hhead : container.head = .map n)
    (hi : nodeShape.index last container = some i) (count : Nat) :
    nodeShape.edit last container (.delete count) =
      if count = 1 then some (nodeShape.recount container
        (container.children.take (i - 1) ++ container.children.drop (i + 1)))
      else none := by
  have hhead' : nodeShape.head container = .map n := hhead
  simp only [edit, hi, hhead']
  rfl

section Located

variable (hfocus : Focus path node before container after last) (hnode : node.WF)
  (hi : nodeShape.index last container = some i)
  (hchild : container.children[i]? = some child)
  (hlocate : barLocate (fieldOf node tail).data (fieldOf node tail).data 0 path =
    .ok (foundPlace container child i last (after ++ tail)))

include hfocus hnode hi hchild hlocate

/-- A count that does not wrap is cut to the elements that remain. -/
lemma doNopDelete_array (tuple : Bytes) (hhead : container.head = .array n) (hn : n < 2 ^ 32)
    (hco : 0 < count) (hlt : i + count < 2 ^ 32) :
    ∃ bar, doNopDelete tuple (fieldOf node tail) path count = .ok bar ∧
      Stores bar node tail path (.delete count) (excess container) := by
  have hc := hfocus.wf hnode
  obtain ⟨hl, ht, hde, -⟩ := reads_array hc hhead (after ++ tail)
  obtain ⟨rfl, hin⟩ := index_array hhead hi
  obtain ⟨kept, hk⟩ : ∃ kept, min count (n - i) = kept := ⟨_, rfl⟩
  have hcut : (if n < uint32 (i + count) then uint32 (n - i) else count) = kept := by
    unfold uint32
    split <;> omega
  have hne : mpNextTimes (kept - 1) (((bytesAll (container.children.drop i) ++
      (after ++ tail))).drop child.bytes.length) =
      some (bytesAll (container.children.drop (i + kept)) ++ (after ++ tail)) := by
    rw [bytesAll_split hchild, append_assoc, drop_left,
      mpNextTimes_bytesAll (fun m hm => hc.children m (mem_of_mem_drop hm))
        (by rw [length_drop]; omega), drop_drop]
    have ha : i + 1 + (kept - 1) = i + kept := by omega
    rw [ha]
  have hedit : nodeShape.edit (.num i) container (.delete count) = some (nodeShape.recount container
        (container.children.take i ++ container.children.drop (i + kept))) := by
    have hhead' : nodeShape.head container = .array n := hhead
    have hd : container.children.drop (i + count) = container.children.drop (i + kept) := by
      by_cases hle : count ≤ n - i
      · obtain rfl : kept = count := by omega
        rfl
      · rw [drop_of_length_le (by omega), drop_of_length_le (by omega)]
    simp only [edit, hi, hhead']
    rw [← hd]
    rfl
  refine ⟨.delete { foundPlace container child i (.num i) (after ++ tail) with
    pointSize := (bytesAll (container.children.drop i) ++ (after ++ tail)).length -
      (bytesAll (container.children.drop (i + kept)) ++ (after ++ tail)).length } kept, ?_, ?_⟩
  · simp [doNopDelete, hlocate, Outcome.bind_eq, Outcome.ok_bind, foundPlace, ht, hde,
      Outcome.ofOption_some, Token.keyLenOrIndex, hcut, hne, Outcome.pure_eq]
  · refine stores_cut_array hfocus hnode ?_ hedit hhead hn (by omega)
    have hd := bytesAll_take_drop (container.children.drop i) kept
    rw [drop_drop] at hd
    refine ⟨by omega, by omega, rfl, rfl, ?_⟩
    have hs := congrArg length hd
    simp only [length_append] at hs ⊢
    omega

/-- A count that wraps is not cut, and the search for its end leaves the tuple. -/
lemma doNopDelete_wraps (hhead : container.head = .array n)
    (hsize : node.bytes.length + tail.length + 1 < 2 ^ 32) (hco : count < 2 ^ 32)
    (hg : 2 ^ 32 ≤ i + count) :
    doNopDelete tuple (fieldOf node tail) path count = .undefined := by
  have hc := hfocus.wf hnode
  obtain ⟨hle, ht, hd, -⟩ := reads_array hc hhead (after ++ tail)
  obtain ⟨rfl, hin⟩ := index_array hhead hi
  have hcut : (if n < uint32 (i + count) then uint32 (n - i) else count) = count := by
    unfold uint32
    split <;> omega
  have hdr : ((bytesAll (container.children.drop i) ++ (after ++ tail))).drop
      child.bytes.length = bytesAll (container.children.drop (i + 1)) ++ (after ++ tail) := by
    rw [bytesAll_split hchild, append_assoc, drop_left]
  have hne : mpNextTimes (count - 1)
      (bytesAll (container.children.drop (i + 1)) ++ (after ++ tail)) = none := by
    cases hne : mpNextTimes (count - 1)
        (bytesAll (container.children.drop (i + 1)) ++ (after ++ tail)) with
    | none => rfl
    | some rest =>
      exfalso
      have hl := length_of_mpNextTimes hne
      have hb := congrArg length hfocus.bytes_eq
      have hs := congrArg length (@bytes_split container i)
      have hta := length_le_bytesAll (fun m hm => hc.children m (mem_of_mem_take hm) :
          ∀ m ∈ container.children.take i, m.WF)
      have hpos := length_bytes_pos (hc.children child (mem_of_getElem? hchild))
      rw [bytesAll_split hchild] at hs
      simp only [length_append, length_take] at hl hb hs hta
      omega
  simp only [doNopDelete, hlocate, Outcome.bind_eq, Outcome.ok_bind, foundPlace, ht, if_true,
    hd, Outcome.ofOption_some, Token.keyLenOrIndex, hcut, hdr, hne]
  rfl

/-- The point of a '#' in a map, moved back over a key of the size that was computed. -/
def pairPlace (container child : Node) (i : Nat) (last : Token) (rest point : Bytes) : Place :=
  { foundPlace container child i last rest with
    point
    pointSize := child.bytes.length + mpSizeofStr last.keyLenOrIndex }

omit hi hchild in
lemma doNopDelete_map (hhead : container.head = .map n) :
    doNopDelete tuple (fieldOf node tail) path count = if count ≠ 1 then .error errDelete1
      else if tuple.length < (bytesAll (container.children.drop i) ++ (after ++ tail)).length +
          mpSizeofStr last.keyLenOrIndex then .undefined
      else .ok (.delete (pairPlace container child i last (after ++ tail)
        (tuple.drop (tuple.length - ((bytesAll (container.children.drop i) ++
          (after ++ tail)).length + mpSizeofStr last.keyLenOrIndex)))) 1) := by
  obtain ⟨-, ht, -⟩ := reads_map (hfocus.wf hnode) hhead (after ++ tail)
  simp only [doNopDelete, hlocate, Outcome.bind_eq, Outcome.ok_bind, foundPlace, ht,
    some.injEq, reduceCtorEq, if_false]
  split
  · rfl
  · split <;> rfl

variable {key : Node} {front : Bytes}
  (hhead : container.head = .map n) (hkey : container.children[i - 1]? = some key)
  (hn : n < 2 ^ 31)

include hhead hkey hn

lemma stores_delete_pair (ht : tuple = front ++ (fieldOf node tail).data)
    (hsize : mpSizeofStr last.keyLenOrIndex = key.bytes.length) :
    ∃ bar, doNopDelete tuple (fieldOf node tail) path 1 = .ok bar ∧
      Stores bar node tail path (.delete 1) (excess container) := by
  obtain ⟨ho, hlt⟩ := index_map hhead hi
  have hp : bytesAll (container.children.drop (i - 1)) =
      key.bytes ++ bytesAll (container.children.drop i) := by
    rw [bytesAll_split hkey, Nat.sub_add_cancel ho]
  have hs : tuple = front ++ (before ++ (container.raw ++
      bytesAll (container.children.take (i - 1)))) ++
      (key.bytes ++ (bytesAll (container.children.drop i) ++ (after ++ tail))) := by
    rw [ht, data_eq hfocus, bytes_split (i - 1), hp]
    simp
  have hl := congrArg length hs
  rw [length_append, @length_append _ key.bytes] at hl
  have hpo : tuple.drop (tuple.length - ((bytesAll (container.children.drop i) ++
      (after ++ tail)).length + mpSizeofStr last.keyLenOrIndex)) =
      bytesAll (container.children.drop (i - 1)) ++ (after ++ tail) := by
    have hd : tuple.length - ((bytesAll (container.children.drop i) ++
        (after ++ tail)).length + mpSizeofStr last.keyLenOrIndex) =
        (front ++ (before ++ (container.raw ++
          bytesAll (container.children.take (i - 1))))).length := by
      omega
    rw [hd, hs, drop_left, hp, append_assoc]
  have hcut : Cut container (after ++ tail) (i - 1) (i + 1)
      (pairPlace container child i last (after ++ tail)
        (bytesAll (container.children.drop (i - 1)) ++ (after ++ tail))) := by
    refine ⟨by omega, by omega, rfl, rfl, ?_⟩
    have hl₁ := congrArg length hp
    have hl₂ := congrArg length (bytesAll_split hchild)
    rw [length_append] at hl₁ hl₂
    simp only [pairPlace]
    omega
  refine ⟨_, ?_, stores_cut_map hfocus hnode hcut (edit_pair hhead hi 1) hhead hn (by omega)⟩
  rw [doNopDelete_map hfocus hnode hlocate hhead, if_neg (by simp), if_neg (by omega), hpo]

/-- Another size leaves a part of the key, or takes more than the key along. -/
lemma not_stores_delete_pair (hsize : mpSizeofStr last.keyLenOrIndex ≠ key.bytes.length)
    {bar : Bar} {stored : Bytes} {node' : Node}
    (hba : doNopDelete tuple (fieldOf node tail) path 1 = .ok bar)
    (hs : barStore (fieldOf node tail) bar = some stored)
    (hnode' : nodeShape.editAt (.delete 1) path node = some node') :
    stored ≠ node'.bytes := by
  obtain ⟨hc, ht, hd, -⟩ := reads_map (hfocus.wf hnode) hhead (after ++ tail)
  obtain ⟨ho, hlt⟩ := index_map hhead hi
  have hk : uint32 (n - 1) = n - 1 := by
    unfold uint32
    omega
  obtain ⟨node'', hnode'', hb, -⟩ := hfocus.editAt hnode (edit_pair hhead hi 1)
  obtain rfl : node'' = node' := some.inj (hnode''.symm.trans hnode')
  have hl : (container.children.take (i - 1) ++ container.children.drop (i + 1)).length =
      2 * (n - 1) := by
    simp only [length_append, length_take, length_drop]
    omega
  rw [recount_map hhead hl, bytes, bytesAll_append] at hb
  -- the bytes that are stored, by their number
  rw [doNopDelete_map hfocus hnode hlocate hhead, if_neg (by simp)] at hba
  split at hba
  · cases hba
  next hr =>
    obtain ⟨point, hp⟩ : ∃ point, tuple.drop (tuple.length -
        ((bytesAll (container.children.drop i) ++ (after ++ tail)).length +
          mpSizeofStr last.keyLenOrIndex)) = point := ⟨_, rfl⟩
    have hpo := congrArg length hp
    rw [length_drop] at hpo
    rw [hp] at hba
    cases hba
    simp only [barStore, pairPlace, foundPlace, between_container hfocus, ht, hd,
      some.injEq, reduceCtorEq, if_false, map_some, bind_eq_bind,
      bind_some, hk, fieldOf_finish] at hs
    obtain ⟨beforePoint, hbp, hs⟩ := bind_eq_some_iff.1 hs
    obtain ⟨afterPoint, ha, hs⟩ := bind_eq_some_iff.1 hs
    obtain rfl := some.inj hs
    have hle₁ := length_between hbp
    have hle₂ := length_between ha
    have hle₃ := congrArg length (@bytes_split container (i - 1))
    have hle₄ := congrArg length (bytesAll_split hkey)
    have hle₅ := congrArg length (bytesAll_split hchild)
    have hle₆ := congrArg length (bytes_eq container)
    intro he
    have hle := congrArg length (he.trans hb)
    rw [Nat.sub_add_cancel ho] at hle₄
    simp only [length_append, length_drop] at *
    omega

end Located

/-- Where '#' removes what it should: in an array an index and a count that do not wrap, in a map a
key whose size is the one computed again. -/
def SafeDelete (container : Node) (last : Token) (count : Nat) : Prop :=
  ∀ i, nodeShape.index last container = some i → match container.head with
    | .array _ => i + count < 2 ^ 32
    | _ => count = 1 → ∀ key, container.children[i - 1]? = some key →
        mpSizeofStr last.keyLenOrIndex = key.bytes.length

section Operation

variable (hnode : node.WF) (hpath : path ≠ [])
  (hsize : node.bytes.length + tail.length + 1 < 2 ^ 32) (hpos : 0 < count)

include hnode hpath hsize hpos

lemma doNopDelete_done {front : Bytes} (ht : tuple = front ++ (fieldOf node tail).data)
    (hs : ∀ container last, nodeShape.containerAt path node = some (container, last) →
      SafeDelete container last count) :
    Done (doNopDelete tuple (fieldOf node tail) path count) node tail path (.delete count) := by
  cases located hnode hpath tail with
  | nothing he _ hno => exact .inl ⟨⟨_, by rw [doNopDelete, he]; rfl⟩, hno _⟩
  | @found _ container _ last i _ hfocus hi hchild heq _ =>
    have hc := hfocus.wf hnode
    have hl := hc.length_children
    have hco := count_lt hfocus hnode (by omega)
    have hs := hs container last hfocus.containerAt i hi
    cases hhead : container.head with
    | array n =>
      simp only [hhead, Head.nested] at hs hl
      obtain ⟨bar, hb, hst⟩ := doNopDelete_array hfocus hnode hi hchild heq tuple hhead
        (by omega) hpos hs
      exact .inr ⟨bar, container, last, hb, hfocus.containerAt, hst⟩
    | map n =>
      simp only [hhead, Head.nested] at hs hl
      by_cases ho : count = 1
      · subst ho
        obtain ⟨hg, hlt⟩ := index_map hhead hi
        have hkey := getElem?_eq_getElem (show i - 1 < container.children.length by omega)
        obtain ⟨bar, hb, hst⟩ := stores_delete_pair hfocus hnode hi hchild heq hhead hkey
          (by omega) ht (hs rfl _ hkey)
        exact .inr ⟨bar, container, last, hb, hfocus.containerAt, hst⟩
      · left
        refine ⟨⟨errDelete1, ?_⟩, hfocus.editAt_eq_none ?_⟩
        · rw [doNopDelete_map hfocus hnode heq hhead, if_pos ho]
        · rw [edit_pair hhead hi, if_neg ho]
    | uint _ | int _ | str _ | other _ => simp [index, nodeShape, hhead, childIndex] at hi
  | missing hfocus hin he _ =>
    refine .inl ⟨⟨_, by rw [doNopDelete, he]; rfl⟩, hfocus.editAt_eq_none ?_⟩
    simp [edit, hin]

/-- Where the condition fails the operation is not defined, or does not store the edited field. -/
lemma doNopDelete_not_done (hlt : count < 2 ^ 32)
    (hc : nodeShape.containerAt path node = some (container, last))
    (hnt : ¬ SafeDelete container last count) :
    doNopDelete tuple (fieldOf node tail) path count = .undefined ∨
      ∃ bar node', doNopDelete tuple (fieldOf node tail) path count = .ok bar ∧
        nodeShape.editAt (.delete count) path node = some node' ∧
        ∀ stored, barStore (fieldOf node tail) bar = some stored → stored ≠ node'.bytes := by
  obtain ⟨i, hi⟩ : ∃ i, nodeShape.index last container = some i := by
    by_contra hno
    exact hnt fun i hi => absurd ⟨i, hi⟩ hno
  have same {before after : Bytes} {container' : Node} {last' : Token}
      (hfocus : Focus path node before container' after last') :
      container' = container ∧ last' = last :=
    Prod.mk.inj (some.inj (hfocus.containerAt.symm.trans hc))
  cases located hnode hpath tail with
  | nothing _ _ hno =>
    -- a value could be set there
    obtain ⟨before, after, hfocus⟩ := exists_focus hc
    have hedit : nodeShape.edit last container (.set node) =
        some (nodeShape.keep container (container.children.set i node)) := by
      simp only [edit, hi]
      rfl
    obtain ⟨node', hnode', -⟩ := hfocus.editAt hnode hedit
    rw [hno] at hnode'
    cases hnode'
  | missing hfocus hin _ _ =>
    obtain ⟨rfl, rfl⟩ := same hfocus
    rw [hi] at hin
    cases hin
  | @found _ container' _ last' _ _ hfocus hj hchild he _ =>
    obtain ⟨rfl, rfl⟩ := same hfocus
    obtain rfl := some.inj (hj.symm.trans hi)
    have hw := hfocus.wf hnode
    have hl := hw.length_children
    have hco := count_lt hfocus hnode (by omega)
    simp only [SafeDelete, hi, some.injEq, forall_eq'] at hnt
    cases hhead : container'.head with
    | array n =>
      simp only [hhead] at hnt
      exact .inl (doNopDelete_wraps hfocus hnode hi hchild he hhead hsize hlt (by omega))
    | map n =>
      simp only [hhead, Head.nested] at hnt hl
      simp only [Classical.not_imp, not_forall] at hnt
      obtain ⟨rfl, key, hkey, hne⟩ := hnt
      obtain ⟨node', hnode', -, -⟩ := hfocus.editAt hnode
        (by rw [edit_pair hhead hi, if_pos rfl] : nodeShape.edit last' container' (.delete 1) = _)
      cases hb : doNopDelete tuple (fieldOf node tail) path 1 with
      | undefined => exact .inl rfl
      | error e =>
        rw [doNopDelete_map hfocus hnode he hhead, if_neg (by simp)] at hb
        split at hb <;> cases hb
      | ok bar =>
        refine .inr ⟨bar, node', rfl, hnode', fun stored hs => ?_⟩
        exact not_stores_delete_pair hfocus hnode hi hchild he hhead hkey (by omega) hne hb
          hs hnode'
    | uint _ | int _ | str _ | other _ => simp [index, nodeShape, hhead, childIndex] at hi

end Operation

lemma mpSizeofArray_mono {m : Nat} (h : m ≤ n) : mpSizeofArray m ≤ mpSizeofArray n := by
  unfold mpSizeofArray
  split_ifs <;> omega

lemma mpSizeofMap_mono {m : Nat} (h : m ≤ n) : mpSizeofMap m ≤ mpSizeofMap n := mpSizeofArray_mono h

lemma length_recount_le (hc : container.WF)
    (hi : nodeShape.index last container = some i) {nodes : List Node}
    (hl : nodes.length ≤ container.children.length)
    (hb : (bytesAll nodes).length ≤ (bytesAll container.children).length) :
    (nodeShape.recount container nodes).bytes.length + excess container ≤
      container.bytes.length := by
  have hh := headerSize_le hc
  have hco := hc.length_children
  have hr : (recountRaw container nodes.length).length + excess container ≤
      container.raw.length := by
    unfold recountRaw excess
    cases hhead : container.head with
    | array n =>
      simp only [hhead, headerSize, Head.nested] at hh hco ⊢
      have hm := mpSizeofArray_mono (hl.trans hco.le)
      rw [length_mpEncodeArray]
      omega
    | map n =>
      simp only [hhead, headerSize, Head.nested] at hh hco ⊢
      have hm := mpSizeofMap_mono (show nodes.length / 2 ≤ n by omega)
      rw [length_mpEncodeMap]
      omega
    | uint _ | int _ | str _ | other _ => simp [index, nodeShape, hhead, childIndex] at hi
  rw [bytes_eq container, length_append]
  change (recountRaw container nodes.length ++ bytesAll nodes).length + _ ≤ _
  rw [length_append]
  omega

lemma length_cut_le (nodes : List Node) {a b : Nat} (h : a ≤ b) :
    (nodes.take a ++ nodes.drop b).length ≤ nodes.length ∧
      (bytesAll (nodes.take a ++ nodes.drop b)).length ≤ (bytesAll nodes).length := by
  have hs := bytesAll_take_drop nodes a
  have hs' := bytesAll_take_drop (nodes.drop a) (b - a)
  rw [drop_drop, Nat.add_sub_cancel' h] at hs'
  have hl := congrArg length hs
  rw [hs', length_append, length_append] at hl
  rw [bytesAll_append]
  simp only [length_append, length_take, length_drop]
  omega

lemma length_delete_le (hnode : node.WF)
    (hc : nodeShape.containerAt path node = some (container, last)) {node' : Node}
    (hnode' : nodeShape.editAt (.delete count) path node = some node') :
    node'.bytes.length + excess container ≤ node.bytes.length := by
  obtain ⟨before, after, hfocus⟩ := exists_focus hc
  have hw := hfocus.wf hnode
  obtain ⟨container', hedit⟩ : ∃ container',
      nodeShape.edit last container (.delete count) = some container' := by
    cases hedit : nodeShape.edit last container (.delete count) with
    | none =>
      rw [hfocus.editAt_eq_none hedit] at hnode'
      cases hnode'
    | some container' => exact ⟨container', rfl⟩
  obtain ⟨node'', hnode'', hb, -⟩ := hfocus.editAt hnode hedit
  obtain rfl : node'' = node' := some.inj (hnode''.symm.trans hnode')
  have hl : container'.bytes.length + excess container ≤ container.bytes.length := by
    cases hi : nodeShape.index last container with
    | none => simp [edit, hi] at hedit
    | some i =>
      cases hhead : nodeShape.head container with
      | array n =>
        simp only [edit, hi, hhead, some.injEq] at hedit
        obtain ⟨h₁, h₂⟩ := length_cut_le container.children (Nat.le_add_right i count)
        rw [← hedit]
        exact length_recount_le hw hi h₁ h₂
      | _ =>
        simp only [edit, hi, hhead, ite_none_right_eq_some, some.injEq] at hedit
        obtain ⟨h₁, h₂⟩ := length_cut_le container.children (show i - 1 ≤ i + 1 by omega)
        rw [← hedit.2]
        exact length_recount_le hw hi h₁ h₂
  rw [hb, hfocus.bytes_eq]
  simp only [length_append]
  omega

end TarantoolStorage.Update
