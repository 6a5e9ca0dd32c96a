import TarantoolStorage.Update.Locate

/-! A nested operation stores the edited document. -/
namespace TarantoolStorage.Update

open MsgPack TarantoolStorage.Vinyl List Option Node

variable {node container child value : Node} {nodes : List Node} {before after tail : Bytes}
  {token last : Token} {path : List Token} {n : Nat}

lemma length_mpEncodeArray (n : Nat) : (mpEncodeArray n).length = mpSizeofArray n := by
  unfold mpEncodeArray mpSizeofArray
  split_ifs <;> simp [length_storeBe]

lemma length_mpEncodeMap (n : Nat) : (mpEncodeMap n).length = mpSizeofMap n := by
  unfold mpEncodeMap mpSizeofMap
  split_ifs <;> simp [length_storeBe]

lemma length_mpEncodeStr (s : Bytes) : (mpEncodeStr s).length = mpSizeofStr s.length := by
  unfold mpEncodeStr mpEncodeStrl mpSizeofStr
  split_ifs <;> simp [length_storeBe] <;> omega

lemma uint32_of_lt (h : n < 2 ^ 32) : uint32 n = n := by
  unfold uint32
  omega

lemma between_eq {a b c : Bytes} (h : a = c ++ b) : between a b = some c := by
  subst h
  simp [between]

def headerSize : Head → Nat
  | .array count => mpSizeofArray count
  | .map count => mpSizeofMap count
  | _ => 0

lemma headerSize_le (h : node.WF) : headerSize node.head ≤ node.raw.length := by
  obtain ⟨hra, -, -, -⟩ := h
  rename_i raw head children
  have hr : Reads raw [] head := by
    have := reads_of_decodeHead (hra [])
    rwa [append_nil] at this
  change headerSize head ≤ raw.length
  cases head with
  | array n =>
    rw [headerSize, ← length_mpEncodeArray]
    exact length_mpEncodeArray_le hr
  | map n =>
    rw [headerSize, ← length_mpEncodeMap]
    exact length_mpEncodeMap_le hr
  | uint _ | int _ | str _ | other _ => exact Nat.zero_le _

lemma reads_array (h : container.WF) (hhe : container.head = .array n) (rest : Bytes) :
    container.children.length = n ∧ headType (container.bytes ++ rest) = some .array ∧
      mpDecodeArray (container.bytes ++ rest) = some (n, bytesAll container.children ++ rest) ∧
      mpSizeofArray n ≤ container.raw.length := by
  have hl := h.length_children
  have hr := h.reads rest
  have hh := headerSize_le h
  simp only [hhe, Reads, Head.nested, headerSize] at hl hr hh
  exact ⟨hl, hr.1, hr.2, hh⟩

lemma reads_map (h : container.WF) (hhe : container.head = .map n) (rest : Bytes) :
    container.children.length = 2 * n ∧ headType (container.bytes ++ rest) = some .map ∧
      mpDecodeMap (container.bytes ++ rest) = some (n, bytesAll container.children ++ rest) ∧
      mpSizeofMap n ≤ container.raw.length := by
  have hl := h.length_children
  have hr := h.reads rest
  have hh := headerSize_le h
  simp only [hhe, Reads, Head.nested, headerSize] at hl hr hh
  exact ⟨hl, hr.1, hr.2, hh⟩

lemma recount_array (hh : container.head = .array n) (nodes : List Node) :
    nodeShape.recount container nodes =
      .mk (mpEncodeArray nodes.length) (.array nodes.length) nodes := by
  simp [nodeShape, recountRaw, recountHead, hh]

lemma recountRaw_map {m : Nat} (hh : container.head = .map n) (hl : nodes.length = 2 * m) :
    recountRaw container nodes.length = mpEncodeMap m := by
  have hm : nodes.length / 2 = m := by omega
  simp [recountRaw, hh, hm]

lemma recount_map {m : Nat} (hh : container.head = .map n) (hl : nodes.length = 2 * m) :
    nodeShape.recount container nodes = .mk (mpEncodeMap m) (.map m) nodes := by
  have hm : nodes.length / 2 = m := by omega
  simp [nodeShape, recountRaw, recountHead, hh, hm]

lemma wf_recount_array (hh : container.head = .array n) (hl : nodes.length < 2 ^ 32)
    (h : ∀ m ∈ nodes, m.WF) : (nodeShape.recount container nodes).WF := by
  rw [recount_array hh]
  exact ⟨decodeHead_encodeArray hl, rfl, by simp, h⟩

lemma wf_recount_map {m : Nat} (hh : container.head = .map n) (hl : nodes.length = 2 * m)
    (hm : m < 2 ^ 31) (h : ∀ m ∈ nodes, m.WF) : (nodeShape.recount container nodes).WF := by
  rw [recount_map hh hl]
  refine ⟨decodeHead_encodeMap (by omega), hl, ?_, h⟩
  rintro k hk
  cases hk
  exact hm

lemma wf_str {key : Bytes} (h : key.length < 2 ^ 32) : (nodeShape.str key).WF := by
  refine ⟨decodeHead_encodeStr h, rfl, by simp, by simp⟩

def fieldOf (node : Node) (tail : Bytes) : Field where
  data := node.bytes ++ tail
  size := node.bytes.length

@[simp] lemma fieldOf_finish : (fieldOf node tail).finish = tail := by
  simp [fieldOf, Field.finish]

/-- What the size that is computed beforehand has too much: the container's header may be longer
than it has to be. -/
def excess (container : Node) : Nat := container.raw.length - headerSize container.head

def slack (container : Node) (last : Token) : Action Node → Nat
  | .set _ => if (nodeShape.index last container).isSome then 0 else excess container
  | _ => excess container

def Stores (bar : Bar) (node : Node) (tail : Bytes) (path : List Token) (action : Action Node)
    (slack : Nat) : Prop :=
  ∃ node', nodeShape.editAt action path node = some node' ∧ node'.WF ∧
    barStore (fieldOf node tail) bar = some node'.bytes ∧
    barSizeof (fieldOf node tail) bar = some (uint32 (node'.bytes.length + slack))

lemma bytes_split (i : Nat) : container.bytes =
    container.raw ++ (bytesAll (container.children.take i) ++
      bytesAll (container.children.drop i)) := by
  rw [bytes_eq, ← bytesAll_take_drop]

lemma data_eq (h : Focus path node before container after last) :
    (fieldOf node tail).data = before ++ (container.bytes ++ (after ++ tail)) := by
  simp [fieldOf, h.bytes_eq]

lemma size_eq (h : Focus path node before container after last) :
    (fieldOf node tail).size = before.length + (container.bytes.length + after.length) := by
  simp [fieldOf, h.bytes_eq]

section Focused

variable (hfocus : Focus path node before container after last) (hnode : node.WF)
include hfocus hnode

lemma stores_set {i : Nat} (hvalue : value.WF) (hi : nodeShape.index last container = some i)
    (hch : container.children[i]? = some child) :
    Stores (.set (foundPlace container child i last (after ++ tail)) value.bytes
      (uint32 value.bytes.length)) node tail path (.set value) 0 := by
  have hc := hfocus.wf hnode
  have hlt := index_lt hc hi
  have he : nodeShape.edit last container (.set value) =
      some (nodeShape.keep container (container.children.set i value)) := by
    simp only [Shape.edit, hi]
    rfl
  obtain ⟨node', hnode', hby, hw⟩ := hfocus.editAt hnode he
  have hc' : (nodeShape.keep container (container.children.set i value)).WF := by
    refine hc.keep (by simp) fun m hm => ?_
    rcases mem_or_eq_of_mem_set hm with hm | rfl
    · exact hc.children m hm
    · exact hvalue
  have hs := bytesAll_split hch
  have hne : node'.bytes = before ++ (container.raw ++ bytesAll (container.children.take i)) ++
      value.bytes ++ (bytesAll (container.children.drop (i + 1)) ++ after) := by
    rw [hby, bytes_eq]
    change before ++ (container.raw ++ bytesAll (container.children.set i value) ++ after) = _
    rw [bytesAll_set hlt]
    simp
  refine ⟨node', hnode', hw hc', ?_, ?_⟩
  · have hb : between (fieldOf node tail).data
        (bytesAll (container.children.drop i) ++ (after ++ tail)) =
        some (before ++ (container.raw ++ bytesAll (container.children.take i))) :=
      between_eq (by rw [data_eq hfocus, bytes_split i]; simp)
    have ha : between ((bytesAll (container.children.drop i) ++ (after ++ tail)).drop
        child.bytes.length) tail =
        some (bytesAll (container.children.drop (i + 1)) ++ after) := by
      rw [hs, append_assoc, drop_left]
      exact between_eq (by simp)
    simp only [barStore, foundPlace, fieldOf_finish, hb, ha, bind_eq_bind, bind_some, hne]
    rfl
  · have hsize : (fieldOf node tail).size = _ := size_eq hfocus
    have hl := congrArg List.length (@bytes_split container i)
    have hn := congrArg List.length hne
    rw [hs] at hl
    simp only [length_append] at hl hn
    simp only [barSizeof, foundPlace, uint32, hsize]
    congr 1
    omega

lemma stores_recount {nodes : List Node} {action : Action Node} {bar : Bar}
    (he : nodeShape.edit last container action = some (nodeShape.recount container nodes))
    (hw : (nodeShape.recount container nodes).WF)
    (hs : barStore (fieldOf node tail) bar = some (before ++
      (recountRaw container nodes.length ++ (bytesAll nodes ++ after))))
    (hsize : barSizeof (fieldOf node tail) bar = some (uint32 (before.length +
      (recountRaw container nodes.length).length + (bytesAll nodes).length + after.length +
        excess container))) :
    Stores bar node tail path action (excess container) := by
  obtain ⟨node', hnode', hb, hw'⟩ := hfocus.editAt hnode he
  have hn : node'.bytes =
      before ++ (recountRaw container nodes.length ++ (bytesAll nodes ++ after)) := by
    rw [hb, bytes_eq, append_assoc]
    rfl
  refine ⟨node', hnode', hw' hw, by rw [hs, hn], ?_⟩
  rw [hsize, hn]
  simp only [length_append, uint32]
  congr 1
  omega

omit hnode in
lemma between_container :
    between (fieldOf node tail).data (container.bytes ++ (after ++ tail)) = some before :=
  between_eq (data_eq hfocus)

lemma stores_insert_array {i n : Nat} {place : Place} {action : Action Node}
    (hvalue : value.WF) (hh : container.head = .array n) (hn : n + 1 < 2 ^ 32)
    (he : nodeShape.edit last container action = some (nodeShape.recount container
      (container.children.take i ++ value :: container.children.drop i)))
    (hpa : place.parent = container.bytes ++ (after ++ tail))
    (hp : place.point = bytesAll (container.children.drop i) ++ (after ++ tail)) :
    Stores (.insert place value.bytes (uint32 value.bytes.length)) node tail path action
      (excess container) := by
  have hc := hfocus.wf hnode
  obtain ⟨hl, ht, hd, hhe⟩ := reads_array hc hh (after ++ tail)
  have hco : (container.children.take i ++ value :: container.children.drop i).length = n + 1 := by
    simp only [length_append, length_take, length_cons, length_drop]
    omega
  refine stores_recount hfocus hnode he (wf_recount_array hh (by omega) fun m hm => ?_) ?_ ?_
  · rcases mem_append.1 hm with hm | hm
    · exact hc.children m (mem_of_mem_take hm)
    · rcases mem_cons.1 hm with rfl | hm
      · exact hvalue
      · exact hc.children m (mem_of_mem_drop hm)
  · have hp' : between (bytesAll container.children ++ (after ++ tail))
        (bytesAll (container.children.drop i) ++ (after ++ tail)) =
        some (bytesAll (container.children.take i)) :=
      between_eq (by rw [bytesAll_take_drop container.children i, append_assoc])
    have ha : between (bytesAll (container.children.drop i) ++ (after ++ tail)) tail =
        some (bytesAll (container.children.drop i) ++ after) :=
      between_eq (by simp)
    simp [barStore, hpa, hp, between_container hfocus, ht, hd, hp', ha,
      recountRaw, hh, hco, bytesAll_append, bytesAll]
  · have hs := congrArg List.length (@bytes_split container i)
    simp only [length_append] at hs
    simp only [barSizeof, hpa, ht, if_true, hd, map_some, uint32,
      size_eq hfocus, excess, hh, headerSize, recountRaw, hco, length_mpEncodeArray,
      bytesAll_append, bytesAll, length_append]
    congr 1
    omega

lemma stores_insert_map {n : Nat} {key : Bytes} {place : Place} {action : Action Node}
    (hvalue : value.WF) (hh : container.head = .map n) (hn : n + 1 < 2 ^ 31)
    (hke : key.length < 2 ^ 32)
    (he : nodeShape.edit last container action = some (nodeShape.recount container
      (nodeShape.str key :: value :: container.children)))
    (hp : place.parent = container.bytes ++ (after ++ tail)) (hne : place.newKey = key)
    (hk : place.keyLenOrIndex = key.length) :
    Stores (.insert place value.bytes
      (uint32 (value.bytes.length + mpSizeofStr place.keyLenOrIndex))) node tail path action
      (excess container) := by
  have hc := hfocus.wf hnode
  obtain ⟨hl, ht, hd, hhe⟩ := reads_map hc hh (after ++ tail)
  have hco : (nodeShape.str key :: value :: container.children).length = 2 * (n + 1) := by
    simp only [length_cons]
    omega
  have hst : (nodeShape.str key).bytes = mpEncodeStr key := by
    simp [nodeShape, bytes, bytesAll]
  refine stores_recount hfocus hnode he (wf_recount_map hh hco hn fun m hm => ?_) ?_ ?_
  · rcases mem_cons.1 hm with rfl | hm
    · exact wf_str hke
    · rcases mem_cons.1 hm with rfl | hm
      · exact hvalue
      · exact hc.children m hm
  · have ha : between (bytesAll container.children ++ (after ++ tail)) tail =
        some (bytesAll container.children ++ after) :=
      between_eq (by simp)
    rw [recountRaw_map hh hco]
    simp [barStore, hp, hne, between_container hfocus, ht, hd, ha, bytesAll, hst]
  · have hs := congrArg List.length (bytes_eq container)
    simp only [length_append] at hs
    simp only [barSizeof, hp, ht, some.injEq, reduceCtorEq, if_false, hd,
      map_some, uint32, size_eq hfocus, excess, hh, headerSize, hk,
      recountRaw_map hh hco, length_mpEncodeMap, bytesAll, hst, length_mpEncodeStr,
      length_append]
    congr 1
    omega

end Focused

section

variable (hfocus : Focus path node before container after last)
include hfocus

/-- The counts of a container in a field that is small enough. -/
lemma count_lt (hnode : node.WF)
    (hsize : node.bytes.length + 1 < 2 ^ 32) : container.children.length + 2 < 2 ^ 32 := by
  have hc := hfocus.wf hnode
  have hl := length_le_bytesAll hc.children
  have hb := congrArg List.length hfocus.bytes_eq
  have hr := hc.length_raw_pos
  rw [length_append, length_append, bytes_eq container, length_append] at hb
  omega

lemma parentEnd_bytes (hnode : node.WF) :
    parentEnd (fieldOf node tail) (container.bytes ++ (after ++ tail)) = some (after ++ tail) := by
  unfold parentEnd
  split
  next hl =>
    -- the container is the field itself, and nothing of the field is after it
    have hb : before = [] := by
      rw [data_eq hfocus, @length_append _ before] at hl
      exact length_eq_zero_iff.1 (by omega)
    rw [hfocus.after_eq_nil hnode hb]
    simp
  next => exact mpNext_bytes (hfocus.wf hnode) _

lemma placeNew_bytes (hnode : node.WF)
    (hi : nodeShape.index last container = none) (tail : Bytes) :
    ((∃ e, placeNew (fieldOf node tail) (container.bytes ++ (after ++ tail)) last = .error e) ∧
        ∀ value, nodeShape.add last value container = none) ∨
      (∃ n, container.head = .array n ∧ last = .num n ∧
        placeNew (fieldOf node tail) (container.bytes ++ (after ++ tail)) last =
          .ok { parent := container.bytes ++ (after ++ tail), point := after ++ tail
                pointSize := 0, keyLenOrIndex := n }) ∨
      ∃ n key, container.head = .map n ∧ last = .str key ∧
        placeNew (fieldOf node tail) (container.bytes ++ (after ++ tail)) last =
          .ok { parent := container.bytes ++ (after ++ tail)
                point := container.bytes ++ (after ++ tail)
                pointSize := 0, keyLenOrIndex := key.length, newKey := key } := by
  have hc := hfocus.wf hnode
  cases last with
  | any position | bad position =>
    exact .inl ⟨⟨_, rfl⟩, fun value => add_eq_none id value container⟩
  | num index =>
    cases hh : container.head with
    | array n =>
      obtain ⟨-, hty, hd, -⟩ := reads_array hc hh (after ++ tail)
      have hg : ¬ index < n := by
        intro hl
        simp [Shape.index, nodeShape, hh, childIndex, hl] at hi
      by_cases hl : n < index
      · left
        refine ⟨⟨.noSuchField, ?_⟩, fun value => ?_⟩
        · simp [placeNew, hty, hd, hl]
        · have hn : index ≠ n := by omega
          simp [Shape.add, nodeShape, hh, hn]
      · right; left
        obtain rfl : index = n := by omega
        refine ⟨index, rfl, rfl, ?_⟩
        simp only [placeNew, hty, hd, ne_eq, not_true_eq_false, if_false,
          Outcome.ofOption_some, Outcome.bind_eq, Outcome.ok_bind, Nat.lt_irrefl,
          parentEnd_bytes hfocus hnode]
        rfl
    | map n =>
      obtain ⟨-, hty, -⟩ := reads_map hc hh (after ++ tail)
      refine .inl ⟨⟨_, by simp [placeNew, hty]; rfl⟩, fun value => ?_⟩
      simp [Shape.add, nodeShape, hh]
    | uint _ | int _ | str _ | other _ =>
      obtain ⟨t, ht, ha, -⟩ := headType_scalar hc (by simp [hh]) (by simp [hh]) (after ++ tail)
      refine .inl ⟨⟨.field "can not access by index a non-array field", ?_⟩, fun value => ?_⟩
      · simp [placeNew, ht, ha]
      · simp [Shape.add, nodeShape, hh]
  | str key =>
    cases hh : container.head with
    | map n =>
      obtain ⟨-, hty, -⟩ := reads_map hc hh (after ++ tail)
      right; right
      refine ⟨n, key, rfl, rfl, ?_⟩
      simp only [placeNew, hty, ne_eq, not_true_eq_false, if_false]
      rfl
    | array n =>
      obtain ⟨-, hty, -⟩ := reads_array hc hh (after ++ tail)
      refine .inl ⟨⟨_, by simp [placeNew, hty]; rfl⟩, fun value => ?_⟩
      simp [Shape.add, nodeShape, hh]
    | uint _ | int _ | str _ | other _ =>
      obtain ⟨t, ht, -, hm⟩ := headType_scalar hc (by simp [hh]) (by simp [hh]) (after ++ tail)
      refine .inl ⟨⟨.field "can not access by key a non-map field", ?_⟩, fun value => ?_⟩
      · simp [placeNew, ht, hm]
      · simp [Shape.add, nodeShape, hh]

end

def newBar (place : Place) (value : Bytes) : Bar :=
  if headType place.parent = some .map then
    .insert place value (uint32 (value.length + mpSizeofStr place.keyLenOrIndex))
  else .insert place value (uint32 value.length)

/-- An operation fails and so does the edit, or its bar stores the edited field. -/
def Done (outcome : Outcome Bar) (node : Node) (tail : Bytes) (path : List Token)
    (action : Action Node) : Prop :=
  ((∃ e, outcome = .error e) ∧ nodeShape.editAt action path node = none) ∨
    ∃ bar container last, outcome = .ok bar ∧
      nodeShape.containerAt path node = some (container, last) ∧
      Stores bar node tail path action (slack container last action)

lemma new_done {action : Action Node} {outcome : Outcome Bar} (hvalue : value.WF)
    (hfocus : Focus path node before container after last) (hnode : node.WF)
    (hsize : node.bytes.length + 1 < 2 ^ 32) (hkeys : ∀ key, last = .str key → key.length < 2 ^ 31)
    (hi : nodeShape.index last container = none)
    (hed : nodeShape.edit last container action = nodeShape.add last value container)
    (hs : slack container last action = excess container)
    (ho : outcome = (placeNew (fieldOf node tail) (container.bytes ++ (after ++ tail)) last).bind
      fun place => .ok (newBar place value.bytes)) : Done outcome node tail path action := by
  have hco := count_lt hfocus hnode hsize
  have hc := hfocus.wf hnode
  rcases placeNew_bytes hfocus hnode hi tail with
    ⟨⟨e, he⟩, hn⟩ | ⟨n, hh, rfl, hp⟩ | ⟨n, key, hh, rfl, hp⟩
  · exact .inl ⟨⟨e, by rw [ho, he]; rfl⟩, hfocus.editAt_eq_none (hed.trans (hn value))⟩
  · refine .inr ⟨_, _, _, by rw [ho, hp]; rfl, hfocus.containerAt, ?_⟩
    obtain ⟨hl, ht, -⟩ := reads_array hc hh (after ++ tail)
    have ha : nodeShape.add (.num n) value container = some (nodeShape.recount container
        (container.children.take n ++ value :: container.children.drop n)) := by
      rw [take_of_length_le hl.le, drop_of_length_le hl.le]
      simp [Shape.add, nodeShape, hh]
    rw [hs, newBar, if_neg (by simp [ht])]
    refine stores_insert_array hfocus hnode hvalue hh (by omega) (hed.trans ha) rfl ?_
    rw [drop_of_length_le hl.le]
    rfl
  · refine .inr ⟨_, _, _, by rw [ho, hp]; rfl, hfocus.containerAt, ?_⟩
    obtain ⟨hl, ht, -⟩ := reads_map hc hh (after ++ tail)
    have ha : nodeShape.add (.str key) value container = some (nodeShape.recount container
        (nodeShape.str key :: value :: container.children)) := by
      simp [Shape.add, nodeShape, hh]
    have hk := hkeys key rfl
    rw [hs, newBar, if_pos ht]
    exact stores_insert_map hfocus hnode hvalue hh (by omega) (by omega) (hed.trans ha) rfl rfl rfl

lemma located (hnode : node.WF) (hpath : path ≠ []) (tail : Bytes) :
    let field := fieldOf node tail
    Located field node tail path (barLocate field.data field.data 0 path)
      (barLocateOpt field field.data field.data 0 path) := by
  obtain ⟨token, path, rfl⟩ := exists_cons_of_ne_nil hpath
  exact locate_bytes hnode ..

/-- How the operations go on where the last token leads nowhere. -/
lemma bind_newBar (outcome : Outcome Place) (value : Bytes) :
    (outcome.bind fun place =>
      if headType place.parent = some .map then
        .ok (.insert place value (uint32 (value.length + mpSizeofStr place.keyLenOrIndex)))
      else .ok (.insert place value (uint32 value.length))) =
      outcome.bind fun place => .ok (newBar place value) := by
  cases outcome with
  | ok place =>
    simp only [Outcome.bind, newBar]
    split <;> rfl
  | error _ | undefined => rfl

section Values

variable (hnode : node.WF) (hvalue : value.WF) (hpath : path ≠ [])
  (hsize : node.bytes.length + 1 < 2 ^ 32)
  (hkeys : ∀ key, Token.str key ∈ path → key.length < 2 ^ 31)
include hnode hvalue hpath hsize hkeys

lemma doNopSet_done (tail : Bytes) :
    Done (doNopSet (fieldOf node tail) path value.bytes) node tail path (.set value) := by
  unfold doNopSet
  cases located hnode hpath tail with
  | nothing _ ho hn => exact .inl ⟨⟨_, by rw [ho]; rfl⟩, hn _⟩
  | @found _ container _ last _ _ hfocus hi hc _ ho =>
    have hs : slack container last (.set value) = 0 := by simp [slack, hi]
    refine .inr ⟨_, container, last, by rw [ho]; rfl, hfocus.containerAt, ?_⟩
    rw [hs]
    exact stores_set hfocus hnode hvalue hi hc
  | missing hfocus hi _ ho =>
    refine new_done hvalue hfocus hnode hsize (fun key hk => hkeys key (hk ▸ hfocus.last_mem)) hi
      (by simp [Shape.edit, hi]) (by simp [slack, hi]) ?_
    rw [ho, ← bind_newBar]
    cases placeNew _ _ _ <;> rfl

lemma doNopInsert_done (tail : Bytes) :
    Done (doNopInsert (fieldOf node tail) path value.bytes) node tail path (.insert value) := by
  unfold doNopInsert
  cases located hnode hpath tail with
  | nothing _ ho hn => exact .inl ⟨⟨_, by rw [ho]; rfl⟩, hn _⟩
  | @found _ container after last i child hfocus hi _ _ ho =>
    rw [ho]
    have hc := hfocus.wf hnode
    have hco := count_lt hfocus hnode hsize
    cases hh : container.head with
    | array n =>
      obtain ⟨hl, ht, -⟩ := reads_array hc hh (after ++ tail)
      have hed : nodeShape.edit last container (.insert value) = some (nodeShape.recount container
            (container.children.take i ++ value :: container.children.drop i)) := by
        have hh' : nodeShape.head container = .array n := hh
        simp only [Shape.edit, hi, hh']
        rfl
      refine .inr ⟨.insert (foundPlace container child i last (after ++ tail)) value.bytes
        (uint32 value.bytes.length), container, last, ?_, hfocus.containerAt,
        stores_insert_array hfocus hnode hvalue hh (by omega) hed rfl rfl⟩
      simp [foundPlace, ht]
    | map n =>
      obtain ⟨-, ht, -⟩ := reads_map hc hh (after ++ tail)
      refine .inl ⟨⟨errDuplicate, by simp [foundPlace, ht]⟩, hfocus.editAt_eq_none ?_⟩
      have hh' : nodeShape.head container = .map n := hh
      simp [Shape.edit, hi, hh']
    | uint _ | int _ | str _ | other _ => simp [Shape.index, nodeShape, hh, childIndex] at hi
  | missing hfocus hi _ ho =>
    refine new_done hvalue hfocus hnode hsize (fun key hk => hkeys key (hk ▸ hfocus.last_mem)) hi
      (by simp [Shape.edit, hi]) rfl ?_
    rw [ho, ← bind_newBar]
    cases placeNew _ _ _ <;> rfl

end Values

end TarantoolStorage.Update
