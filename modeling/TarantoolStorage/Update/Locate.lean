import TarantoolStorage.Update.Edit

/-! The search for the point of a nested operation: the bytes lead where the document does. -/
namespace TarantoolStorage.Update

open MsgPack List Option

variable {nodes : List Node} {node : Node} {rest : Bytes} {token : Token} {found : Head → Bool}

lemma mpNextTimes_bytesAll (h : ∀ node ∈ nodes, node.WF) {n : Nat} (hn : n ≤ nodes.length)
    (rest : Bytes) :
    mpNextTimes n (Node.bytesAll nodes ++ rest) = some (Node.bytesAll (nodes.drop n) ++ rest) := by
  induction n generalizing nodes with
  | zero => rfl
  | succ n ih =>
    cases nodes with
    | nil => simp at hn
    | cons node nodes =>
      have hno := h node mem_cons_self
      have hne := ih (fun m hm => h m (mem_cons_of_mem _ hm)) (Nat.le_of_succ_le_succ hn)
      rw [mpNextTimes, Node.bytesAll, append_assoc, Node.mpNext_bytes hno, bind_some,
        hne, drop_succ_cons]

lemma goToPair_bytesAll {readKey : Bytes → Option (Bool × Bytes)}
    (hr : ∀ {node : Node}, node.WF → ∀ rest, readKey (node.bytes ++ rest) = some (found
      node.head, rest)) {count : Nat} (hc : nodes.length = 2 * count)
    (h : ∀ node ∈ nodes, node.WF) :
    goToPair readKey count (Node.bytesAll nodes ++ rest) =
      some ((pairIndex found (nodes.map Node.head)).map
        fun i => Node.bytesAll (nodes.drop i) ++ rest) := by
  induction count generalizing nodes with
  | zero =>
    obtain rfl : nodes = [] := length_eq_zero_iff.1 hc
    rfl
  | succ count ih =>
    match nodes, hc with
    | key :: value :: nodes, hc =>
      have hk := h key mem_cons_self
      have hv := h value (by simp)
      have hn : ∀ node ∈ nodes, node.WF := fun m hm => h m (by simp [hm])
      have hl : nodes.length = 2 * count := by
        simp only [length_cons] at hc
        omega
      simp only [Node.bytesAll, append_assoc, goToPair, hr hk, bind_some, map_cons, pairIndex]
      cases found key.head with
      | true => simp [Node.bytesAll]
      | false =>
        simp only [Bool.false_eq_true, if_false, Node.mpNext_bytes hv, bind_some,
          ih hl hn, Option.map_map]
        rfl

lemma children_eq_nil (h : node.WF) (hn : node.head.nested = 0) :
    Node.bytesAll node.children ++ rest = rest := by
  have hl := h.length_children
  rw [hn, length_eq_zero_iff] at hl
  rw [hl]
  rfl

lemma readIndexKey_bytes (h : node.WF) (index : Nat) (rest : Bytes) :
    readIndexKey (index + 1) (node.bytes ++ rest) =
      some (keyMatches (.num index) node.head, rest) := by
  have hn := Node.mpNext_bytes h rest
  have hc := h.reads rest
  cases hh : node.head with
  | uint _ | int _ =>
    simp only [hh, children_eq_nil h (by rw [hh]; rfl), Reads] at hc
    simp [readIndexKey, hc.1, hc.2, keyMatches]
  | str _ | array _ | map _ =>
    simp only [hh, Reads] at hc
    simp [readIndexKey, hc.1, hn, keyMatches]
  | other raw =>
    simp only [hh, Reads] at hc
    obtain ⟨t, ht, hu, hint, -⟩ := hc
    cases t <;> first | exact absurd rfl hu | exact absurd rfl hint |
      simp [readIndexKey, ht, hn, keyMatches]

lemma readStrKey_bytes (h : node.WF) (key rest : Bytes) :
    readStrKey key (node.bytes ++ rest) = some (keyMatches (.str key) node.head, rest) := by
  have hn := Node.mpNext_bytes h rest
  have hc := h.reads rest
  cases hh : node.head with
  | str s =>
    simp only [hh, children_eq_nil h (by rw [hh]; rfl), Reads] at hc
    simp [readStrKey, hc.1, hc.2, keyMatches]
  | uint _ | int _ | array _ | map _ =>
    simp only [hh, Reads] at hc
    simp [readStrKey, hc.1, hn, keyMatches]
  | other raw =>
    simp only [hh, Reads] at hc
    obtain ⟨t, ht, -, -, hs, -⟩ := hc
    cases t <;> first | exact absurd rfl hs | simp [readStrKey, ht, hn, keyMatches]

lemma pairIndex_none (h : ∀ head, found head = false) (he : List Head) :
    pairIndex found he = none := by
  fun_induction pairIndex found he with
  | case1 key _ he hk => simp [h] at hk
  | case2 key _ he hk ih => rw [ih]; rfl
  | case3 => rfl

lemma headType_scalar (h : node.WF) (ha : ∀ n, node.head ≠ .array n)
    (hm : ∀ n, node.head ≠ .map n) (rest : Bytes) :
    ∃ t, headType (node.bytes ++ rest) = some t ∧ t ≠ .array ∧ t ≠ .map := by
  have hc := h.reads rest
  cases hh : node.head with
  | uint _ | int _ | str _ =>
    simp only [hh, Reads] at hc
    exact ⟨_, hc.1, by decide, by decide⟩
  | other raw =>
    simp only [hh, Reads] at hc
    obtain ⟨t, ht, -, -, -, h₁, h₂, -⟩ := hc
    exact ⟨t, ht, h₁, h₂⟩
  | array n => exact absurd hh (ha n)
  | map n => exact absurd hh (hm n)

def Token.Leads : Token → Prop
  | .num _ | .str _ => True
  | .any _ | .bad _ => False

lemma index_eq_none (h : ¬ token.Leads) (node : Node) : nodeShape.index token node = none := by
  cases token with
  | num _ | str _ => exact absurd trivial h
  | any _ | bad _ =>
    unfold Shape.index childIndex
    cases nodeShape.head node with
    | map n => exact pairIndex_none (fun _ => rfl) _
    | array _ | uint _ | int _ | str _ | other _ => rfl

lemma goTo_bytes (h : node.WF) (token : Token) (rest : Bytes) : goTo (node.bytes ++ rest) token =
      some ((nodeShape.index token node).map
        fun i => Node.bytesAll (node.children.drop i) ++ rest) := by
  have hc := h.reads rest
  have hl := h.length_children
  cases token with
  | any _ | bad _ =>
    rw [index_eq_none id]
    rfl
  | num index =>
    cases hh : node.head with
    | array n =>
      simp only [hh, Reads] at hc hl
      simp only [goTo, tupleFieldGoToIndex, hc.1, hc.2, bind_some, Shape.index,
        nodeShape, hh, childIndex]
      by_cases hi : index < n
      · rw [if_neg (by omega), if_pos hi, mpNextTimes_bytesAll h.children (by rw [hl]; exact hi.le)]
        rfl
      · rw [if_pos (by omega), if_neg hi]
        rfl
    | map n =>
      simp only [hh, Reads] at hc hl
      simp only [goTo, tupleFieldGoToIndex, hc.1, hc.2, bind_some, Shape.index,
        nodeShape, hh, childIndex]
      exact goToPair_bytesAll (fun hn => readIndexKey_bytes hn index) hl h.children
    | uint _ | int _ | str _ | other _ =>
      obtain ⟨t, ht, ha, hm⟩ := headType_scalar h (by simp [hh]) (by simp [hh]) rest
      cases t <;> first | exact absurd rfl ha | exact absurd rfl hm |
        simp [goTo, tupleFieldGoToIndex, ht, Shape.index, nodeShape, hh, childIndex]
  | str key =>
    cases hh : node.head with
    | array n =>
      simp only [hh, Reads] at hc
      simp [goTo, tupleFieldGoToKey, hc.1, Shape.index, nodeShape, hh, childIndex]
    | map n =>
      simp only [hh, Reads] at hc hl
      simp only [goTo, tupleFieldGoToKey, hc.1, hc.2, bind_some, Shape.index,
        nodeShape, hh, childIndex]
      exact goToPair_bytesAll (fun hn => readStrKey_bytes hn key) hl h.children
    | uint _ | int _ | str _ | other _ =>
      obtain ⟨t, ht, -, hm⟩ := headType_scalar h (by simp [hh]) (by simp [hh]) rest
      cases t <;> first | exact absurd rfl hm |
        simp [goTo, tupleFieldGoToKey, ht, Shape.index, nodeShape, hh, childIndex]

lemma pairIndex_spec {he : List Head} {i : Nat} (h : pairIndex found he = some i) :
    1 ≤ i ∧ i < he.length := by
  fun_induction pairIndex found he generalizing i with
  | case1 key _ he hk =>
    obtain rfl := some.inj h
    simp
  | case2 key _ he hk ih =>
    obtain ⟨j, hj, rfl⟩ := map_eq_some_iff.1 h
    have := ih hj
    simp only [length_cons]
    omega
  | case3 => cases h

lemma index_lt (h : node.WF) {i : Nat} (hi : nodeShape.index token node = some i) :
    i < node.children.length := by
  have hl := h.length_children
  rw [Shape.index] at hi
  change childIndex token node.head (node.children.map Node.head) = some i at hi
  cases hh : node.head with
  | array n =>
    rw [hh] at hi hl
    cases token with
    | num index =>
      simp only [childIndex, ite_none_right_eq_some, some.injEq] at hi
      rw [hl]
      simp only [Head.nested]
      omega
    | str _ | any _ | bad _ => cases hi
  | map n =>
    rw [hh] at hi
    simpa using (pairIndex_spec hi).2
  | uint _ | int _ | str _ | other _ =>
    rw [hh] at hi
    cases hi

/-- The container that the last token of a path is for, and the bytes of the node around it. -/
inductive Focus : List Token → Node → Bytes → Node → Bytes → Token → Prop
  | here (token : Token) (node : Node) : Focus [token] node [] node [] token
  | step {token last : Token} {path : List Token} {node child parent : Node}
      {before after : Bytes} {i : Nat} (hi : nodeShape.index token node = some i)
      (hchild : node.children[i]? = some child) (h : Focus path child before parent after last) :
      Focus (token :: path) node (node.raw ++ Node.bytesAll (node.children.take i) ++ before) parent
        (after ++ Node.bytesAll (node.children.drop (i + 1))) last

section Focus

variable {path : List Token} {parent : Node} {before after : Bytes} {last : Token}

lemma editAt_of_child {action : Action Node} (hp : path ≠ []) {i : Nat} {child : Node}
    (hi : nodeShape.index token node = some i) (hc : node.children[i]? = some child) :
    nodeShape.editAt action (token :: path) node = (nodeShape.editAt action path child).bind
      fun child' => some (nodeShape.keep node (node.children.set i child')) := by
  have hc' : (nodeShape.children node)[i]? = some child := hc
  rw [Shape.editAt_cons _ _ _ hp, hi, bind_some, hc', bind_some]
  rfl

section

variable (h : Focus path node before parent after last)
include h

lemma Focus.wf (hn : node.WF) : parent.WF := by
  induction h with
  | here => exact hn
  | step hi hc h ih => exact ih (hn.children _ (mem_of_getElem? hc))

lemma Focus.path_ne_nil : path ≠ [] := by
  cases h <;> exact cons_ne_nil _ _

lemma Focus.bytes_eq :
    node.bytes = before ++ (parent.bytes ++ after) := by
  induction h with
  | here => simp
  | @step token last path node child parent before after i hi hc h ih =>
    rw [Node.bytes_eq, Node.bytesAll_take_drop _ i, Node.bytesAll_split hc, ih]
    simp

lemma Focus.containerAt :
    nodeShape.containerAt path node = some (parent, last) := by
  induction h with
  | here => rfl
  | @step token last path node child parent before after i hi hc h ih =>
    have hc' : (nodeShape.children node)[i]? = some child := hc
    rw [Shape.containerAt_cons _ _ h.path_ne_nil, hi, bind_some, hc', bind_some, ih]

end

lemma exists_focus (h : nodeShape.containerAt path node = some (parent, last)) :
    ∃ before after, Focus path node before parent after last := by
  induction path generalizing node with
  | nil => cases h
  | cons token path ih =>
    cases path with
    | nil =>
      cases h
      exact ⟨[], [], .here _ _⟩
    | cons token' path =>
      rw [Shape.containerAt_cons _ _ (cons_ne_nil _ _)] at h
      obtain ⟨i, hi, h⟩ := bind_eq_some_iff.1 h
      obtain ⟨child, hc, h⟩ := bind_eq_some_iff.1 h
      obtain ⟨before, after, hf⟩ := ih h
      exact ⟨_, _, .step hi hc hf⟩

section

variable (h : Focus path node before parent after last)
include h

/-- The container itself is the node if there is nothing before it. -/
lemma Focus.after_eq_nil (hn : node.WF)
    (hb : before = []) : after = [] := by
  cases h with
  | here => rfl
  | step hi hc h =>
    obtain ⟨hr, -, -, -⟩ := hn
    simp only [append_eq_nil_iff] at hb
    exact absurd hb.1.1 (ne_nil_of_decodeHead hr)

lemma Focus.editAt (hn : node.WF)
    {action : Action Node} {parent' : Node}
    (he : nodeShape.edit last parent action = some parent') :
    ∃ node', nodeShape.editAt action path node = some node' ∧
      node'.bytes = before ++ (parent'.bytes ++ after) ∧ (parent'.WF → node'.WF) := by
  induction h with
  | here => exact ⟨parent', he, by simp, id⟩
  | @step token last path node child parent before after i hi hc h ih =>
    have hl := index_lt hn hi
    obtain ⟨child', hed, hb, hw⟩ := ih (hn.children _ (mem_of_getElem? hc)) he
    refine ⟨nodeShape.keep node (node.children.set i child'), ?_, ?_, fun hp' => ?_⟩
    · rw [editAt_of_child h.path_ne_nil hi hc, hed, bind_some]
    · rw [Node.bytes_eq]
      change node.raw ++ Node.bytesAll (node.children.set i child') = _
      rw [Node.bytesAll_set hl, hb]
      simp
    · refine hn.keep (by simp) fun m hm => ?_
      rcases mem_or_eq_of_mem_set hm with hm | rfl
      · exact hn.children m hm
      · exact hw hp'

lemma Focus.editAt_eq_none {action : Action Node}
    (he : nodeShape.edit last parent action = none) :
    nodeShape.editAt action path node = none := by
  induction h with
  | here => exact he
  | @step token last path node child parent before after i hi hc h ih =>
    rw [editAt_of_child h.path_ne_nil hi hc, ih he, bind_none]

lemma Focus.last_mem : last ∈ path := by
  induction h with
  | here => exact mem_singleton_self _
  | step hi hc h ih => exact mem_cons_of_mem _ ih

end

end Focus

section Search

lemma placeAt_bytes (h : node.WF) (parent rest : Bytes) (k : Nat) :
    placeAt (node.bytes ++ rest) parent k =
      .ok { parent, point := node.bytes ++ rest, pointSize := node.bytes.length,
            keyLenOrIndex := k } := by
  simp [placeAt, Node.mpNext_bytes h]

lemma barLocate_cons (h : token.Leads) (pos parent : Bytes) (k : Nat) (path : List Token) :
    barLocate pos parent k (token :: path) = (Outcome.ofOption (goTo pos token)).bind fun
        | none => .error .noSuchField
        | some next => barLocate next pos token.keyLenOrIndex path := by
  cases token with
  | num _ | str _ => rfl
  | any _ | bad _ => exact h.elim

lemma barLocateOpt_cons (h : token.Leads) (field : Field) (pos parent : Bytes) (k : Nat)
    (path : List Token) :
    barLocateOpt field pos parent k (token :: path) = (Outcome.ofOption (goTo pos token)).bind fun
        | some next => barLocateOpt field next pos token.keyLenOrIndex path
        | none =>
          match path with
          | .bad position :: _ => .error (errBadJson position)
          | _ :: _ => .error .noSuchField
          | [] => (placeNew field pos token).bind fun place => .ok (place, false) := by
  cases token with
  | num _ | str _ => rfl
  | any _ | bad _ => exact h.elim

lemma add_eq_none (h : ¬ token.Leads) (value node : Node) :
    nodeShape.add token value node = none := by
  unfold Shape.add
  cases token with
  | num _ | str _ => exact absurd trivial h
  | any _ | bad _ => cases nodeShape.head node <;> rfl

variable {path : List Token}

def foundPlace (container child : Node) (i : Nat) (last : Token) (rest : Bytes) : Place where
  parent := container.bytes ++ rest
  point := Node.bytesAll (container.children.drop i) ++ rest
  pointSize := child.bytes.length
  keyLenOrIndex := last.keyLenOrIndex

lemma getElem?_of_index (h : node.WF) {i : Nat} (hi : nodeShape.index token node = some i) :
    ∃ child, node.children[i]? = some child ∧ child.WF := by
  have hl := index_lt h hi
  exact ⟨_, getElem?_eq_getElem hl, h.children _ (getElem_mem hl)⟩

/-- What `barLocate` and `barLocateOpt` find: nothing, the value at the path, or the container in
which its last token leads nowhere. -/
inductive Located (field : Field) (node : Node) (rest : Bytes) (path : List Token)
    (plain : Outcome Place) (opt : Outcome (Place × Bool)) : Prop where
  | nothing {e e'} (he : plain = .error e) (ho : opt = .error e')
    (hn : ∀ action, nodeShape.editAt action path node = none)
  | found {before container after last i child}
    (hfocus : Focus path node before container after last)
    (hi : nodeShape.index last container = some i) (hc : container.children[i]? = some child)
    (he : plain = .ok (foundPlace container child i last (after ++ rest)))
    (ho : opt = .ok (foundPlace container child i last (after ++ rest), true))
  | missing {before container after last e}
    (hfocus : Focus path node before container after last)
    (hi : nodeShape.index last container = none) (he : plain = .error e)
    (ho : opt = (placeNew field (container.bytes ++ (after ++ rest)) last).bind
      fun place => .ok (place, false))

lemma Located.of_not_leads (h : ¬ token.Leads) (field : Field) (pos parent : Bytes) (k : Nat) :
    Located field node rest (token :: path) (barLocate pos parent k (token :: path))
      (barLocateOpt field pos parent k (token :: path)) := by
  have hn action := Shape.editAt_none _ action path (index_eq_none h node) fun v =>
    add_eq_none h v node
  cases token with
  | num _ | str _ => exact absurd trivial h
  | any _ | bad _ => exact .nothing rfl rfl hn

/-- From the value of the first token to the node. -/
lemma Located.step {field : Field} {plain : Outcome Place} {opt : Outcome (Place × Bool)}
    {child : Node} {i : Nat} (hi : nodeShape.index token node = some i)
    (hc : node.children[i]? = some child) (hp : path ≠ [])
    (h : Located field child (Node.bytesAll (node.children.drop (i + 1)) ++ rest) path plain opt) :
    Located field node rest (token :: path) plain opt := by
  cases h with
  | nothing he ho hn =>
    refine .nothing he ho fun action => ?_
    rw [editAt_of_child hp hi hc, hn action, bind_none]
  | found hf hi' hc' he ho =>
    rw [← append_assoc] at he ho
    exact .found (.step hi hc hf) hi' hc' he ho
  | missing hf hi' he ho =>
    rw [← append_assoc _ _ rest] at ho
    exact .missing (.step hi hc hf) hi' he ho

lemma locate_bytes (hn : node.WF) (field : Field) (token : Token) (path : List Token)
    (rest parent : Bytes) (k : Nat) :
    Located field node rest (token :: path)
      (barLocate (node.bytes ++ rest) parent k (token :: path))
      (barLocateOpt field (node.bytes ++ rest) parent k (token :: path)) := by
  by_cases hl : token.Leads
  swap
  · exact .of_not_leads hl ..
  -- by induction on the path: the rest of it is searched for in the value of its first token
  induction path generalizing node token rest parent k with
  | nil =>
    rw [barLocate_cons hl, barLocateOpt_cons hl, goTo_bytes hn]
    cases hi : nodeShape.index token node with
    | none => exact .missing (.here _ _) hi rfl rfl
    | some i =>
      obtain ⟨child, hc, hw⟩ := getElem?_of_index hn hi
      refine .found (.here _ _) hi hc ?_ ?_ <;>
        simp [Outcome.ofOption_some, Outcome.ok_bind, barLocate, barLocateOpt,
          Node.bytesAll_split hc, placeAt_bytes hw, foundPlace]
  | cons token' path ih =>
    rw [barLocate_cons hl, barLocateOpt_cons hl, goTo_bytes hn]
    cases hi : nodeShape.index token node with
    | none =>
      have hno action : nodeShape.editAt action (token :: token' :: path) node = none := by
        rw [Shape.editAt_cons _ _ _ (cons_ne_nil _ _), hi, bind_none]
      cases token' <;> exact .nothing rfl rfl hno
    | some i =>
      obtain ⟨child, hc, hw⟩ := getElem?_of_index hn hi
      simp only [map_some, Outcome.ofOption_some, Outcome.ok_bind,
        Node.bytesAll_split hc, append_assoc]
      by_cases hl' : token'.Leads
      · exact (ih hw token' _ _ _ hl').step hi hc (cons_ne_nil _ _)
      · exact (Located.of_not_leads hl' ..).step hi hc (cons_ne_nil _ _)

end Search

end TarantoolStorage.Update
