import TarantoolStorage.Update.Delete

/-! A single nested operation on a whole tuple against its documented effect. -/
namespace TarantoolStorage.Update

open MsgPack TarantoolStorage.Vinyl List Option Outcome Node

/-- A tuple: an array whose size is a 32-bit number. -/
structure Tuple where
  node : Node
  wf : node.WF
  isArray : node.head = .array node.children.length
  size_lt : node.bytes.length < 2 ^ 32

/-- The value of an operation is a document, and a count has 32 bits. -/
def Action.Valid : Action Node → Prop
  | .set value | .insert value => value.WF
  | .delete count => count < 2 ^ 32

/-- A nested operation. The lengths of keys are those of an `int`. -/
structure Request where
  fieldNo : Int
  path : List Token
  action : Action Node
  path_ne_nil : path ≠ []
  key_lt : ∀ key, Token.str key ∈ path → key.length < 2 ^ 31
  valid : action.Valid

/-- `xrow_update_execute`. -/
def Tuple.execute (tuple : Tuple) (request : Request) : Outcome (Nat × Bytes) :=
  xrowUpdateExecute tuple.node.bytes request.fieldNo request.path (request.action.map Node.bytes)

/-- The tuple with the operation done, every byte that is kept as it was. -/
def Tuple.edited (tuple : Tuple) (request : Request) : Option Node :=
  nodeShape.update request.fieldNo request.path request.action tuple.node

/-- The operation fails, or returns no more bytes than the size computed for them, and these are
one array that decodes to the document with the operation done. -/
def Documented (tuple : Tuple) (request : Request) : Outcome (Nat × Bytes) → Prop
  | .undefined => False
  | .error _ => True
  | .ok (size, stored) => stored.length ≤ size ∧
      ∃ doc, docShape.update request.fieldNo request.path (request.action.map Node.doc)
          tuple.node.doc = some doc ∧ decode stored = some doc

/-- The operation fails, or returns no more bytes than the size computed for them, and these are
the bytes of the tuple with those of the elements changed, and nothing else. -/
def Exact (tuple : Tuple) (request : Request) : Outcome (Nat × Bytes) → Prop
  | .undefined => False
  | .error _ => True
  | .ok (size, stored) => stored.length ≤ size ∧
      ∃ new, tuple.edited request = some new ∧ new.WF ∧ stored = new.bytes

/-- The size of the new tuple has 32 bits, with the old header of the changed container. -/
def SizeFits (tuple : Tuple) (request : Request) (container : Node) (last : Token) : Prop :=
  match request.action with
  | .delete _ => True
  | action => ∀ new, tuple.edited request = some new →
      new.bytes.length + slack container last action < 2 ^ 32

/-- The condition of an operation on the container that its path leads to. -/
def Sound (tuple : Tuple) (request : Request) : Prop :=
  ∀ i field container last, adjustFieldNo request.fieldNo tuple.node.children.length = some i →
    tuple.node.children[i]? = some field →
    nodeShape.containerAt request.path field = some (container, last) →
    SizeFits tuple request container last ∧
      ∀ count, request.action = .delete count → SafeDelete container last count

lemma Exact.documented {tuple : Tuple} {request : Request} {outcome : Outcome (Nat × Bytes)}
    (h : Exact tuple request outcome) : Documented tuple request outcome := by
  cases outcome with
  | undefined => exact h
  | error e => trivial
  | ok result =>
    obtain ⟨hsi, new, hn, hw, hs⟩ := h
    refine ⟨hsi, new.doc, ?_, ?_⟩
    · rw [docHom.update]
      change (tuple.edited request).map Node.doc = _
      rw [hn, map_some]
    · rw [hs, Node.decode_bytes hw]

section Field

variable {tuple : Tuple} {request : Request} {i : Nat} {field : Node}

def Tuple.tail (tuple : Tuple) (i : Nat) : Bytes :=
  bytesAll (tuple.node.children.drop (i + 1))

lemma readArg_ne_undefined (action : Action Bytes) : readArg action ≠ .undefined := by
  cases action with
  | set value => simp [readArg]
  | insert value => simp [readArg]
  | delete count =>
    simp only [readArg]
    split <;> simp

lemma execute_none (hi : adjustFieldNo request.fieldNo tuple.node.children.length = none) :
    ∃ e, tuple.execute request = .error e := by
  have hr := tuple.wf.reads []
  simp only [tuple.isArray, Reads, append_nil] at hr
  cases hre : readArg (request.action.map Node.bytes) with
  | undefined => exact absurd hre (readArg_ne_undefined _)
  | error e => exact ⟨e, by simp [Tuple.execute, xrowUpdateExecute, hr.2, hre]⟩
  | ok action => exact ⟨.noSuchField, by simp [Tuple.execute, xrowUpdateExecute, hr.2, hre, hi]⟩

lemma wf_edited {field' : Node} (hfield' : field'.WF) :
    (nodeShape.recount tuple.node (tuple.node.children.set i field')).WF := by
  have hle := length_le_bytesAll tuple.wf.children
  have hl := congrArg List.length (bytes_eq tuple.node)
  have hlt := tuple.size_lt
  rw [length_append] at hl
  refine wf_recount_array tuple.isArray (by rw [length_set]; omega) fun m hm => ?_
  rcases mem_or_eq_of_mem_set hm with hm | rfl
  · exact tuple.wf.children m hm
  · exact hfield'

/-- A size that wraps is too small, whatever the size before was. -/
lemma le_uint32_iff {n extra : Nat} (h : extra < 2 ^ 32) :
    n ≤ uint32 (n + extra) ↔ n + extra < 2 ^ 32 := by
  unfold uint32
  omega

lemma adjustFieldNo_lt {fieldNo : Int} {count i : Nat} (h : adjustFieldNo fieldNo count = some i) :
    i < count := by
  unfold adjustFieldNo at h
  split at h
  · split at h
    · obtain rfl := some.inj h
      omega
    · cases h
  · split at h
    · obtain rfl := some.inj h
      omega
    · cases h

variable (hi : adjustFieldNo request.fieldNo tuple.node.children.length = some i)
  (hfield : tuple.node.children[i]? = some field)
include hfield

lemma bytes_around :
    tuple.node.bytes = (tuple.node.raw ++ bytesAll (tuple.node.children.take i)) ++
      (fieldOf field (tuple.tail i)).data := by
  rw [bytes_eq, bytesAll_take_drop _ i, bytesAll_split hfield, append_assoc]
  rfl

lemma field_size_lt :
    field.bytes.length + (tuple.tail i).length + 1 < 2 ^ 32 := by
  have hl := congrArg List.length (bytes_around hfield)
  have hlt := tuple.size_lt
  have hr := tuple.wf.length_raw_pos
  simp only [length_append, fieldOf] at hl
  omega

lemma bytes_edited (field' : Node) :
    (nodeShape.recount tuple.node (tuple.node.children.set i field')).bytes =
      mpEncodeArray tuple.node.children.length ++ bytesAll (tuple.node.children.take i) ++
        field'.bytes ++ tuple.tail i := by
  have hl : i < tuple.node.children.length := (List.getElem?_eq_some_iff.1 hfield).1
  rw [recount_array tuple.isArray, Node.bytes, bytesAll_set hl, length_set]
  simp only [append_assoc]
  rfl

lemma slack_lt {path : List Token}
    {container : Node} {last : Token}
    (hc : nodeShape.containerAt path field = some (container, last))
    (action : Action Node) : slack container last action < 2 ^ 32 := by
  obtain ⟨before, after, hf⟩ := exists_focus hc
  have hl := field_size_lt hfield
  have hb := congrArg List.length hf.bytes_eq
  have hr := congrArg List.length (bytes_eq container)
  rw [length_append, length_append] at hb
  rw [length_append] at hr
  have he : excess container ≤ container.raw.length := Nat.sub_le _ _
  cases action with
  | set value =>
    simp only [slack]
    split <;> omega
  | insert value =>
    simp only [slack]
    omega
  | delete count =>
    simp only [slack]
    omega

include hi

lemma execute_eq :
    tuple.execute request = (readArg (request.action.map Node.bytes)).bind fun action =>
      (doNop tuple.node.bytes (fieldOf field (tuple.tail i)) request.path action).bind fun bar =>
        (ofOption (barSizeof (fieldOf field (tuple.tail i)) bar)).bind fun size =>
          (ofOption (barStore (fieldOf field (tuple.tail i)) bar)).bind fun stored =>
            .ok (uint32 (mpSizeofArray tuple.node.children.length +
                (bytesAll (tuple.node.children.take i)).length + size + (tuple.tail i).length),
              mpEncodeArray tuple.node.children.length ++
                bytesAll (tuple.node.children.take i) ++ stored ++ tuple.tail i) := by
  have hr := tuple.wf.reads []
  simp only [tuple.isArray, Reads, append_nil] at hr
  have hlt : i < tuple.node.children.length := (List.getElem?_eq_some_iff.1 hfield).1
  have hn := mpNextTimes_bytesAll tuple.wf.children hlt.le []
  rw [append_nil, append_nil, bytesAll_split hfield] at hn
  have hw := tuple.wf.children field (mem_of_getElem? hfield)
  have hb : between (bytesAll tuple.node.children) (field.bytes ++ tuple.tail i) =
      some (bytesAll (tuple.node.children.take i)) :=
    between_eq (by rw [bytesAll_take_drop tuple.node.children i, bytesAll_split hfield]; rfl)
  change mpNextTimes i _ = some (field.bytes ++ tuple.tail i) at hn
  have hl : (field.bytes ++ tuple.tail i).length - (tuple.tail i).length = field.bytes.length := by
    simp
  simp only [Tuple.execute, xrowUpdateExecute, hr.2, hi, ofOption_some,
    bind_eq, ok_bind, pure_eq, hn, mpNext_bytes hw, hl, hb]
  rfl

lemma edited_eq :
    tuple.edited request = (nodeShape.editAt request.action request.path field).map
      fun field' => nodeShape.recount tuple.node (tuple.node.children.set i field') := by
  have hi' : adjustFieldNo request.fieldNo (nodeShape.children tuple.node).length = some i := hi
  have hfield' : (nodeShape.children tuple.node)[i]? = some field := hfield
  rw [Tuple.edited, Shape.update, hi', bind_some, hfield', bind_some]
  rfl

section

variable (hr : readArg (request.action.map Node.bytes) = .ok (request.action.map Node.bytes))
include hr

lemma exact_of_stores {bar : Bar} {extra : Nat}
    (hb : doNop tuple.node.bytes (fieldOf field (tuple.tail i)) request.path
      (request.action.map Node.bytes) = .ok bar)
    (hs : Stores bar field (tuple.tail i) request.path request.action extra) :
    ∃ new, tuple.edited request = some new ∧ new.WF ∧
      tuple.execute request = .ok (uint32 (new.bytes.length + extra), new.bytes) := by
  obtain ⟨field', hfield', hw, hst, hsi⟩ := hs
  refine ⟨nodeShape.recount tuple.node (tuple.node.children.set i field'), ?_, wf_edited hw, ?_⟩
  · rw [edited_eq hi hfield, hfield', map_some]
  · rw [execute_eq hi hfield, hr, ok_bind, hb, ok_bind, hsi,
      ofOption_some, ok_bind, hst, ofOption_some, ok_bind,
      bytes_edited hfield]
    congr 2
    simp only [length_append, length_mpEncodeArray]
    unfold uint32
    omega

lemma exact_iff_of_done
    (hd : Done (doNop tuple.node.bytes (fieldOf field (tuple.tail i)) request.path
      (request.action.map Node.bytes)) field (tuple.tail i) request.path request.action) :
    Exact tuple request (tuple.execute request) ↔
      ∀ container last, nodeShape.containerAt request.path field = some (container, last) →
        ∀ new, tuple.edited request = some new →
          new.bytes.length + slack container last request.action < 2 ^ 32 := by
  rcases hd with ⟨⟨e, he⟩, hn⟩ | ⟨bar, container, last, hb, hc, hst⟩
  · have her : tuple.execute request = .error e := by
      rw [execute_eq hi hfield, hr, ok_bind, he, error_bind]
    rw [her, edited_eq hi hfield, hn]
    simp [Exact]
  · obtain ⟨new, hne, hw, hex⟩ := exact_of_stores hi hfield hr hb hst
    have hs := slack_lt hfield hc request.action
    rw [hex]
    constructor
    · rintro ⟨hsi, -⟩ container' last' hc' new' hne'
      obtain ⟨rfl, rfl⟩ : container' = container ∧ last' = last :=
        Prod.mk.inj (some.inj (hc'.symm.trans hc))
      obtain rfl : new' = new := some.inj (hne'.symm.trans hne)
      exact (le_uint32_iff hs).1 hsi
    · intro hf
      exact ⟨(le_uint32_iff hs).2 (hf container last hc new hne), new, hne, hw, rfl⟩

end

variable {count : Nat} (haction : request.action = .delete count)
include haction

lemma execute_delete_zero (hz : count = 0) :
    tuple.execute request = .error (.field "cannot delete 0 fields") := by
  rw [execute_eq hi hfield, haction]
  simp [Action.map, readArg, hz]

lemma exact_delete_iff (hl : count < 2 ^ 32) : Exact tuple request (tuple.execute request) ↔
      ∀ container last, nodeShape.containerAt request.path field = some (container, last) →
        SafeDelete container last count := by
  have hw := tuple.wf.children field (mem_of_getElem? hfield)
  have hsi := field_size_lt hfield
  by_cases hz : count = 0
  · rw [execute_delete_zero hi hfield haction hz]
    refine ⟨fun _ container last hc j hj => ?_, fun _ => trivial⟩
    obtain ⟨before, after, hf⟩ := exists_focus hc
    have hco := count_lt hf hw (by omega)
    have hjl := index_lt (hf.wf hw) hj
    split <;> omega
  · have hr : readArg (request.action.map Node.bytes) = .ok (request.action.map Node.bytes) := by
      rw [haction]
      simp only [Action.map, readArg]
      rw [Nat.mod_eq_of_lt hl, if_neg hz]
    have hd : doNop tuple.node.bytes (fieldOf field (tuple.tail i)) request.path
        (request.action.map Node.bytes) =
        doNopDelete tuple.node.bytes (fieldOf field (tuple.tail i)) request.path count := by
      rw [haction]
      rfl
    constructor
    · intro he container last hc
      by_contra hnot
      rw [execute_eq hi hfield, hr, ok_bind, hd] at he
      rcases doNopDelete_not_done hw request.path_ne_nil hsi (Nat.pos_of_ne_zero hz) hl
        hc hnot with hu | ⟨bar, field', hba, hfield', hne⟩
      · rw [hu] at he
        exact he
      · rw [hba, ok_bind] at he
        cases hs : barSizeof (fieldOf field (tuple.tail i)) bar with
        | none =>
          rw [hs] at he
          exact he
        | some size =>
          cases hst : barStore (fieldOf field (tuple.tail i)) bar with
          | none =>
            rw [hs, hst] at he
            exact he
          | some stored =>
            rw [hs, hst] at he
            obtain ⟨-, new, hnw, -, heq⟩ := he
            rw [edited_eq hi hfield, haction, hfield', map_some] at hnw
            rw [← some.inj hnw, bytes_edited hfield] at heq
            exact hne stored hst (append_cancel_left (append_cancel_right heq))
    · intro hsa
      have hdo : Done (doNop tuple.node.bytes (fieldOf field (tuple.tail i)) request.path
          (request.action.map Node.bytes)) field (tuple.tail i) request.path request.action := by
        rw [hd, haction]
        exact doNopDelete_done hw request.path_ne_nil hsi (Nat.pos_of_ne_zero hz)
          (bytes_around hfield) hsa
      refine (exact_iff_of_done hi hfield hr hdo).2 fun container last hc new hnw => ?_
      rw [edited_eq hi hfield, haction] at hnw
      obtain ⟨field', hfield', rfl⟩ := map_eq_some_iff.1 hnw
      have hsh := length_delete_le hw hc hfield'
      have hh := headerSize_le tuple.wf
      have hb := congrArg List.length (bytes_around hfield)
      have hn := congrArg List.length (bytes_edited hfield field')
      have ht := tuple.size_lt
      rw [tuple.isArray, headerSize] at hh
      simp only [length_append, length_mpEncodeArray, fieldOf] at hb hn
      simp only [haction, slack]
      omega

end Field

/-- The nested operation does what is documented, byte for byte, if and only if the new size has 32
bits, and a '#' neither wraps in an array nor misjudges a key of a map. -/
theorem nested_update_exact_iff (tuple : Tuple) (request : Request) :
    (Exact tuple request (tuple.execute request) ↔ Sound tuple request) ∧
      (Sound tuple request → Documented tuple request (tuple.execute request)) := by
  suffices h : Exact tuple request (tuple.execute request) ↔ Sound tuple request from
    ⟨h, fun hs => (h.2 hs).documented⟩
  cases hi : adjustFieldNo request.fieldNo tuple.node.children.length with
  | none =>
    obtain ⟨e, he⟩ := execute_none hi
    rw [he]
    refine ⟨fun _ i field container last hj => ?_, fun _ => trivial⟩
    rw [hi] at hj
    cases hj
  | some i =>
    have hl := adjustFieldNo_lt hi
    obtain ⟨field, hfield⟩ : ∃ field, tuple.node.children[i]? = some field :=
      ⟨_, getElem?_eq_getElem hl⟩
    have hw := tuple.wf.children field (mem_of_getElem? hfield)
    have hsi := field_size_lt hfield
    have hv := request.valid
    have hs : Sound tuple request ↔
        ∀ container last, nodeShape.containerAt request.path field = some (container, last) →
          SizeFits tuple request container last ∧
            ∀ count, request.action = .delete count → SafeDelete container last count := by
      constructor
      · intro h container last hc
        exact h i field container last hi hfield hc
      · intro h j field' container last hj hfield' hc
        obtain rfl : i = j := some.inj (hi.symm.trans hj)
        obtain rfl : field = field' := some.inj (hfield.symm.trans hfield')
        exact h container last hc
    rw [hs]
    cases haction : request.action with
    | delete count =>
      rw [haction] at hv
      rw [exact_delete_iff hi hfield haction hv]
      refine forall_congr' fun container => forall_congr' fun last => forall_congr' fun _ => ?_
      simp [SizeFits, haction]
    | set value =>
      rw [haction] at hv
      have hd := doNopSet_done hw hv request.path_ne_nil (by omega) request.key_lt (tuple.tail i)
      rw [exact_iff_of_done hi hfield (by rw [haction]; rfl) (by rw [haction]; exact hd)]
      refine forall_congr' fun container => forall_congr' fun last => forall_congr' fun _ => ?_
      simp [SizeFits, haction]
    | insert value =>
      rw [haction] at hv
      have hd := doNopInsert_done hw hv request.path_ne_nil (by omega) request.key_lt (tuple.tail i)
      rw [exact_iff_of_done hi hfield (by rw [haction]; rfl) (by rw [haction]; exact hd)]
      refine forall_congr' fun container => forall_congr' fun last => forall_congr' fun _ => ?_
      simp [SizeFits, haction]

/-! A map with the keys "a" and "b", where the first key has the header of a longer string -/

def scalarNode (raw : Bytes) (head : Head) : Node := .mk raw head []

/-- The field `{"a": 1, "b": 2}` of a tuple, with the bytes of the first key. -/
def pairsNode (key : Bytes) : Node :=
  .mk [0x91] (.array 1) [.mk [0x82] (.map 2)
    [scalarNode key (.str [0x61]), scalarNode [1] (.uint 1),
      scalarNode [0xa1, 0x62] (.str [0x62]), scalarNode [2] (.uint 2)]]

lemma wf_scalarNode {raw : Bytes} {head : Head}
    (h : ∀ rest, decodeHead (raw ++ rest) = some (head, rest)) (hne : head.nested = 0)
    (hm : ∀ n, head ≠ .map n) : (scalarNode raw head).WF :=
  ⟨h, hne.symm, fun n hn => absurd hn (hm n), by simp⟩

lemma wf_pairsNode {key : Bytes}
    (h : ∀ rest, decodeHead (key ++ rest) = some (.str [0x61], rest)) : (pairsNode key).WF := by
  refine ⟨fun _ => rfl, rfl, by simp, ?_⟩
  simp only [mem_singleton, forall_eq]
  refine ⟨fun _ => rfl, rfl, ?_, ?_⟩
  · rintro n hn
    cases hn
    decide
  · simp only [mem_cons, not_mem_nil, or_false, forall_eq_or_imp, forall_eq]
    exact ⟨wf_scalarNode h rfl (by simp), wf_scalarNode (fun _ => rfl) rfl (by simp),
      wf_scalarNode (fun _ => rfl) rfl (by simp), wf_scalarNode (fun _ => rfl) rfl (by simp)⟩

def longKeyTuple : Tuple where
  node := pairsNode [0xd9, 1, 0x61]
  wf := wf_pairsNode fun _ => rfl
  isArray := rfl
  size_lt := by decide

def shortKeyTuple : Tuple where
  node := pairsNode [0xa1, 0x61]
  wf := wf_pairsNode fun _ => rfl
  isArray := rfl
  size_lt := by decide

/-- Delete the pair of "a" in the first field. -/
def deletePair : Request where
  fieldNo := 0
  path := [.str [0x61]]
  action := .delete 1
  path_ne_nil := by simp
  key_lt := by simp
  valid := show 1 < 2 ^ 32 by decide

/-- A byte of the longer key stays in the tuple, and what was an array is none any more. -/
theorem nested_delete_keeps_key_byte :
    ¬ Documented longKeyTuple deletePair (longKeyTuple.execute deletePair) := by
  have he : longKeyTuple.execute deletePair = .ok (6, [0x91, 0x81, 0xd9, 0xa1, 0x62, 2]) := by
    decide
  have hd : decode [0x91, 0x81, 0xd9, 0xa1, 0x62, 2] = none := by
    rfl
  rw [he]
  rintro ⟨-, doc, -, hdo⟩
  rw [hd] at hdo
  cases hdo

/-- The key of two bytes is deleted with its value. -/
theorem nested_delete_of_short_key : Sound shortKeyTuple deletePair ∧
      Documented shortKeyTuple deletePair (shortKeyTuple.execute deletePair) := by
  have hs : Sound shortKeyTuple deletePair := by
    rintro i field container last hi hfield hc
    obtain rfl : 0 = i := some.inj hi
    cases hfield
    cases hc
    refine ⟨trivial, ?_⟩
    rintro count hco j hj
    cases hco
    obtain rfl : 1 = j := some.inj hj
    rintro - key hk
    cases hk
    decide
  exact ⟨hs, (nested_update_exact_iff shortKeyTuple deletePair).2 hs⟩

end TarantoolStorage.Update
