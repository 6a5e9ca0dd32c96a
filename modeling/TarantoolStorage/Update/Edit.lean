import TarantoolStorage.Update.Bar

/-! What a nested operation is documented to do to a document, encoded or not. -/
namespace TarantoolStorage.Update

open MsgPack List

/-- The key of a map's pair that a token asks for. An index counts from one. -/
def keyMatches : Token → Head → Bool
  | .num index, .uint value => value = index + 1
  | .num index, .int value => 0 ≤ value ∧ value.toNat = index + 1
  | .str key, .str value => value = key
  | _, _ => false

/-- The place of the value of the first pair whose key is the one. -/
def pairIndex (found : Head → Bool) : List Head → Option Nat
  | key :: _ :: heads => if found key then some 1 else (pairIndex found heads).map (· + 2)
  | _ => none

/-- The place of the value that a token leads to, by the head of a container and those of its
values. -/
def childIndex (token : Token) : Head → List Head → Option Nat
  | .array count, _ =>
    match token with
    | .num index => if index < count then some index else none
    | _ => none
  | .map _, heads => pairIndex (keyMatches token) heads
  | _, _ => none

structure Shape (τ : Type) where
  head : τ → Head
  children : τ → List τ
  /-- The values are others, but as many. -/
  keep : τ → List τ → τ
  /-- The container has these values. -/
  recount : τ → List τ → τ
  /-- A string. -/
  str : Bytes → τ

namespace Shape

variable {τ : Type} (shape : Shape τ)

def index (token : Token) (x : τ) : Option Nat :=
  childIndex token (shape.head x) ((shape.children x).map shape.head)

/-- A new value: after the last one of an array, or with its key in a map. -/
def add (token : Token) (value x : τ) : Option τ :=
  match shape.head x, token with
  | .array count, .num index =>
    if index = count then some (shape.recount x (shape.children x ++ [value])) else none
  | .map _, .str key => some (shape.recount x (shape.str key :: value :: shape.children x))
  | _, _ => none

/-- The operation in the container that holds the value the last token leads to. -/
def edit (token : Token) (x : τ) : Action τ → Option τ
  | .set value =>
    match shape.index token x with
    | some i => some (shape.keep x ((shape.children x).set i value))
    | none => shape.add token value x
  | .insert value =>
    match shape.index token x, shape.head x with
    | some i, .array _ =>
      some (shape.recount x ((shape.children x).take i ++ value :: (shape.children x).drop i))
    | some _, _ => none
    | none, _ => shape.add token value x
  | .delete count =>
    match shape.index token x, shape.head x with
    | some i, .array _ =>
      -- no more than there are
      some (shape.recount x ((shape.children x).take i ++ (shape.children x).drop (i + count)))
    | some i, _ =>
      -- a pair, and only one
      if count = 1 then
        some (shape.recount x ((shape.children x).take (i - 1) ++ (shape.children x).drop (i + 1)))
      else none
    | none, _ => none

def editAt (action : Action τ) : List Token → τ → Option τ
  | [], _ => none
  | [token], x => shape.edit token x action
  | token :: path, x => do
    let i ← shape.index token x
    let child ← (shape.children x)[i]?
    let child' ← editAt action path child
    return shape.keep x ((shape.children x).set i child')

def update (fieldNo : Int) (path : List Token) (action : Action τ) (x : τ) : Option τ :=
  (Vinyl.adjustFieldNo fieldNo (shape.children x).length).bind fun i =>
    (shape.children x)[i]?.bind fun field =>
      (shape.editAt action path field).map fun field' =>
        shape.recount x ((shape.children x).set i field')

/-- The container that the last token of a path is for. -/
def containerAt : List Token → τ → Option (τ × Token)
  | [], _ => none
  | [token], x => some (x, token)
  | token :: path, x => do
    let i ← shape.index token x
    let child ← (shape.children x)[i]?
    containerAt path child

lemma editAt_cons (action : Action τ) (token : Token) {path : List Token} (h : path ≠ []) (x : τ) :
    shape.editAt action (token :: path) x =
      (shape.index token x).bind fun i => (shape.children x)[i]?.bind fun child =>
        (shape.editAt action path child).bind fun child' =>
          some (shape.keep x ((shape.children x).set i child')) := by
  cases path with
  | nil => exact absurd rfl h
  | cons token' path => rfl

lemma containerAt_cons (token : Token) {path : List Token} (h : path ≠ []) (x : τ) :
    shape.containerAt (token :: path) x =
      (shape.index token x).bind fun i => (shape.children x)[i]?.bind (shape.containerAt path) := by
  cases path with
  | nil => exact absurd rfl h
  | cons token' path => rfl

lemma editAt_none (action : Action τ) {token : Token} {x : τ} (path : List Token)
    (hi : shape.index token x = none) (ha : ∀ value, shape.add token value x = none) :
    shape.editAt action (token :: path) x = none := by
  cases path with
  | nil => cases action <;> simp [editAt, edit, hi, ha]
  | cons token' path => rw [editAt_cons _ _ _ (cons_ne_nil _ _), hi]; rfl

end Shape

def recountHead (head : Head) (length : Nat) : Head :=
  match head with
  | .array _ => .array length
  | .map _ => .map (length / 2)
  | head => head

/-- The header that is stored for a container with so many values. -/
def recountRaw (node : Node) (length : Nat) : Bytes :=
  match node.head with
  | .array _ => mpEncodeArray length
  | .map _ => mpEncodeMap (length / 2)
  | _ => node.raw

def docShape : Shape Doc where
  head := fun (.mk head _) => head
  children := fun (.mk _ children) => children
  keep := fun (.mk head _) children => .mk head children
  recount := fun (.mk head _) children => .mk (recountHead head children.length) children
  str := fun key => .mk (.str key) []

def nodeShape : Shape Node where
  head := Node.head
  children := Node.children
  keep := fun node children => .mk node.raw node.head children
  recount := fun node children =>
    .mk (recountRaw node children.length) (recountHead node.head children.length) children
  str := fun key => .mk (mpEncodeStr key) (.str key) []

def Action.map {σ τ : Type} (f : σ → τ) : Action σ → Action τ
  | .set value => .set (f value)
  | .insert value => .insert (f value)
  | .delete count => .delete count

section Bridge

/-- A map from one kind of trees to another that respects how they are made. -/
structure Hom {σ τ : Type} (A : Shape σ) (B : Shape τ) (f : σ → τ) : Prop where
  head : ∀ x, B.head (f x) = A.head x
  children : ∀ x, B.children (f x) = (A.children x).map f
  keep : ∀ x xs, B.keep (f x) (xs.map f) = f (A.keep x xs)
  recount : ∀ x xs, B.recount (f x) (xs.map f) = f (A.recount x xs)
  str : ∀ key, B.str key = f (A.str key)

variable {σ τ : Type} {A : Shape σ} {B : Shape τ} {f : σ → τ}

section

variable (h : Hom A B f)
include h

lemma Hom.index (token : Token) (x : σ) :
    B.index token (f x) = A.index token x := by
  have hh : B.head ∘ f = A.head := funext h.head
  rw [Shape.index, Shape.index, h.head, h.children, map_map, hh]

lemma Hom.recount_eq {x : σ} {xs : List σ} {ys : List τ} (hy : ys = xs.map f) :
    B.recount (f x) ys = f (A.recount x xs) := by
  rw [hy, h.recount]

lemma Hom.keep_eq {x : σ} {xs : List σ} {ys : List τ} (hy : ys = xs.map f) :
    B.keep (f x) ys = f (A.keep x xs) := by
  rw [hy, h.keep]

lemma Hom.add (token : Token) (value x : σ) :
    B.add token (f value) (f x) = (A.add token value x).map f := by
  unfold Shape.add
  rw [h.head]
  cases A.head x <;> cases token <;> try rfl
  case array.num count index =>
    dsimp only
    split
    · refine congrArg some (h.recount_eq ?_)
      rw [h.children, map_append, map_singleton]
    · rfl
  case map.str count key =>
    refine congrArg some (h.recount_eq ?_)
    rw [h.children, h.str, map_cons, map_cons]

lemma Hom.edit (token : Token) (action : Action σ) (x : σ) :
    B.edit token (f x) (action.map f) = (A.edit token x action).map f := by
  cases action with
  | set value =>
    simp only [Action.map, Shape.edit, h.index]
    cases A.index token x with
    | none => exact h.add token value x
    | some i => exact congrArg some (h.keep_eq (by rw [h.children, map_set]))
  | insert value =>
    simp only [Action.map, Shape.edit, h.index, h.head]
    cases A.index token x with
    | none => exact h.add token value x
    | some i =>
      cases A.head x <;> try rfl
      refine congrArg some (h.recount_eq ?_)
      rw [h.children, map_append, map_cons, map_take, map_drop]
  | delete count =>
    simp only [Action.map, Shape.edit, h.index, h.head]
    cases A.index token x with
    | none => rfl
    | some i =>
      have hp : B.recount (f x) ((B.children (f x)).take (i - 1) ++
          (B.children (f x)).drop (i + 1)) =
          f (A.recount x ((A.children x).take (i - 1) ++ (A.children x).drop (i + 1))) :=
        h.recount_eq (by rw [h.children, map_append, map_take, map_drop])
      cases A.head x with
      | array n =>
        refine congrArg some (h.recount_eq ?_)
        rw [h.children, map_append, map_take, map_drop]
      | _ =>
        dsimp only
        split
        · exact congrArg some hp
        · rfl

lemma Hom.editAt (action : Action σ) (path : List Token) (x : σ) :
    B.editAt (action.map f) path (f x) = (A.editAt action path x).map f := by
  induction path generalizing x with
  | nil => rfl
  | cons token path ih =>
    cases path with
    | nil => exact h.edit token action x
    | cons token' path =>
      simp only [Shape.editAt, h.index, h.children, Option.bind_eq_bind]
      cases A.index token x with
      | none => rfl
      | some i =>
        simp only [Option.bind_some, getElem?_map]
        cases (A.children x)[i]? with
        | none => rfl
        | some child =>
          simp only [Option.map_some, Option.bind_some, ih]
          cases A.editAt action (token' :: path) child with
          | none => rfl
          | some child' =>
            simp only [Option.map_some, Option.bind_some]
            exact congrArg some (h.keep_eq (by rw [map_set]))

lemma Hom.update (fieldNo : Int) (path : List Token) (action : Action σ)
    (x : σ) : B.update fieldNo path (action.map f) (f x) =
      (A.update fieldNo path action x).map f := by
  simp only [Shape.update, h.children, length_map]
  cases Vinyl.adjustFieldNo fieldNo (A.children x).length with
  | none => rfl
  | some i =>
    simp only [Option.bind_some, getElem?_map]
    cases (A.children x)[i]? with
    | none => rfl
    | some field =>
      simp only [Option.map_some, Option.bind_some, h.editAt]
      cases A.editAt action path field with
      | none => rfl
      | some field' => exact congrArg some (h.recount_eq (by rw [map_set]))

end

end Bridge

/-- Leaving out the bytes commutes with every edit. -/
lemma docHom : Hom nodeShape docShape Node.doc where
  head := by
    rintro ⟨raw, head, children⟩
    rfl
  children := by
    rintro ⟨raw, head, children⟩
    exact Node.docAll_eq children
  keep := by
    rintro ⟨raw, head, children⟩ nodes
    simp [docShape, nodeShape, Node.doc, Node.docAll_eq, Node.head]
  recount := by
    rintro ⟨raw, head, children⟩ nodes
    simp [docShape, nodeShape, Node.doc, Node.docAll_eq, Node.head]
  str := by
    intro key
    rfl

end TarantoolStorage.Update
