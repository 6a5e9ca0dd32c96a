import TarantoolStorage.Lib.MsgPack

/-!
MessagePack data as a list of items: scalars and the headers of containers, each with its bytes.
-/
namespace MsgPack

variable {S : Type}

/-- What an item is. A container is followed by its values, a map by twice as many. -/
inductive Kind (S : Type) where
  | scalar (value : S)
  | array (count : Nat)
  | map (count : Nat)
  deriving DecidableEq

structure Item (S : Type) where
  raw : Bytes
  kind : Kind S
  deriving DecidableEq

/-- The number of values that follow an item and belong to it. -/
def Kind.nested : Kind S → Nat
  | .scalar _ => 0
  | .array count => count
  | .map count => 2 * count

def skipItems : Nat → List (Item S) → Option (List (Item S))
  | 0, items => some items
  | _ + 1, [] => none
  | k + 1, item :: items => skipItems (k + item.kind.nested) items

def valueBytes : Nat → List (Item S) → Bytes
  | 0, _ | _ + 1, [] => []
  | k + 1, item :: items => item.raw ++ valueBytes (k + item.kind.nested) items

@[simp] lemma skipItems_zero (items : List (Item S)) : skipItems 0 items = some items := by
  cases items <;> rfl

lemma skipItems_add (j k : Nat) (items : List (Item S)) :
    skipItems (j + k) items = (skipItems j items).bind (skipItems k) := by
  induction items generalizing j with
  | nil =>
    cases j with
    | zero => simp
    | succ j => rw [Nat.succ_add]; rfl
  | cons item items ih =>
    cases j with
    | zero => simp
    | succ j => rw [Nat.succ_add, skipItems, skipItems, Nat.add_right_comm, ih]

end MsgPack
