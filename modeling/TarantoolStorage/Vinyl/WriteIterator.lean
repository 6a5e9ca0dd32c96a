import TarantoolStorage.Lib.Merge
import TarantoolStorage.Vinyl.Squash

/-!
The write iterator (`vy_write_iterator.c`), used for dump and compaction. The statements of a key
are merged from the sources and cut into a history for each read view, which is merged into one
statement.
-/
namespace TarantoolStorage.Vinyl

open Schema

variable {V F K : Type*} {S : Schema V F K}

def Schema.Terminal.lsn : S.Terminal → Nat
  | .insert lsn _ => lsn
  | .replace lsn _ _ _ => lsn
  | .delete lsn _ => lsn

/-- `VY_STMT_DEFERRED_DELETE`, set for REPLACE and DELETE only. -/
def Schema.Terminal.deferredDelete : S.Terminal → Bool
  | .insert _ _ => false
  | .replace _ deferredDelete _ _ => deferredDelete
  | .delete _ deferredDelete => deferredDelete

def Schema.Terminal.clearDeferredDelete : S.Terminal → S.Terminal
  | .insert lsn tuple => .insert lsn tuple
  | .replace lsn _ update tuple => .replace lsn false update tuple
  | .delete lsn _ => .delete lsn false

namespace Schema.Stmt

def lsn : S.Stmt → Nat
  | .terminal stmt => stmt.lsn
  | .upsert stmt => stmt.lsn

def isDelete : S.Stmt → Bool
  | .terminal stmt => stmt.isDelete
  | .upsert _ => false

def isUpsert : S.Stmt → Bool
  | .terminal _ => false
  | .upsert _ => true

/-- An INSERT, or a REPLACE of a secondary index that was generated by an update
(`VY_STMT_UPDATE`) and so can be turned into an INSERT. -/
def isInsert (isPrimary : Bool) : S.Stmt → Bool
  | .terminal (.insert _ _) => true
  | .terminal (.replace _ _ update _) => !isPrimary && update
  | _ => false

end Schema.Stmt

/-- `INT64_MAX`, the LSN of the read view that sees everything. -/
def int64Max : Nat := 2 ^ 63 - 1

/-- The order of the sources: by key, and newest first for one key. -/
def Before {κ : Type*} [LinearOrder κ] (a b : κ × S.Stmt) : Prop :=
  a.1 < b.1 ∨ a.1 = b.1 ∧ b.2.lsn < a.2.lsn

instance {κ : Type*} [LinearOrder κ] : DecidableRel (Before : κ × S.Stmt → κ × S.Stmt → Prop) :=
  fun a b => inferInstanceAs (Decidable (a.1 < b.1 ∨ a.1 = b.1 ∧ b.2.lsn < a.2.lsn))

/-- `struct vy_write_iterator` with its sources (mems and slices of runs) and the read views, oldest
first. The virtual source that ends a key has the LSN 0, which no statement has. -/
structure WriteIterator (κ : Type*) [LinearOrder κ] (S : Schema V F K) where
  isPrimary : Bool
  isLastLevel : Bool
  sources : List (List (κ × S.Stmt))
  vlsns : List Nat
  lsn_pos : ∀ source ∈ sources, ∀ e ∈ source, 0 < e.2.lsn
  lsn_le : ∀ source ∈ sources, ∀ e ∈ source, e.2.lsn ≤ int64Max
  vlsns_sorted : vlsns.Pairwise (· ≤ ·)
  vlsns_le : ∀ vlsn ∈ vlsns, vlsn ≤ int64Max

/-- The sources are in order, and for one key no two of them have an LSN in common. -/
structure WriteIterator.Ordered {κ : Type*} [LinearOrder κ] (it : WriteIterator κ S) : Prop where
  sorted : ∀ source ∈ it.sources, source.Pairwise Before
  distinct : it.sources.Pairwise fun xs ys => ∀ a ∈ xs, ∀ b ∈ ys, a.1 = b.1 → a.2.lsn ≠ b.2.lsn

/-- `struct vy_write_history` of a read view. Only the oldest statement may be other
than an UPSERT: behind it the loop goes on with the next read view. -/
structure WriteHistory (S : Schema V F K) where
  oldest : Option S.Terminal
  /-- oldest first -/
  upserts : List S.Upsert

namespace WriteHistory

def empty : WriteHistory S := ⟨none, []⟩

/-- `vy_write_history_new`: an older statement is put in front. -/
def push (history : WriteHistory S) : S.Stmt → WriteHistory S
  | .terminal stmt => { history with oldest := some stmt }
  | .upsert stmt => { history with upserts := stmt :: history.upserts }

end WriteHistory

/-- The variables of the loop of `vy_write_iterator_build_history`. -/
structure HistoryBuilder (S : Schema V F K) where
  currentRvI : Nat
  currentRvLsn : Int
  mergeUntilLsn : Int
  /-- `read_views[i].history` -/
  histories : List (WriteHistory S)
  isFirstInsert : Bool
  deferredDelete : Option S.Terminal

namespace WriteIterator

variable {κ : Type*} [LinearOrder κ] (it : WriteIterator κ S)

/-- `read_views`: the newest comes first, and it sees everything. -/
def readViews : List Nat :=
  int64Max :: it.vlsns.reverse

/-- `vy_write_iterator_get_vlsn`. -/
def getVlsn (i : Nat) : Int :=
  match it.readViews[i]? with
  | some vlsn => vlsn
  | none => -1

/-- `heap_less`, the virtual source apart. -/
def heapLess (a b : κ × S.Stmt) : Bool :=
  if a.1 ≠ b.1 then decide (a.1 < b.1)
  else if a.2.lsn ≠ b.2.lsn then decide (b.2.lsn < a.2.lsn)
  else !a.2.isDelete && b.2.isDelete

/-- The statements in the order in which `vy_write_iterator_merge_step` supplies them. -/
def merged : List (κ × S.Stmt) :=
  Merge.merge heapLess it.sources

/-- The state at the start of `vy_write_iterator_build_history`. -/
def startHistory : HistoryBuilder S where
  currentRvI := 0
  currentRvLsn := it.getVlsn 0
  mergeUntilLsn := it.getVlsn 1
  histories := it.readViews.map fun _ => .empty
  isFirstInsert := false
  deferredDelete := none

def nextView (builder : HistoryBuilder S) : HistoryBuilder S :=
  { builder with
    currentRvI := builder.currentRvI + 1
    currentRvLsn := builder.mergeUntilLsn
    mergeUntilLsn := it.getVlsn (builder.currentRvI + 2) }

/-- Skip read views which see the same version of the key. -/
def skipViews (lsn : Nat) : Nat → HistoryBuilder S → HistoryBuilder S
  | 0, builder => builder
  | n + 1, builder =>
    if (lsn : Int) ≤ builder.mergeUntilLsn then skipViews lsn n (it.nextView builder)
    else builder

/-- `vy_write_iterator_deferred_delete`. -/
def deferDelete (deferred : Option S.Terminal) : S.Stmt → Option S.Terminal
  | .upsert _ => deferred
  | .terminal stmt => if stmt.deferredDelete then some stmt else none

/-- One turn of the loop of `vy_write_iterator_build_history`. -/
def buildStep (builder : HistoryBuilder S) (stmt : S.Stmt) : HistoryBuilder S :=
  let builder := { builder with
    isFirstInsert := stmt.isInsert it.isPrimary
    deferredDelete := if it.isPrimary then deferDelete builder.deferredDelete stmt
      else builder.deferredDelete }
  -- invisible to the current read view, and the previous one is fully built
  if builder.currentRvLsn < (stmt.lsn : Int) then builder
  else
    let builder := it.skipViews stmt.lsn it.readViews.length builder
    -- optimization 1: skip last level delete
    if stmt.isDelete && it.isLastLevel && decide (builder.mergeUntilLsn < 0) then
      { builder with currentRvLsn := -1 }
    else
      -- vy_write_iterator_push_rv
      let builder := { builder with
        histories := builder.histories.modify builder.currentRvI fun h => h.push stmt }
      -- optimization 2: skip statements overwritten by a REPLACE or DELETE
      if stmt.isUpsert then builder else it.nextView builder

/-- `vy_write_iterator_build_history` on the statements of a key. -/
def buildHistory (stmts : List S.Stmt) : HistoryBuilder S :=
  stmts.foldl it.buildStep it.startHistory

/-- The last seen statement with a deferred DELETE; it is of no use on the last level. -/
def lastDeferred (builder : HistoryBuilder S) : Option S.Terminal :=
  if it.isLastLevel then none else builder.deferredDelete

section Merge

variable [DecidableEq K]

/-- The end of `vy_read_view_merge`: the flag of a deferred DELETE is cleared but for the last seen
one, and the first statement of the key is adjusted. -/
def finishMerge (deferred : Option S.Terminal) (isFirstInsert : Bool) (prev : Option S.Stmt) :
    S.Stmt → Option S.Stmt
  | .upsert stmt => some (.upsert stmt)
  | .terminal stmt =>
    let stmt := if deferred.map Terminal.lsn = some stmt.lsn then stmt
      else stmt.clearDeferredDelete
    if prev.isSome then some (.terminal stmt)
    else match stmt with
      -- optimization 5: discard the first DELETE
      | .delete lsn flag => if isFirstInsert then none else some (.terminal (.delete lsn flag))
      | .replace lsn flag update tuple =>
        if isFirstInsert then some (.terminal (.insert lsn tuple))
        else some (.terminal (.replace lsn flag update tuple))
      | .insert lsn tuple =>
        if isFirstInsert then some (.terminal (.insert lsn tuple))
        else some (.terminal (.replace lsn false false tuple))

def squashAll (stmt : S.Stmt) (upserts : List S.Upsert) : S.Stmt :=
  upserts.foldl (fun result upsert => applyUpsert upsert (some result)) stmt

/-- `vy_read_view_merge`; a read view without history is passed over. -/
def readViewMerge (builder : HistoryBuilder S) (prev : Option S.Stmt)
    (history : WriteHistory S) : Option S.Stmt :=
  let finish := finishMerge (it.lastDeferred builder) builder.isFirstInsert prev
  match history.oldest, history.upserts with
  | some stmt, upserts =>
    -- optimization 4: discard a DELETE that is preceded by another DELETE
    if prev.any Stmt.isDelete && stmt.isDelete then none
    else finish (squashAll (.terminal stmt) upserts)
  | none, upsert :: upserts =>
    -- on the last level, or on top of a REPLACE or DELETE, the UPSERT can be applied
    if it.isLastLevel || prev.any (fun stmt => !stmt.isUpsert) then
      finish (squashAll (applyUpsert upsert prev) upserts)
    else finish (squashAll (.upsert upsert) upserts)
  | none, [] => none

/-- One turn of the loop of `vy_write_iterator_build_read_views`. The previous statement
is the first of those made so far. -/
def mergeView (builder : HistoryBuilder S) (made : List S.Stmt) (history : WriteHistory S) :
    List S.Stmt :=
  match it.readViewMerge builder made.head? history with
  | none => made
  | some stmt => stmt :: made

/-- The loop itself, from the oldest read view on. -/
def mergeViews (builder : HistoryBuilder S) (histories : List (WriteHistory S)) : List S.Stmt :=
  histories.foldr (fun history made => it.mergeView builder made history) []

/-- What `vy_write_iterator_next` returns for one key: the statements of the read views, then the
last seen one with a deferred DELETE unless it was the last of them. -/
def writeKey (stmts : List S.Stmt) : List S.Stmt :=
  let builder := it.buildHistory stmts
  let made := it.mergeViews builder builder.histories
  match it.lastDeferred builder with
  | none => made
  | some stmt =>
    if made.getLast?.map Stmt.lsn = some stmt.lsn then made
    else made ++ [.terminal stmt]

def output : List (κ × S.Stmt) :=
  Merge.eachKey it.writeKey it.merged.length it.merged

end Merge

end WriteIterator

/-- The statements of a key in all the sources, newest first. -/
def WriteIterator.versions {κ : Type*} [LinearOrder κ] (it : WriteIterator κ S) (k : κ) :
    List S.Stmt :=
  (Merge.ofKey k it.sources.flatten).insertionSort fun a b => b.lsn ≤ a.lsn

def visible (vlsn : Nat) (stmts : List S.Stmt) : List S.Stmt :=
  stmts.filter fun stmt => stmt.lsn ≤ vlsn

def Schema.Terminal.version? (stmt : S.Terminal) : Option (Nat × S.Tuple) :=
  stmt.tuple?.map fun tuple => (stmt.lsn, tuple)

variable [DecidableEq K]

/-- A read of the key from statements, newest first: `vy_history_apply` on the history. -/
def readAt (vlsn : Nat) (stmts : List S.Stmt) : Option (Nat × S.Tuple) :=
  (historyApply (.collect (visible vlsn stmts)) false).bind Terminal.version?

end TarantoolStorage.Vinyl
