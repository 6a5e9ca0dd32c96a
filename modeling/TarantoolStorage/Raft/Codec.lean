import TarantoolStorage.Lib.MsgPack
import TarantoolStorage.Raft.Machine

/-!
Raft requests as rows of the log. `none` is a failed assertion or a read past the end of the body.
-/
namespace TarantoolStorage

open Checked MsgPack

def iprotoRaft : Nat := 30
def iprotoRaftTerm : Nat := 0
def iprotoRaftVote : Nat := 1
def iprotoRaftState : Nat := 2
def iprotoRaftVclock : Nat := 3
def groupLocal : Nat := 1

def malformedRaftRequest : String := "malformed raft request"
def raftBody : String := "raft body"

/-- `xrow_header`, as far as raft requests use it. -/
structure XrowHeader where
  type : Nat
  groupId : Nat
  body : List Bytes

/-- The components a vclock iterator visits after skipping the one of id 0. -/
def vclockIdsIgnore0 (v : Vclock) : List Nat :=
  match setBits v.map with
  | 0 :: ids => ids
  | ids => ids

def vclockSizeIgnore0 (v : Vclock) : Nat := (setBits (v.map &&& ~~~1)).length

def mpEncodeVclockIgnore0 (v : Vclock) : Bytes :=
  mpEncodeMap (vclockSizeIgnore0 v) ++ (vclockIdsIgnore0 v).flatMap fun id =>
    mpEncodeUint id ++ mpEncodeUint (uint64 (v.lsn id))

/-- The loop of `mp_decode_vclock_ignore0` over the pairs still to be read. -/
def decodeVclockPairs (error : String) : Nat → Vclock → Bytes → Decode (Vclock × Bytes)
  | 0, v, pos => return (v, pos)
  | size + 1, v, pos => do
    let (id, pos) ← decodeUint error pos
    let (lsn, pos) ← decodeUint error pos
    let id := id % 2 ^ 32
    let lsn := int64 lsn
    let v ← (if lsn > 0 ∧ id ≠ 0 then ExceptT.lift (vclockFollow v id lsn) else pure v)
    decodeVclockPairs error size v pos

def mpDecodeVclockIgnore0 (error : String) (pos : Bytes) : Decode (Vclock × Bytes) :=
  match headType pos with
  | none => ExceptT.mk none
  | some .map => do
    let (size, pos) ← ExceptT.lift (mpDecodeMap pos)
    decodeVclockPairs error size vclockCreate pos
  | some _ => throw error

def encodeRaftField (key value : Nat) : Bytes := mpEncodeUint key ++ mpEncodeUint value

/-- `xrow_encode_raft`: the term is always written, the rest only where it is set. -/
def xrowEncodeRaft (r : RaftMsg) : XrowHeader where
  type := iprotoRaft
  groupId := groupLocal
  body :=
    let mapSize := 1 + (if r.vote ≠ 0 then 1 else 0) + (if r.state ≠ 0 then 1 else 0) +
      (if r.vclock.isSome then 1 else 0)
    [mpEncodeMap mapSize ++ (encodeRaftField iprotoRaftTerm r.term ++
      ((if r.vote ≠ 0 then encodeRaftField iprotoRaftVote r.vote else []) ++
      ((if r.state ≠ 0 then encodeRaftField iprotoRaftState r.state else []) ++
      match r.vclock with
      | some v => mpEncodeUint iprotoRaftVclock ++ mpEncodeVclockIgnore0 v
      | none => [])))]

/-- The value of one key. The vclock is skipped by callers that pass none to fill. -/
def decodeRaftValue (wantVclock : Bool) (r : RaftMsg) (key : Nat) (pos : Bytes) :
    Decode (RaftMsg × Bytes) :=
  if key = iprotoRaftTerm then do
    let (term, pos) ← decodeUint raftBody pos
    return ({ r with term := term }, pos)
  else if key = iprotoRaftVote then do
    let (vote, pos) ← decodeUint raftBody pos
    return ({ r with vote := vote % 2 ^ 32 }, pos)
  else if key = iprotoRaftState then do
    let (state, pos) ← decodeUint raftBody pos
    return ({ r with state := state }, pos)
  else if key = iprotoRaftVclock ∧ wantVclock = true then do
    let (v, pos) ← mpDecodeVclockIgnore0 raftBody pos
    return ({ r with vclock := some v }, pos)
  else do
    let pos ← ExceptT.lift (mpNext pos)
    return (r, pos)

/-- The loop of `xrow_decode_raft` over the pairs still to be read. -/
def decodeRaftFields (wantVclock : Bool) : Nat → RaftMsg → Bytes → Decode RaftMsg
  | 0, r, _ => return r
  | mapSize + 1, r, pos => do
    let (key, pos) ← decodeUint raftBody pos
    let (r, pos) ← decodeRaftValue wantVclock r key pos
    decodeRaftFields wantVclock mapSize r pos

def xrowDecodeRaft (wantVclock : Bool) (row : XrowHeader) : Decode RaftMsg := do
  ExceptT.lift (assertThat (row.type = iprotoRaft))
  match row.body with
  | [body] =>
    if row.groupId ≠ groupLocal then throw malformedRaftRequest
    else
      let (mapSize, pos) ← ExceptT.lift (mpDecodeMap body)
      decodeRaftFields wantVclock mapSize ⟨0, 0, 0, none⟩ pos
  | _ => throw malformedRaftRequest

variable {wantVclock : Bool} {r : RaftMsg}

/-- A pair whose key is known sets its field, and the loop goes on. -/
lemma decodeRaftFields_cons {r' : RaftMsg} {key value : Nat} (hk : key < 2 ^ 64)
    (hv : ∀ rest, decodeRaftValue wantVclock r key (mpEncodeUint value ++ rest) =
      pure (r', rest)) (mapSize : Nat) (rest : Bytes) :
    decodeRaftFields wantVclock (mapSize + 1) r (encodeRaftField key value ++ rest) =
      decodeRaftFields wantVclock mapSize r' rest := by
  simp [decodeRaftFields, encodeRaftField, decodeUint_encode hk, pure_bind, hv]

/-- A pair that is left out when its value is 0 leaves the field at the 0 it starts with. -/
lemma decodeRaftFields_optional {r' : RaftMsg} {key value : Nat} (hk : key < 2 ^ 64)
    (hv : ∀ rest, decodeRaftValue wantVclock r key (mpEncodeUint value ++ rest) =
      pure (r', rest)) (hz : value = 0 → r' = r) (mapSize : Nat) (rest : Bytes) :
    decodeRaftFields wantVclock (mapSize + if value ≠ 0 then 1 else 0) r
        ((if value ≠ 0 then encodeRaftField key value else []) ++ rest) =
      decodeRaftFields wantVclock mapSize r' rest := by
  by_cases h : value = 0
  · rw [hz h]
    simp [h]
  · simp only [ne_eq, h, not_false_eq_true, ite_true]
    exact decodeRaftFields_cons hk hv mapSize rest

lemma decodeRaftValue_term {term : Nat} (h : term < 2 ^ 64) (rest : Bytes) :
    decodeRaftValue wantVclock r iprotoRaftTerm (mpEncodeUint term ++ rest) =
      pure ({ r with term := term }, rest) := by
  simp [decodeRaftValue, decodeUint_encode h]

lemma decodeRaftValue_vote {vote : Nat} (h : vote < 2 ^ 32) (rest : Bytes) :
    decodeRaftValue wantVclock r iprotoRaftVote (mpEncodeUint vote ++ rest) =
      pure ({ r with vote := vote }, rest) := by
  have hw : vote < 2 ^ 64 := h.trans (by decide)
  have hm : vote % 4294967296 = vote := Nat.mod_eq_of_lt h
  simp [decodeRaftValue, decodeUint_encode hw, iprotoRaftTerm, iprotoRaftVote, hm]

lemma decodeRaftValue_state {state : Nat} (h : state < 2 ^ 64) (rest : Bytes) :
    decodeRaftValue wantVclock r iprotoRaftState (mpEncodeUint state ++ rest) =
      pure ({ r with state := state }, rest) := by
  simp [decodeRaftValue, decodeUint_encode h, iprotoRaftTerm, iprotoRaftVote, iprotoRaftState]

/-- A request without a vclock is read back as it was written. -/
lemma xrowDecodeRaft_encode (ht : r.term < 2 ^ 64) (hvo : r.vote < 2 ^ 32)
    (hs : r.state < 2 ^ 64) (hv : r.vclock = none) :
    xrowDecodeRaft wantVclock (xrowEncodeRaft r) = pure r := by
  obtain ⟨term, vote, state, vclock⟩ := r
  obtain rfl : vclock = none := hv
  have hsi : 1 + (if vote ≠ 0 then 1 else 0) + (if state ≠ 0 then 1 else 0) + 0 =
      0 + (if state ≠ 0 then 1 else 0) + (if vote ≠ 0 then 1 else 0) + 1 := by omega
  have hl : 0 + (if state ≠ 0 then 1 else 0) + (if vote ≠ 0 then 1 else 0) + 1 < 2 ^ 32 := by
    split <;> split <;> decide
  have hf : decodeRaftFields wantVclock
      (0 + (if state ≠ 0 then 1 else 0) + (if vote ≠ 0 then 1 else 0) + 1) ⟨0, 0, 0, none⟩
      (encodeRaftField iprotoRaftTerm term ++
        ((if vote ≠ 0 then encodeRaftField iprotoRaftVote vote else []) ++
        ((if state ≠ 0 then encodeRaftField iprotoRaftState state else []) ++ []))) =
      pure ⟨term, vote, state, none⟩ := by
    rw [decodeRaftFields_cons (by decide) (decodeRaftValue_term ht),
      decodeRaftFields_optional (by decide) (decodeRaftValue_vote hvo) (by rintro rfl; rfl),
      decodeRaftFields_optional (by decide) (decodeRaftValue_state hs) (by rintro rfl; rfl)]
    rfl
  simp only [xrowDecodeRaft, xrowEncodeRaft, Option.isSome_none, Bool.false_eq_true, ite_false,
    hsi, mpDecodeMap_encode hl]
  exact hf

end TarantoolStorage
