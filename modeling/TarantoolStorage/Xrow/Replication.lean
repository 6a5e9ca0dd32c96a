import TarantoolStorage.Xrow.Header
import TarantoolStorage.Raft.Codec

/-!
Requests of replication: `xrow_decode_synchro`, and what bodies it and `xrow_decode_raft` read
without a failed assertion.
-/
namespace TarantoolStorage.Xrow

open Checked MsgPack

def iprotoTerm : Nat := 0x53

def requestBody : String := "request body"

structure SynchroRequest where
  type : UInt16
  replicaId : UInt32
  originId : UInt32
  lsn : Int64
  term : UInt64
  deriving DecidableEq, Repr

/-- The type compared is that of the key itself. -/
def synchroAccepts (key : Nat) : Prop := key < iprotoKeyMax ∧ iprotoKeyType key = .uint

instance (key : Nat) : Decidable (synchroAccepts key) := inferInstanceAs (Decidable (_ ∧ _))

/-- The value of a key, that the source holds in eight bits. -/
def decodeSynchroValue (req : SynchroRequest) (key : Nat) (pos : Bytes) :
    Decode (SynchroRequest × Bytes) :=
  if key = iprotoReplicaId then do
    let (n, pos) ← ExceptT.lift (mpDecodeUint pos)
    return ({ req with replicaId := UInt32.ofNat n }, pos)
  else if key = iprotoLsn then do
    let (n, pos) ← ExceptT.lift (mpDecodeUint pos)
    return ({ req with lsn := (UInt64.ofNat n).toInt64 }, pos)
  else if key = iprotoTerm then do
    let (n, pos) ← ExceptT.lift (mpDecodeUint pos)
    return ({ req with term := UInt64.ofNat n }, pos)
  else do
    let pos ← ExceptT.lift (mpNext pos)
    return (req, pos)

/-- One pair of the body. A pair whose key is no number is skipped. -/
def decodeSynchroPair (req : SynchroRequest) (pos : Bytes) : Decode (SynchroRequest × Bytes) :=
  match headType pos with
  | none => ExceptT.mk none
  | some .uint => do
    let (key, pos) ← ExceptT.lift (mpDecodeUint pos)
    if synchroAccepts (key % 2 ^ 8) then decodeSynchroValue req (key % 2 ^ 8) pos
    else throw requestBody
  | some _ => do
    let pos ← ExceptT.lift (mpNext pos)
    let pos ← ExceptT.lift (mpNext pos)
    return (req, pos)

/-- The loop of `xrow_decode_synchro` over the pairs still to be read. -/
def decodeSynchroPairs : Nat → SynchroRequest → Bytes → Decode SynchroRequest
  | 0, req, _ => return req
  | size + 1, req, pos => do
    let (req, pos) ← decodeSynchroPair req pos
    decodeSynchroPairs size req pos

/-- The body is not MsgPack or no map. -/
def SynchroRefused (body : Bytes) : Prop := mpCheck body = none ∨ headType body ≠ some .map

instance (body : Bytes) : Decidable (SynchroRefused body) := inferInstanceAs (Decidable (_ ∨ _))

def xrowDecodeSynchro (row : Header) : Decode SynchroRequest :=
  match row.body with
  | [] => throw requestBody
  | [body] =>
    if SynchroRefused body then throw requestBody
    else do
      let (size, pos) ← ExceptT.lift (mpDecodeMap body)
      let req ← decodeSynchroPairs size ⟨0, 0, 0, 0, 0⟩ pos
      return { req with type := row.type, originId := row.replicaId }
  | _ => ExceptT.mk none

/-- The keys that the loop comes to and accepts are below 256, so none is cut to eight bits. -/
def KeysWhole : Nat → SynchroRequest → Bytes → Prop
  | 0, _, _ => True
  | size + 1, req, pos =>
    (∀ p, mpDecodeUint pos = some p → synchroAccepts (p.1 % 2 ^ 8) → p.1 < 2 ^ 8) ∧
      ∀ p, decodeSynchroPair req pos = pure p → KeysWhole size p.1 p.2

/-- Pairs that a reader of synchronous requests can read: up to a key it refuses, keys are below 256
and the numbers of a request are numbers. -/
def SynchroPairs : Nat → Bytes → Prop
  | 0, _ => True
  | size + 1, pos =>
    (Other .uint pos ∧ ∃ value rest, mpNext pos = some value ∧ mpNext value = some rest ∧
      SynchroPairs size rest) ∨
    ∃ p, mpDecodeUint pos = some p ∧ (synchroAccepts (p.1 % 2 ^ 8) → p.1 < 2 ^ 8 ∧ ∃ rest,
      (if p.1 ∈ [iprotoReplicaId, iprotoLsn, iprotoTerm] then
        ∃ n, mpDecodeUint p.2 = some (n, rest) else mpNext p.2 = some rest) ∧
      SynchroPairs size rest)

lemma returns_value {req : SynchroRequest} {key : Nat} {pos : Bytes} {R : Bytes → Prop} :
    (Returns (decodeSynchroValue req key pos) fun p => R p.2) ↔
      ∃ rest, (if key ∈ [iprotoReplicaId, iprotoLsn, iprotoTerm] then
        ∃ n, mpDecodeUint pos = some (n, rest) else mpNext pos = some rest) ∧ R rest := by
  have hn : (∃ p, mpDecodeUint pos = some p ∧ R p.2) ↔
      ∃ rest, (∃ n, mpDecodeUint pos = some (n, rest)) ∧ R rest := by
    constructor
    · rintro ⟨⟨n, rest⟩, h, hR⟩
      exact ⟨rest, ⟨n, h⟩, hR⟩
    · rintro ⟨rest, ⟨n, h⟩, hR⟩
      exact ⟨(n, rest), h, hR⟩
  unfold decodeSynchroValue
  split_ifs <;> simp_all

lemma synchro_iff (size : Nat) (req : SynchroRequest) (pos : Bytes) :
    (Returns (decodeSynchroPairs size req pos) fun _ => True) ∧ KeysWhole size req pos ↔
      SynchroPairs size pos := by
  induction size generalizing req pos with
  | zero => simp [decodeSynchroPairs, KeysWhole, SynchroPairs]
  | succ size ih =>
    rw [decodeSynchroPairs, returns_bind, KeysWhole, and_left_comm, ← returns_and]
    simp only [ih]
    have hu {p : Nat × Bytes} := @headType_of_mpDecodeUint pos p
    rw [SynchroPairs, decodeSynchroPair]
    split
    next h =>
      simp only [h, reduceCtorEq, imp_false] at hu
      simp [Other, h, hu, Returns]
    next h =>
      simp only [Other, h]
      cases hk : mpDecodeUint pos with
      | none => simp
      | some p =>
        simp
        split
        next ha =>
          simp only [ha, returns_value, forall_const, and_congr_right_iff]
          intro hl
          simp [Nat.mod_eq_of_lt hl]
        next ha => simp [ha]
    next t hn h => simp_all [Other]

/-- Pairs that a reader of vclocks can read: up to a value that is no number, ids are below the
limit and each LSN is above the last of its id. -/
def VclockPairs (Q : Bytes → Prop) : Nat → (Nat → Int) → Bytes → Prop
  | 0, _, pos => Q pos
  | size + 1, newest, pos =>
    Other .uint pos ∨ ∃ p, mpDecodeUint pos = some p ∧
      (Other .uint p.2 ∨ ∃ q, mpDecodeUint p.2 = some q ∧ if int64 q.1 > 0 ∧ p.1 % 2 ^ 32 ≠ 0 then
          p.1 % 2 ^ 32 < vclockMax ∧ newest (p.1 % 2 ^ 32) < int64 q.1 ∧ VclockPairs Q size
              (fun id => if id = p.1 % 2 ^ 32 then int64 q.1 else newest id) q.2
        else VclockPairs Q size newest q.2)

/-- Pairs that a reader of raft requests can read, up to the first it refuses. -/
def RaftPairs (wantVclock : Bool) : Nat → Bytes → Prop
  | 0, _ => True
  | size + 1, pos =>
    Other .uint pos ∨ ∃ p, mpDecodeUint pos = some p ∧
      if p.1 ∈ [iprotoRaftTerm, iprotoRaftVote, iprotoRaftState] then
        Other .uint p.2 ∨ ∃ q, mpDecodeUint p.2 = some q ∧ RaftPairs wantVclock size q.2
      else if p.1 = iprotoRaftVclock ∧ wantVclock = true then
        Other .map p.2 ∨ headType p.2 = some .map ∧ ∃ q, mpDecodeMap p.2 = some q ∧
          VclockPairs (RaftPairs wantVclock size) q.1 (fun _ => 0) q.2
      else ∃ rest, mpNext p.2 = some rest ∧ RaftPairs wantVclock size rest

lemma follow_iff {v : Vclock} {id : Nat} {lsn : Int} {Q : (Nat → Int) → Prop} (h : lsn > 0) :
    (∃ v', vclockFollow v id lsn = some v' ∧ Q (vclockGet v')) ↔
      id < vclockMax ∧ vclockGet v id < lsn ∧ Q fun k => if k = id then lsn else vclockGet v k := by
  constructor
  · rintro ⟨v', hv', hQ⟩
    have hf := hv'
    simp only [vclockFollow, assert_bind_eq_some] at hf
    obtain ⟨hn, hi, hl, -⟩ := hf
    obtain ⟨_, hv, hg⟩ := vclockFollow_spec hn hi hl
    obtain rfl := Option.some.inj (hv.symm.trans hv')
    exact ⟨hi, hl, funext hg ▸ hQ⟩
  · rintro ⟨hi, hl, hQ⟩
    obtain ⟨v', hv, hg⟩ := vclockFollow_spec (by omega) hi hl
    exact ⟨v', hv, (funext hg).symm ▸ hQ⟩

lemma vclock_iff {error : String} {Q : Bytes → Prop} (size : Nat) (v : Vclock) (pos : Bytes) :
    (Returns (decodeVclockPairs error size v pos) fun p => Q p.2) ↔
      VclockPairs Q size (vclockGet v) pos := by
  induction size generalizing v pos with
  | zero => rfl
  | succ size ih =>
    simp only [decodeVclockPairs, VclockPairs, returns_bind, returns_decodeUint]
    refine or_congr_right (exists_congr fun p => and_congr_right fun _ => or_congr_right
      (exists_congr fun q => and_congr_right fun _ => ?_))
    split
    next h =>
      simp only [returns_lift, ih]
      exact follow_iff (Q := fun newest => VclockPairs Q size newest q.2) h.1
    · simp [returns_pure, ih]

lemma vclock_map_iff {error : String} {Q : Bytes → Prop} {pos : Bytes} :
    (Returns (mpDecodeVclockIgnore0 error pos) fun p => Q p.2) ↔
      Other .map pos ∨ headType pos = some .map ∧
        ∃ q, mpDecodeMap pos = some q ∧ VclockPairs Q q.1 (fun _ => 0) q.2 := by
  have hz : vclockGet vclockCreate = fun _ => 0 := by
    funext id
    simp [vclockGet, vclockCreate]
  unfold mpDecodeVclockIgnore0
  split
  next h => simp [Other, h, Returns]
  next h => simp [Other, h, vclock_iff, hz]
  next t hn h => simp_all [Other]

lemma raft_iff {wantVclock : Bool} (size : Nat) (r : RaftMsg) (pos : Bytes) :
    (Returns (decodeRaftFields wantVclock size r pos) fun _ => True) ↔
      RaftPairs wantVclock size pos := by
  induction size generalizing r pos with
  | zero => simp [decodeRaftFields, RaftPairs]
  | succ size ih =>
    simp only [decodeRaftFields, RaftPairs, returns_bind, returns_decodeUint, ih]
    refine or_congr_right (exists_congr fun p => and_congr_right fun _ => ?_)
    unfold decodeRaftValue
    split_ifs <;> simp_all [vclock_map_iff]

/-- Rows of one body that the decoders of replication requests read to an error or to a request,
without a value taken for a number, a map or a step of a vclock that it is not, or a key cut to
eight bits. -/
theorem replication_requests_read_iff (row : Header) (body : Bytes) (groupId : Nat)
    (wantVclock : Bool) :
    ((xrowDecodeSynchro { row with body := [body] }).run ≠ none ∧ (¬SynchroRefused body →
        ∀ p, mpDecodeMap body = some p → KeysWhole p.1 ⟨0, 0, 0, 0, 0⟩ p.2) ↔
      SynchroRefused body ∨ ∃ p, mpDecodeMap body = some p ∧ SynchroPairs p.1 p.2) ∧
    ((xrowDecodeRaft wantVclock ⟨iprotoRaft, groupId, [body]⟩).run ≠ none ↔
      groupId ≠ TarantoolStorage.groupLocal ∨
        ∃ p, mpDecodeMap body = some p ∧ RaftPairs wantVclock p.1 p.2) := by
  simp only [← returns_iff]
  constructor
  · unfold xrowDecodeSynchro
    by_cases hr : SynchroRefused body
    · simp [hr]
    · cases hm : mpDecodeMap body with
      | none => simp [hr, hm]
      | some p => simpa [hr, hm] using synchro_iff p.1 _ p.2
  · by_cases hg : groupId = TarantoolStorage.groupLocal
    · simp [xrowDecodeRaft, assertThat, hg, raft_iff]
    · simp [xrowDecodeRaft, assertThat, hg]

def Header.ofBody (body : Bytes) : Header := { Header.zero with body := [body] }

/-- A text as the id of a replica, a key `0x103` as that of the LSN, an array as a raft request and
vclocks with the id 40 or with a smaller LSN after a greater one. -/
theorem replication_requests_misread : mpCheck [0x81, 0x02, 0xa1, 0x61] = some [] ∧
    (xrowDecodeSynchro (.ofBody [0x81, 0x02, 0xa1, 0x61])).run = none ∧
    xrowDecodeSynchro (.ofBody [0x81, 0xcd, 0x01, 0x03, 0x05]) = pure ⟨0, 0, 0, 5, 0⟩ ∧
    (xrowDecodeRaft true ⟨iprotoRaft, 1, [[0x90]]⟩).run = none ∧
    (xrowDecodeRaft true ⟨iprotoRaft, 1, [[0x81, 0x03, 0x81, 0x28, 0x01]]⟩).run = none ∧
    (xrowDecodeRaft true ⟨iprotoRaft, 1, [[0x81, 0x03, 0x82, 0x01, 0x02, 0x01, 0x01]]⟩).run =
      none := by
  refine ⟨by decide, by rfl, by rfl, by rfl, by rfl, by rfl⟩

end TarantoolStorage.Xrow
