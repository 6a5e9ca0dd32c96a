import TarantoolStorage.Lib.Digraph
import TarantoolStorage.Lib.Run
import TarantoolStorage.Vclock

/-!
Users, roles and their privileges (`user.cc`). Effective access is computed when a grant changes,
and cached.
-/
namespace TarantoolStorage.Access

open Checked Relation Transition

/-- An authentication token, the place of a user in the array of users. -/
abbrev Token := Fin 32

/-- `user_access_t`. -/
abbrev AccessBits := BitVec 16

def privX : AccessBits := 4
def userAccessFull : AccessBits := BitVec.allOnes 16
def admin : Token := 1

structure UserMap where
  m : BitVec 32

namespace UserMap

def nil : UserMap := ⟨0⟩
def set (map : UserMap) (token : Token) : UserMap := ⟨map.m ||| BitVec.twoPow 32 token⟩
def clear (map : UserMap) (token : Token) : UserMap := ⟨map.m &&& ~~~BitVec.twoPow 32 token⟩
def isSet (map : UserMap) (token : Token) : Bool := map.m.getLsbD token
def union (lhs rhs : UserMap) : UserMap := ⟨lhs.m ||| rhs.m⟩
def minus (lhs rhs : UserMap) : UserMap := ⟨lhs.m &&& ~~~rhs.m⟩
def isEmpty (map : UserMap) : Bool := map.m == 0

def toList (map : UserMap) : List Token := (List.finRange 32).filter map.isSet

instance : Membership Token UserMap := ⟨fun map token => map.isSet token = true⟩

instance (map : UserMap) (token : Token) : Decidable (token ∈ map) :=
  inferInstanceAs (Decidable (map.isSet token = true))

variable {map lhs rhs : UserMap} {token other : Token}

lemma mem_iff : token ∈ map ↔ map.m.getLsbD token = true := .rfl

@[simp] lemma notMem_nil : token ∉ nil := by simp [mem_iff, nil]

@[simp] lemma mem_set : other ∈ map.set token ↔ other = token ∨ other ∈ map := by
  have hl : (token : Nat) < 32 := token.isLt
  simp only [mem_iff, set, BitVec.getLsbD_or, BitVec.getLsbD_twoPow, Bool.or_eq_true,
    Bool.and_eq_true, decide_eq_true_eq, Fin.ext_iff]
  constructor
  · rintro (h | ⟨-, h⟩)
    · exact .inr h
    · exact .inl h.symm
  · rintro (h | h)
    · exact .inr ⟨hl, h.symm⟩
    · exact .inl h

@[simp] lemma mem_clear : other ∈ map.clear token ↔ other ≠ token ∧ other ∈ map := by
  have hl : (token : Nat) < 32 := token.isLt
  have ho : (other : Nat) < 32 := other.isLt
  simp only [mem_iff, clear, BitVec.getLsbD_and, BitVec.getLsbD_not, BitVec.getLsbD_twoPow,
    Bool.and_eq_true, Bool.not_eq_true', Bool.and_eq_false_iff, decide_eq_false_iff_not,
    decide_eq_true_eq, ne_eq, Fin.ext_iff]
  constructor
  · rintro ⟨h, -, hn | hn⟩
    · exact absurd hl hn
    · exact ⟨fun he => hn he.symm, h⟩
  · rintro ⟨hn, h⟩
    exact ⟨h, ho, .inr fun he => hn he.symm⟩

@[simp] lemma mem_union : token ∈ lhs.union rhs ↔ token ∈ lhs ∨ token ∈ rhs := by
  simp [mem_iff, union]

@[simp] lemma mem_minus : token ∈ lhs.minus rhs ↔ token ∈ lhs ∧ token ∉ rhs := by
  simp [mem_iff, minus]

@[simp] lemma mem_toList : token ∈ map.toList ↔ token ∈ map := by
  simp only [toList, List.mem_filter, List.mem_finRange, true_and]
  rfl

lemma isEmpty_iff : map.isEmpty = true ↔ ∀ token, token ∉ map := by
  simp only [isEmpty, beq_iff_eq, mem_iff]
  constructor
  · intro h token
    simp [h]
  · intro h
    refine BitVec.eq_of_getLsbD_eq fun k hk => ?_
    simpa using h ⟨k, hk⟩

lemma exists_mem (h : ¬ map.isEmpty = true) : ∃ token, token ∈ map := by
  simpa [isEmpty_iff] using h

end UserMap

/-- The types of objects that have privileges as a whole. -/
inductive EntityType where
  | space | function | user | role | sequence
  deriving DecidableEq

/-- What a privilege is about. Only single objects have ids; users and roles go by their tokens. -/
inductive Object where
  | universe
  | entity (type : EntityType)
  | space (id : Nat)
  | function (id : Nat)
  | user (id : Token)
  | role (id : Token)
  | sequence (id : Nat)
  deriving DecidableEq

/-- `privset_t`: a set of privileges with at most one for an object. -/
abbrev Privset := Object → Option AccessBits

structure User where
  /-- Users or roles this role has been granted to. -/
  users : UserMap
  /-- Roles granted to this role or user. -/
  roles : UserMap
  privs : Privset
  isDirty : Bool
  /-- The universal access cached in each of the user's credentials. -/
  credentials : List AccessBits

structure State where
  user : Token → User
  /-- `struct access` of an object for each user. -/
  granted : Object → Token → AccessBits
  effective : Object → Token → AccessBits
  /-- The privileges in `_priv` that are not the grant of a role. -/
  direct : Token → Object → AccessBits

/-- `access_find`: single objects can have been dropped. -/
def accessFind (alive : Object → Bool) : Object → Bool
  | .universe => true
  | .entity _ => true
  | object => alive object

/-- The access in the tuple of `_priv` with this key. The grant of a role has the key of other
privileges on the role. -/
def State.privTuple (s : State) (grantee : Token) : Object → AccessBits
  | .role role => s.direct grantee (.role role) |||
      if role ∈ (s.user grantee).roles then privX else 0
  | object => s.direct grantee object

/-- The tuple is taken for the grant of a role. -/
def isRoleGrant (access : AccessBits) : Object → Bool
  | .role _ => access &&& privX != 0
  | _ => false

def userGrantPriv (privs : Privset) (object : Object) (access : AccessBits) : Privset :=
  Function.update privs object (some (((privs object).map (· ||| access)).getD access))

/-- Every privilege of a role is granted to a privilege set. -/
def grantAll (privs role : Privset) : Privset := fun object =>
  ((role object).map (userGrantPriv privs object · object)).getD (privs object)

/-- The privileges of `_priv` other than granted roles. -/
def State.loadPrivs (s : State) (user : Token) : Privset := fun object =>
  let access := s.privTuple user object
  if access ≠ 0 ∧ isRoleGrant access object = false then some access else none

/-- The privileges from `_priv` and those granted through roles. -/
def State.collectPrivs (s : State) (user : Token) : Privset :=
  (s.user user).roles.toList.foldl (fun privs role => grantAll privs (s.user role).privs)
    (s.loadPrivs user)

variable (alive : Object → Bool)

/-- `user_set_effective_access`. -/
def State.setEffectiveAccess (s : State) (user : Token) (privs : Privset) : State :=
  { s with effective := fun object token =>
      if token = user ∧ accessFind alive object = true then
        ((privs object).map (s.granted object user ||| ·)).getD (s.effective object token)
      else s.effective object token }

/-- `user_reload_privs` of a dirty user. -/
def State.reload (s : State) (user : Token) : State :=
  let zeroed : Privset := fun object => ((s.user user).privs object).map fun _ => 0
  let s := s.setEffectiveAccess alive user zeroed
  let privs := s.collectPrivs user
  let s := s.setEffectiveAccess alive user privs
  { s with user := Function.update s.user user { s.user user with
      privs := privs
      isDirty := false
      credentials := (s.user user).credentials.map fun _ => s.effective .universe user } }

def State.userReloadPrivs (s : State) (user : Token) : State :=
  if (s.user user).isDirty then s.reload alive user else s

/-- No chain of roles is longer than the array of users. -/
def layerRounds : Nat := 33

def nextLayer (users : Token → UserMap) (layer : UserMap) : UserMap :=
  layer.toList.foldl (fun next user => next.union (users user)) .nil

/-- The loop over layers of users: all immediate and indirect users of the first layer. -/
def closeUsers (users : Token → UserMap) : Nat → UserMap → UserMap → Option UserMap
  | 0, _, _ => none
  | rounds + 1, layer, closure =>
    if layer.isEmpty then some closure
    else closeUsers users rounds (nextLayer users layer) (closure.union (nextLayer users layer))

def State.usersOf (s : State) (grantee : Token) : Option UserMap :=
  closeUsers (fun token => (s.user token).users) layerRounds (UserMap.nil.set grantee)
    (UserMap.nil.set grantee)

def State.roleCheck (s : State) (grantee role : Token) : Option Bool :=
  (s.usersOf grantee).map fun closure => !closure.isSet role

/-- The users of a layer: one whose roles are all evaluated is reloaded, another waits. Returns the
next layer and those that wait. -/
def evaluateLayer (closure : UserMap) :
    List Token → State → UserMap → UserMap → State × UserMap × UserMap
  | [], s, next, postponed => (s, next, postponed)
  | user :: rest, s, next, postponed =>
    let indirectEdges := (s.user user).roles.minus closure
    if indirectEdges.isEmpty then
      evaluateLayer closure rest (s.userReloadPrivs alive user) (next.union (s.user user).users)
        postponed
    else
      evaluateLayer closure rest s ((next.union indirectEdges).set user) (postponed.set user)

/-- The second loop of `rebuild_effective_grants`. -/
def propagate : Nat → UserMap → UserMap → State → Option State
  | 0, _, _, _ => none
  | rounds + 1, layer, closure, s =>
    if layer.isEmpty then some s
    else
      let (s, next, postponed) := evaluateLayer alive closure layer.toList s .nil .nil
      propagate rounds next (closure.union (layer.minus postponed)) s

/-- While nothing new is evaluated at most 64 layers pass. -/
def propagateRounds : Nat := 65 * 33

def State.markDirty (s : State) (users : UserMap) : State :=
  { s with user := fun token =>
      { s.user token with isDirty := (s.user token).isDirty || users.isSet token } }

def State.rebuildEffectiveGrants (s : State) (grantee : Token) : Option State := do
  let users ← s.usersOf grantee
  propagate alive propagateRounds (UserMap.nil.set grantee) .nil (s.markDirty users)

def State.setUsers (s : State) (role : Token) (users : UserMap) : State :=
  { s with user := Function.update s.user role { s.user role with users := users } }

def State.setRoles (s : State) (grantee : Token) (roles : UserMap) : State :=
  { s with user := Function.update s.user grantee { s.user grantee with roles := roles } }

def State.roleGrant (s : State) (grantee role : Token) : Option State :=
  let s := s.setUsers role ((s.user role).users.set grantee)
  let s := s.setRoles grantee ((s.user grantee).roles.set role)
  s.rebuildEffectiveGrants alive grantee

def State.roleRevoke (s : State) (grantee role : Token) : Option State :=
  let s := s.setUsers role ((s.user role).users.clear grantee)
  let s := s.setRoles grantee ((s.user grantee).roles.clear role)
  s.rebuildEffectiveGrants alive grantee

inductive AccessError where
  | cantRevokeUniverse
  | roleLoop
  deriving DecidableEq

/-- The tuple of `_priv` with this key is replaced, or deleted for no access. -/
def State.setDirect (s : State) (grantee : Token) (object : Object) (access : AccessBits) : State :=
  { s with direct := fun token o =>
      if token = grantee ∧ o = object then access else s.direct token o }

def State.setGranted (s : State) (grantee : Token) (object : Object) (access : AccessBits) :
    State :=
  { s with granted := fun o token =>
      if token = grantee ∧ o = object then access else s.granted o token }

def State.privGrant (s : State) (grantee : Token) (object : Object) (access : AccessBits) :
    Option (Except AccessError State) :=
  if accessFind alive object = false then some (.ok s)
  else if grantee = admin ∧ object = .universe ∧ access ≠ userAccessFull then
    some (.error .cantRevokeUniverse)
  else ((s.setGranted grantee object access).rebuildEffectiveGrants alive grantee).map .ok

inductive Op where
  | privGrant (grantee : Token) (object : Object) (access : AccessBits)
  | roleGrant (grantee role : Token)
  | roleRevoke (grantee role : Token)

/-- The tuple of `_priv` is set. A statement that fails changes nothing. -/
def State.setPriv (s : State) (grantee : Token) (object : Object) (access : AccessBits) :
    Option State :=
  ((s.setDirect grantee object access).privGrant alive grantee object access).map fun result =>
    result.toOption.getD s

/-- The tuple on the role is set to `PRIV_X` alone. -/
def State.setRole (s : State) (grantee role : Token) : Option State := do
  let allowed ← s.roleCheck grantee role
  if allowed then (s.setDirect grantee (.role role) 0).roleGrant alive grantee role else return s

/-- The tuple on the role is deleted, whatever its access was. -/
def State.deleteRole (s : State) (grantee role : Token) : Option State :=
  (s.setDirect grantee (.role role) 0).roleRevoke alive grantee role

/-- A change of `_priv`, passed on as by `grant_or_revoke`. No access stands for a deleted tuple. -/
def step (s : State) : Op → Option State
  | .privGrant grantee (.role role) access =>
    if access = 0 then s.deleteRole alive grantee role
    else if access = privX then s.setRole alive grantee role
    else s.setPriv alive grantee (.role role) access
  | .privGrant grantee object access => s.setPriv alive grantee object access
  | .roleGrant grantee role => s.setRole alive grantee role
  | .roleRevoke grantee role => s.deleteRole alive grantee role

/-- Before the first grant: `_priv` holds the record of full access for the administrator. -/
def State.initial (sessions : Token → Nat) : State where
  user token :=
    { users := .nil, roles := .nil, isDirty := false
      privs := fun object =>
        if token = admin ∧ object = .universe then some userAccessFull else none
      credentials := List.replicate (sessions token) (if token = admin then userAccessFull else 0) }
  granted object token := if token = admin ∧ object = .universe then userAccessFull else 0
  effective object token := if token = admin ∧ object = .universe then userAccessFull else 0
  direct token object := if token = admin ∧ object = .universe then userAccessFull else 0

end TarantoolStorage.Access
