import TarantoolStorage.Access.Rebuild

/-!
Sequences of grants. Effective access is the union of all grants above a user, unless `_priv` mixes
a privilege on a role with its grant.
-/
namespace TarantoolStorage.Access

open Checked Edges Relation Transition State

variable {alive : Object → Bool} {s s' changed : State} {u g r : Token} {op : Op}

/-- The roles and the grants of one user are changed, and no cache. -/
structure State.ChangedAt (s changed : State) (g : Token) : Prop where
  roles_eq : ∀ u, u ≠ g → (changed.user u).roles = (s.user u).roles
  direct_eq : ∀ u, u ≠ g → changed.direct u = s.direct u
  privs_eq : ∀ u, (changed.user u).privs = (s.user u).privs
  credentials_eq : ∀ u, (changed.user u).credentials = (s.user u).credentials
  dirty_eq : ∀ u, (changed.user u).isDirty = (s.user u).isDirty
  effective_eq : changed.effective = s.effective

lemma State.ChangedAt.union_iff (h : s.ChangedAt changed g)
    (ho : ¬ ReflTransGen changed.HasRole u g) {o : Object} {bit : Nat} :
    changed.Union u o bit ↔ s.Union u o bit := by
  have ht : ∀ a, a ≠ g → ∀ b, s.HasRole a b → changed.HasRole a b := by
    intro a ha b hab
    rw [HasRole, h.roles_eq a ha]
    exact hab
  have hf : ∀ a, a ≠ g → ∀ b, changed.HasRole a b → s.HasRole a b := by
    intro a ha b hab
    rw [HasRole, ← h.roles_eq a ha]
    exact hab
  have hol : ¬ ReflTransGen s.HasRole u g := fun hug =>
    ho ((reflTransGen_of_agree ht hug).elim id id)
  constructor
  · rintro ⟨v, hu, hb⟩
    have hv : v ≠ g := fun he => ho (he ▸ hu)
    exact ⟨v, (reflTransGen_of_agree hf hu).resolve_right hol, h.direct_eq v hv ▸ hb⟩
  · rintro ⟨v, hu, hb⟩
    have hv : v ≠ g := fun he => hol (he ▸ hu)
    exact ⟨v, (reflTransGen_of_agree ht hu).resolve_right ho, (h.direct_eq v hv).symm ▸ hb⟩

lemma State.ChangedAt.rebuild (h : s.ChangedAt changed g) (hi : s.Inv alive)
    (hw : changed.Wired alive) : ∃ s', changed.rebuildEffectiveGrants alive g = some s' ∧
      changed.SameGrants s' ∧ s'.Inv alive := by
  refine rebuild_spec hw (fun u => (h.dirty_eq u).trans (hi.clean u)) fun u hou => ?_
  have hu := hi.sound u
  refine ⟨fun o ho bit => ?_, fun o ho bit => ?_, ?_⟩
  · rw [h.privs_eq, h.union_iff hou, hu.privs o ho]
  · rw [h.effective_eq, h.union_iff hou, hu.effective o ho]
  · rw [h.credentials_eq, h.effective_eq]
    exact hu.credentials

/-- In `_priv` the grant of a role and other privileges on it are one tuple. The operation does
not mix them, and does not take the other privileges away. -/
def State.Unmixed (s : State) : Op → Prop
  | .privGrant grantee (.role role) access =>
    if access = 0 ∨ access = privX then s.direct grantee (.role role) = 0
    else access &&& privX = 0 ∧ role ∉ (s.user grantee).roles
  | .roleGrant grantee role | .roleRevoke grantee role => s.direct grantee (.role role) = 0
  | _ => True

lemma setPriv_spec {o : Object} {access : AccessBits} (h : s.Inv alive)
    (hum : ∀ role, o = .role role → access &&& privX = 0 ∧ role ∉ (s.user g).roles) :
    ∃ s', s.setPriv alive g o access = some s' ∧ s'.Inv alive := by
  -- the tuple of `_priv` is replaced before the caches are changed
  have hp : ∀ u r, (s.setDirect g o access).direct u (.role r) ≠ 0 →
      (s.setDirect g o access).direct u (.role r) &&& privX = 0 ∧ r ∉ (s.user u).roles := by
    intro u r
    simp only [setDirect]
    split
    · rename_i he
      obtain ⟨rfl, rfl⟩ := he
      exact fun _ => hum r rfl
    · exact h.plain u r
  rw [setPriv, privGrant]
  split
  · rename_i hm
    have hot : ∀ o', accessFind alive o' = true → o' ≠ o := by
      rintro o' ho' rfl
      simp [hm] at ho'
    have hun : ∀ u o' bit, accessFind alive o' = true →
        ((s.setDirect g o access).Union u o' bit ↔ s.Union u o' bit) := by
      intro u o' bit ho'
      refine exists_congr fun v => and_congr_right fun _ => ?_
      simp [setDirect, hot o' ho']
    refine ⟨s.setDirect g o access, rfl,
      ⟨h.maps, h.acyclic, hp, fun o' ho' u => ?_, h.absent⟩, h.clean, fun u =>
      ⟨fun o' ho' bit => ?_, fun o' ho' bit => ?_, (h.sound u).credentials⟩⟩
    · simpa [setDirect, hot o' ho'] using h.granted o' ho' u
    · rw [hun u o' bit ho', ← (h.sound u).privs o' ho']
      rfl
    · rw [hun u o' bit ho', ← (h.sound u).effective o' ho']
      rfl
  split
  · exact ⟨s, rfl, h⟩
  · have hc : s.ChangedAt ((s.setDirect g o access).setGranted g o access) g :=
      ⟨fun _ _ => rfl, fun u hu => by simp [setDirect, setGranted, hu], fun _ => rfl,
        fun _ => rfl, fun _ => rfl, rfl⟩
    obtain ⟨s', hs', -, hi⟩ := hc.rebuild h
      ⟨h.maps, h.acyclic, hp, fun o' ho' u => by
        simp [setDirect, setGranted, h.granted o' ho'], h.absent⟩
    exact ⟨s', by simp [hs', Except.toOption], hi⟩

/-- The user with other maps, if it is an end of the edge. -/
lemma user_withEdge (g r : Token) (users roles : UserMap) (u : Token) :
    ((s.setUsers r users).setRoles g roles).user u = { s.user u with
        users := if u = r then users else (s.user u).users
        roles := if u = g then roles else (s.user u).roles } := by
  by_cases hu : u = g <;> by_cases hv : u = r <;>
    simp_all [setRoles, setUsers, Function.update_apply]

lemma State.Inv.withEdge (h : s.Inv alive) (g r : Token) (users roles : UserMap)
    (hr : ∀ v, v ≠ r → (v ∈ roles ↔ v ∈ (s.user g).roles))
    (hus : ∀ u, u ≠ g → (u ∈ users ↔ u ∈ (s.user r).users)) (hed : r ∈ roles ↔ g ∈ users)
    (ha : Acyclic fun u v => v ∈ (if u = g then roles else (s.user u).roles))
    (hp : ∀ v ∈ roles, s.direct g (.role v) = 0) :
    ∃ s', ((s.setUsers r users).setRoles g roles).rebuildEffectiveGrants alive g = some s' ∧
      s'.Inv alive := by
  have hc : s.ChangedAt ((s.setUsers r users).setRoles g roles) g := by
    refine ⟨fun u hu => ?_, fun _ _ => rfl, fun u => ?_, fun u => ?_, fun u => ?_, rfl⟩
    · rw [user_withEdge, if_neg hu]
    all_goals rw [user_withEdge]
  have he : ((s.setUsers r users).setRoles g roles).HasRole = fun u v =>
      v ∈ (if u = g then roles else (s.user u).roles) := by
    funext u v
    rw [HasRole, user_withEdge]
  have hw : ((s.setUsers r users).setRoles g roles).Wired alive := by
    refine ⟨fun u v => ?_, he ▸ ha, fun u v hne => ?_, h.granted, fun o ho u hn => ?_⟩
    · have huv := h.maps u v
      rw [user_withEdge, user_withEdge]
      by_cases hu : u = g <;> by_cases hv : v = r
      · simpa [hu, hv] using hed
      · simpa [hu, hv] using (hr v hv).trans (hu ▸ huv)
      · simpa [hu, hv] using (hv ▸ huv).trans (hus u hu).symm
      · simpa [hu, hv] using huv
    · obtain ⟨hx, hno⟩ := h.plain u v hne
      refine ⟨hx, ?_⟩
      rw [user_withEdge]
      by_cases hu : u = g
      · subst hu
        simpa using fun hv => hne (hp v hv)
      · simpa [hu] using hno
    · rw [user_withEdge] at hn
      exact h.absent o ho u hn
  obtain ⟨s', hs', -, hi⟩ := hc.rebuild h hw
  exact ⟨s', hs', hi⟩

lemma setUsers_roles (users : UserMap) :
    ((s.setUsers r users).user g).roles = (s.user g).roles := by
  by_cases hg : g = r
  · subst hg
    simp [setUsers]
  · simp [setUsers, hg]

lemma State.Inv.direct_eq_zero (h : s.Inv alive) (hr : r ∈ (s.user g).roles) :
    s.direct g (.role r) = 0 :=
  by_contra fun hn => (h.plain g r hn).2 hr

lemma setDirect_eq_self (h : s.direct g (.role r) = 0) : s.setDirect g (.role r) 0 = s := by
  have hd : (fun u o => if u = g ∧ o = .role r then 0 else s.direct u o) = s.direct := by
    funext u o
    split
    · rename_i he
      rw [he.1, he.2, h]
    · rfl
  rw [setDirect, hd]

lemma setRole_spec (h : s.Inv alive) (hun : s.direct g (.role r) = 0) :
    ∃ s', s.setRole alive g r = some s' ∧ s'.Inv alive := by
  obtain ⟨allowed, hc, hi⟩ := roleCheck_spec h.toWired g r
  rw [setRole, setDirect_eq_self hun]
  cases allowed with
  | false => exact ⟨s, by simp [hc], h⟩
  | true =>
    have he : (fun u v => v ∈ (if u = g then (s.user g).roles.set r else (s.user u).roles)) =
        addEdge s.HasRole g r := by
      funext u v
      by_cases hu : u = g
      · subst hu
        simp [addEdge, HasRole, or_comm]
      · simp [addEdge, HasRole, hu]
    have hp : ∀ v ∈ (s.user g).roles.set r, s.direct g (.role v) = 0 := by
      intro v hv
      rcases UserMap.mem_set.mp hv with rfl | hv
      · exact hun
      · exact h.direct_eq_zero hv
    obtain ⟨s', hs', hin⟩ := h.withEdge g r ((s.user r).users.set g)
      ((s.user g).roles.set r) (by simp +contextual) (by simp +contextual) (by simp)
      (he ▸ hi.mp rfl) hp
    refine ⟨s', ?_, hin⟩
    simpa [hc, roleGrant, setUsers_roles] using hs'

lemma deleteRole_spec (h : s.Inv alive) (hun : s.direct g (.role r) = 0) :
    ∃ s', s.deleteRole alive g r = some s' ∧ s'.Inv alive := by
  rw [deleteRole, setDirect_eq_self hun]
  have he : ∀ u v, v ∈ (if u = g then (s.user g).roles.clear r else (s.user u).roles) →
      s.HasRole u v := by
    intro u v
    split
    · rename_i hu
      subst hu
      exact fun hv => (UserMap.mem_clear.mp hv).2
    · exact id
  obtain ⟨s', hs', hi⟩ := h.withEdge g r ((s.user r).users.clear g)
    ((s.user g).roles.clear r) (by simp +contextual) (by simp +contextual) (by simp)
    (fun u hu => h.acyclic u (TransGen.mono he _ _ hu))
    fun v hv => h.direct_eq_zero (UserMap.mem_clear.mp hv).2
  refine ⟨s', ?_, hi⟩
  simpa [roleRevoke, setUsers_roles] using hs'

lemma initial_inv (sessions : Token → Nat) : (initial sessions).Inv alive := by
  have hn : ∀ u v, ¬ (initial sessions).HasRole u v := fun u v => UserMap.notMem_nil
  have hun : ∀ u o bit, (initial sessions).Union u o bit ↔
      ((initial sessions).direct u o).getLsbD bit = true := by
    intro u o bit
    rw [union_iff]
    exact or_iff_left fun ⟨r, hr, _⟩ => hn u r hr
  refine ⟨⟨fun u r => by simp [initial], fun u hu => ?_, fun u r hne => ?_, fun _ _ _ => rfl,
    fun o _ u hp => ?_⟩, fun _ => rfl, fun u => ⟨fun o _ bit => ?_, fun o _ bit => ?_, ?_⟩⟩
  · obtain ⟨v, huv, -⟩ := TransGen.head'_iff.mp hu
    exact hn u v huv
  · simp [initial] at hne
  · simp_all [initial]
  · rw [hun]
    simp only [initial]
    split <;> simp
  · rw [hun]
    rfl
  · intro access ha
    simp only [initial, List.mem_replicate] at ha ⊢
    simp [ha.2]

/-- A call that does not mix privileges ends, and keeps the caches right. -/
lemma step_spec (h : s.Inv alive) (hu : s.Unmixed op) :
    ∃ s', step alive s op = some s' ∧ s'.Inv alive := by
  cases op with
  | privGrant grantee object access =>
    cases object with
    | role role =>
      rw [step]
      rw [Unmixed] at hu
      split_ifs with h₀ hx
      · exact deleteRole_spec h (by simpa [h₀] using hu)
      · exact setRole_spec h (by simpa [hx] using hu)
      · rw [if_neg (not_or.mpr ⟨h₀, hx⟩)] at hu
        exact setPriv_spec h fun r hr => Object.role.inj hr ▸ hu
    | _ => exact setPriv_spec h nofun
  | roleGrant grantee role => exact setRole_spec h hu
  | roleRevoke grantee role => exact deleteRole_spec h hu

local instance neZeroTokens : NeZero 32 := ⟨by decide⟩

/-- User 4 has role 3, and the role may read space 512. -/
def roleOps : List Op := [.roleGrant 4 3, .privGrant 3 (.space 512) 1]

/-- `PRIV_D`, the privilege to drop. -/
def privD : AccessBits := 64

end TarantoolStorage.Access
