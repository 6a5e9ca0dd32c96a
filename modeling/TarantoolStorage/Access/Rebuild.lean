import TarantoolStorage.Access.Users

/-! What `rebuild_effective_grants` computes: users are reloaded only after the roles they have. -/
namespace TarantoolStorage.Access

open Checked Edges Relation Transition List State

variable {alive : Object → Bool} {s s' : State} {u v r : Token} {o : Object} {bit : Nat}
  {closure layer : UserMap} {rank : Token → Nat}

def State.HasRole (s : State) (u r : Token) : Prop := r ∈ (s.user u).roles

/-- The user, or a role it has, immediately or not, was granted this privilege directly. -/
def State.Union (s : State) (u : Token) (o : Object) (bit : Nat) : Prop :=
  ∃ v, ReflTransGen s.HasRole u v ∧ (s.direct v o).getLsbD bit = true

/-- The caches of a user hold the union of the grants. -/
structure State.Sound (alive : Object → Bool) (s : State) (u : Token) : Prop where
  privs : ∀ o, accessFind alive o = true → ∀ bit,
    (((s.user u).privs o).getD 0).getLsbD bit = true ↔ s.Union u o bit
  effective : ∀ o, accessFind alive o = true → ∀ bit,
    (s.effective o u).getLsbD bit = true ↔ s.Union u o bit
  credentials : ∀ access ∈ (s.user u).credentials, access = s.effective .universe u

/-- What holds of the graph and the grants before and after every operation. -/
structure State.Wired (alive : Object → Bool) (s : State) : Prop where
  maps : ∀ u r, r ∈ (s.user u).roles ↔ u ∈ (s.user r).users
  acyclic : Acyclic s.HasRole
  /-- On a role, a direct privilege is not mixed with the grant of the role. -/
  plain : ∀ u r, s.direct u (.role r) ≠ 0 →
    s.direct u (.role r) &&& privX = 0 ∧ r ∉ (s.user u).roles
  granted : ∀ o, accessFind alive o = true → ∀ u, s.granted o u = s.direct u o
  /-- Nothing is left behind where the user has no privilege. -/
  absent : ∀ o, accessFind alive o = true → ∀ u, (s.user u).privs o = none → s.effective o u = 0

structure State.SameGrants (s s' : State) : Prop where
  users_eq : ∀ u, (s'.user u).users = (s.user u).users
  roles_eq : ∀ u, (s'.user u).roles = (s.user u).roles
  granted_eq : s'.granted = s.granted
  direct_eq : s'.direct = s.direct

lemma State.SameGrants.refl (s : State) : s.SameGrants s := ⟨fun _ => rfl, fun _ => rfl, rfl, rfl⟩

lemma State.SameGrants.trans {s'' : State} (h : s.SameGrants s') (h' : s'.SameGrants s'') :
    s.SameGrants s'' :=
  ⟨fun u => (h'.users_eq u).trans (h.users_eq u), fun u => (h'.roles_eq u).trans (h.roles_eq u),
    h'.granted_eq.trans h.granted_eq, h'.direct_eq.trans h.direct_eq⟩

lemma State.SameGrants.hasRole_eq (h : s.SameGrants s') : s'.HasRole = s.HasRole := by
  funext u r
  rw [HasRole, HasRole, h.roles_eq]

lemma State.SameGrants.union_eq (h : s.SameGrants s') : s'.Union = s.Union := by
  funext u o bit
  rw [Union, Union, h.hasRole_eq, h.direct_eq]

lemma union_iff : s.Union u o bit ↔
    (s.direct u o).getLsbD bit = true ∨ ∃ r ∈ (s.user u).roles, s.Union r o bit := by
  constructor
  · rintro ⟨v, huv, hb⟩
    rcases huv.cases_head with rfl | ⟨r, hu, hr⟩
    · exact .inl hb
    · exact .inr ⟨r, hu, v, hr, hb⟩
  · rintro (hb | ⟨r, hu, v, hr, hb⟩)
    · exact ⟨u, .refl, hb⟩
    · exact ⟨v, .head hu hr, hb⟩

lemma State.Wired.load (h : s.Wired alive) (u : Token) (o : Object) :
    (s.loadPrivs u o).getD 0 = s.direct u o := by
  by_cases hz : s.direct u o = 0
  · -- only the grant of a role is left in the tuple
    cases o with
    | role r =>
      by_cases hr : r ∈ (s.user u).roles
      · simp [loadPrivs, privTuple, isRoleGrant, hz, hr, privX]
      · simp [loadPrivs, privTuple, hz, hr]
    | _ => simp [loadPrivs, privTuple, hz]
  · have ht : s.privTuple u o = s.direct u o ∧ isRoleGrant (s.direct u o) o = false := by
      cases o with
      | role r =>
        obtain ⟨hx, hr⟩ := h.plain u r hz
        simp [privTuple, isRoleGrant, hr, hx]
      | _ => exact ⟨rfl, rfl⟩
    simp only [loadPrivs, ht.1, ht.2, ne_eq, hz, not_false_eq_true, and_self,
      if_true, Option.getD_some]

lemma grantAll_bit (privs role : Privset) : ((grantAll privs role o).getD 0).getLsbD bit = true ↔
      ((privs o).getD 0).getLsbD bit = true ∨ ((role o).getD 0).getLsbD bit = true := by
  cases hr : role o with
  | none => simp [grantAll, hr]
  | some access => cases ho : privs o <;> simp [grantAll, userGrantPriv, hr, ho]

lemma foldl_grantAll_bit (privsOf : Token → Privset) (roles : List Token) (privs : Privset) :
    ((roles.foldl (fun privs role => grantAll privs (privsOf role)) privs o).getD 0).getLsbD bit =
        true ↔
      ((privs o).getD 0).getLsbD bit = true ∨
        ∃ r ∈ roles, ((privsOf r o).getD 0).getLsbD bit = true := by
  induction roles generalizing privs with
  | nil => simp
  | cons r roles ih =>
    rw [foldl_cons, ih, grantAll_bit]
    simp [or_assoc]

lemma State.SameGrants.reload (s : State) (u : Token) : s.SameGrants (s.reload alive u) := by
  refine ⟨fun v => ?_, fun v => ?_, rfl, rfl⟩ <;>
    by_cases hv : v = u <;> simp [State.reload, State.setEffectiveAccess, hv]

lemma reload_other (h : v ≠ u) : (s.reload alive u).user v = s.user v ∧
    ∀ o, (s.reload alive u).effective o v = s.effective o v := by
  simp [State.reload, State.setEffectiveAccess, h]

/-- The privileges of a reloaded user come from its own grants and from its roles. -/
lemma reload_privs_bit (h : s.Wired alive) :
    ((((s.reload alive u).user u).privs o).getD 0).getLsbD bit = true ↔
      (s.direct u o).getLsbD bit = true ∨
        ∃ r ∈ (s.user u).roles, (((s.user r).privs o).getD 0).getLsbD bit = true := by
  have hp : ((s.reload alive u).user u).privs = s.collectPrivs u := by
    simp only [State.reload, Function.update_self]
    rfl
  rw [hp, collectPrivs, foldl_grantAll_bit, h.load]
  simp [UserMap.mem_toList]

lemma reload_effective (ho : accessFind alive o = true) : (s.reload alive u).effective o u =
      ((((s.reload alive u).user u).privs o).map (s.granted o u ||| ·)).getD
        ((((s.user u).privs o).map fun _ => s.granted o u).getD (s.effective o u)) := by
  simp [State.reload, State.setEffectiveAccess, ho, Function.comp_def]

lemma reload_sound (h : s.Wired alive) (hro : ∀ r ∈ (s.user u).roles, s.Sound alive r) :
    (s.reload alive u).Sound alive u ∧ ∀ o, accessFind alive o = true →
      ((s.reload alive u).user u).privs o = none → (s.reload alive u).effective o u = 0 := by
  have hp : ∀ o, accessFind alive o = true → ∀ bit,
      ((((s.reload alive u).user u).privs o).getD 0).getLsbD bit = true ↔ s.Union u o bit := by
    intro o ho bit
    rw [reload_privs_bit h, union_iff]
    refine or_congr_right (exists_congr fun r => and_congr_right fun hr => ?_)
    exact (hro r hr).privs o ho bit
  have how : ∀ o, ((s.reload alive u).user u).privs o = none → s.direct u o = 0 := by
    intro o hn
    refine BitVec.eq_of_getLsbD_eq fun bit _ => ?_
    refine Eq.trans (Bool.eq_false_iff.mpr fun hb => ?_) BitVec.getLsbD_zero.symm
    have hs := (reload_privs_bit (o := o) h).mpr (.inl hb)
    simp [hn] at hs
  have ha : ∀ o, accessFind alive o = true →
      ((s.reload alive u).user u).privs o = none → (s.reload alive u).effective o u = 0 := by
    intro o ho hn
    rw [reload_effective ho, hn, h.granted o ho, how o hn]
    cases hol : (s.user u).privs o with
    | none => exact h.absent o ho u hol
    | some access => rfl
  refine ⟨⟨?_, ?_, ?_⟩, ha⟩
  · intro o ho bit
    rw [hp o ho, (SameGrants.reload s u).union_eq]
  · intro o ho bit
    rw [(SameGrants.reload s u).union_eq, ← hp o ho]
    cases hpr : ((s.reload alive u).user u).privs o with
    | none => simp [ha o ho hpr]
    | some access =>
      have hb := hp o ho bit
      rw [hpr] at hb
      simp only [reload_effective ho, hpr, h.granted o ho, Option.map_some, Option.getD_some,
        BitVec.getLsbD_or, Bool.or_eq_true] at hb ⊢
      rw [or_iff_right_iff_imp, hb, union_iff]
      exact .inl
  · intro access hac
    simp only [State.reload, Function.update_self, mem_map] at hac ⊢
    obtain ⟨-, -, rfl⟩ := hac
    rfl

/-- What the second loop keeps: users that are not dirty are evaluated, those of the closure
among them. -/
structure State.Partial (alive : Object → Bool) (s : State) (closure : UserMap) : Prop
    extends s.Wired alive where
  clean : ∀ u, (s.user u).isDirty = false → s.Sound alive u
  evaluated : ∀ u ∈ closure, (s.user u).isDirty = false
  closed : ∀ u ∈ closure, ∀ r ∈ (s.user u).roles, r ∈ closure

def State.Ready (s : State) (closure : UserMap) (u : Token) : Prop :=
  ∀ r ∈ (s.user u).roles, r ∈ closure

lemma ready_iff : ((s.user u).roles.minus closure).isEmpty = true ↔ s.Ready closure u := by
  simp [UserMap.isEmpty_iff, Ready]

lemma State.SameGrants.sound (hs : s.SameGrants s') (h : s.Sound alive u)
    (hu : s'.user u = s.user u) (he : ∀ o, s'.effective o u = s.effective o u) :
    s'.Sound alive u where
  privs o ho bit := by rw [hu, hs.union_eq, h.privs o ho]
  effective o ho bit := by rw [he, hs.union_eq, h.effective o ho]
  credentials := by
    rw [hu, he]
    exact h.credentials

lemma State.SameGrants.wired (hs : s.SameGrants s') (h : s.Wired alive)
    (ha : ∀ o, accessFind alive o = true → ∀ u, (s'.user u).privs o = none →
      s'.effective o u = 0) : s'.Wired alive where
  maps u r := by rw [hs.roles_eq, hs.users_eq, h.maps]
  acyclic := by
    rw [hs.hasRole_eq]
    exact h.acyclic
  plain u r := by
    rw [hs.direct_eq, hs.roles_eq]
    exact h.plain u r
  granted o ho u := by rw [hs.granted_eq, hs.direct_eq, h.granted o ho]
  absent := ha

lemma State.Partial.reload (h : s.Partial alive closure) (hre : s.Ready closure u) :
    (s.userReloadPrivs alive u).Partial alive closure ∧ s.SameGrants (s.userReloadPrivs alive u) ∧
      ((s.userReloadPrivs alive u).user u).isDirty = false ∧
      ∀ v, ((s.userReloadPrivs alive u).user v).isDirty = true → (s.user v).isDirty = true := by
  rw [userReloadPrivs]
  split
  · have hs : s.SameGrants (s.reload alive u) := .reload s u
    obtain ⟨hso, ha⟩ := reload_sound h.toWired fun r hr => h.clean r (h.evaluated r (hre r hr))
    have hc : ((s.reload alive u).user u).isDirty = false := by simp [State.reload]
    have hot : ∀ v, ((s.reload alive u).user v).isDirty = true → (s.user v).isDirty = true := by
      intro v hv
      by_cases hvu : v = u
      · subst hvu
        exact absurd hv (by simp [hc])
      · rwa [(reload_other hvu).1] at hv
    refine ⟨⟨hs.wired h.toWired ?_, ?_, ?_, ?_⟩, hs, hc, hot⟩
    · intro o ho v
      by_cases hvu : v = u
      · subst hvu
        exact ha o ho
      · rw [(reload_other hvu).1, (reload_other hvu).2]
        exact h.absent o ho v
    · intro v hv
      by_cases hvu : v = u
      · subst hvu
        exact hso
      · rw [(reload_other hvu).1] at hv
        exact hs.sound (h.clean v hv) (reload_other hvu).1 (reload_other hvu).2
    · intro v hv
      rw [Bool.eq_false_iff]
      exact fun hag => absurd (hot v hag) (by simp [h.evaluated v hv])
    · intro v hv r hr
      rw [hs.roles_eq] at hr
      exact h.closed v hv r hr
  · rename_i hc
    exact ⟨h, .refl s, by simpa using hc, fun v => id⟩

/-- Who is in the next layer because of this user: its users when it is evaluated, or else the roles
it waits for and itself. -/
def State.Follows (s : State) (closure : UserMap) (u x : Token) : Prop :=
  s.Ready closure u ∧ x ∈ (s.user u).users ∨
    ¬ s.Ready closure u ∧ (x = u ∨ x ∈ (s.user u).roles ∧ x ∉ closure)

lemma State.SameGrants.ready_iff (h : s.SameGrants s') :
    s'.Ready closure u ↔ s.Ready closure u := by
  rw [Ready, Ready, h.roles_eq]

lemma State.SameGrants.follows_iff (h : s.SameGrants s') {x : Token} :
    s'.Follows closure u x ↔ s.Follows closure u x := by
  rw [Follows, Follows, h.ready_iff, h.users_eq, h.roles_eq]

structure Round (alive : Object → Bool) (closure : UserMap) (tokens : List Token) (s : State)
    (next postponed : UserMap) (result : State × UserMap × UserMap) : Prop where
  state : result.1.Partial alive closure
  same : s.SameGrants result.1
  dirty : ∀ v, (result.1.user v).isDirty = true →
    (s.user v).isDirty = true ∧ ¬ (v ∈ tokens ∧ s.Ready closure v)
  next : ∀ x, x ∈ result.2.1 ↔ x ∈ next ∨ ∃ u ∈ tokens, s.Follows closure u x
  postponed : ∀ x, x ∈ result.2.2 ↔ x ∈ postponed ∨ x ∈ tokens ∧ ¬ s.Ready closure x

lemma evaluateLayer_spec (tokens : List Token) (h : s.Partial alive closure)
    (next postponed : UserMap) : Round alive closure tokens s next postponed
      (evaluateLayer alive closure tokens s next postponed) := by
  induction tokens generalizing s next postponed with
  | nil => exact ⟨h, .refl s, fun v hv => ⟨hv, by simp⟩, by simp [evaluateLayer],
      by simp [evaluateLayer]⟩
  | cons u tokens ih =>
    rw [evaluateLayer]
    split
    · rename_i he
      have hr := ready_iff.mp he
      obtain ⟨hpa, hs, hc, hd⟩ := h.reload hr
      obtain ⟨hst, hre, hsl, hn, hp⟩ := ih hpa (next.union (s.user u).users) postponed
      refine ⟨hst, hs.trans hre, fun v hv => ?_, fun x => ?_, fun x => ?_⟩
      · obtain ⟨hb, hno⟩ := hsl v hv
        refine ⟨hd v hb, ?_⟩
        rintro ⟨hm, hv⟩
        rcases mem_cons.mp hm with rfl | hm
        · simp [hc] at hb
        · exact hno ⟨hm, hs.ready_iff.mpr hv⟩
      · rw [hn]
        simp only [hs.follows_iff, UserMap.mem_union, exists_mem_cons_iff, or_assoc]
        refine or_congr_right (or_congr_left ?_)
        simp [Follows, hr]
      · rw [hp]
        simp only [hs.ready_iff, mem_cons]
        refine or_congr_right ?_
        constructor
        · exact fun hm => ⟨.inr hm.1, hm.2⟩
        · rintro ⟨rfl | hm, hno⟩
          · exact absurd hr hno
          · exact ⟨hm, hno⟩
    · rename_i he
      have hr : ¬ s.Ready closure u := fun hr => he (ready_iff.mpr hr)
      obtain ⟨hst, hs, hsl, hn, hp⟩ := ih h
        ((next.union ((s.user u).roles.minus closure)).set u) (postponed.set u)
      refine ⟨hst, hs, fun v hv => ?_, fun x => ?_, fun x => ?_⟩
      · obtain ⟨hb, hno⟩ := hsl v hv
        refine ⟨hb, ?_⟩
        rintro ⟨hm, hr'⟩
        rcases mem_cons.mp hm with rfl | hm
        · exact hr hr'
        · exact hno ⟨hm, hr'⟩
      · rw [hn]
        simp only [UserMap.mem_set, UserMap.mem_union, UserMap.mem_minus, exists_mem_cons_iff]
        have hf : s.Follows closure u x ↔
            x = u ∨ x ∈ (s.user u).roles ∧ x ∉ closure := by simp [Follows, hr]
        rw [hf]
        tauto
      · rw [hp]
        simp only [UserMap.mem_set, mem_cons]
        constructor
        · rintro ((rfl | hx) | ⟨hm, hno⟩)
          · exact .inr ⟨.inl rfl, hr⟩
          · exact .inl hx
          · exact .inr ⟨.inr hm, hno⟩
        · rintro (hx | ⟨rfl | hm, hno⟩)
          · exact .inl (.inr hx)
          · exact .inl (.inl rfl)
          · exact .inr ⟨hm, hno⟩

/-- How many rounds can pass before a user is evaluated: one is at most so far above a role without
roles, or all of the layer is so far down. -/
def Awaits (rank : Token → Nat) (layer closure : UserMap) (bound : Nat) : Prop :=
  (∃ x ∈ layer, x ∉ closure ∧ rank x ≤ bound) ∨ 32 ≤ bound ∧ ∀ x ∈ layer, 64 ≤ rank x + bound

def outside (closure : UserMap) : Nat := (Finset.univ.filter fun u : Token => u ∉ closure).card

lemma outside_lt {closure' : UserMap} (hs : ∀ u ∈ closure, u ∈ closure') (hu : u ∉ closure)
    (hu' : u ∈ closure') : outside closure' < outside closure := by
  refine Finset.card_lt_card ⟨fun v hv => ?_, fun ha => ?_⟩
  · simp only [Finset.mem_filter, Finset.mem_univ, true_and] at hv ⊢
    exact fun hm => hv (hs v hm)
  · have hm := ha (x := u) (by simpa using hu)
    simp [hu'] at hm

/-- A round that evaluates nothing new comes closer to one that does, or to the end. -/
lemma awaits_next {bound : Nat} {next : UserMap} (hra : ∀ u r, s.HasRole u r → rank r < rank u)
    (hlt : ∀ u, rank u < 32) (h : s.Partial alive closure) (hn : ∃ x, x ∈ layer)
    (hs : ∀ u ∈ layer, s.Ready closure u → u ∈ closure)
    (hne : ∀ x, x ∈ next ↔ ∃ u ∈ layer, s.Follows closure u x)
    (ha : Awaits rank layer closure bound) :
    ∃ bound', bound = bound' + 1 ∧ Awaits rank next closure bound' := by
  by_cases hw : ∃ x ∈ layer, ¬ s.Ready closure x
  · -- one of the roles that are waited for is in the next layer
    obtain ⟨x, hx, hre, hb⟩ : ∃ x ∈ layer, ¬ s.Ready closure x ∧ rank x ≤ bound := by
      rcases ha with ⟨x, hx, hno, hle⟩ | ⟨hle, -⟩
      · exact ⟨x, hx, fun hre => hno (hs x hx hre), hle⟩
      · obtain ⟨x, hx, hre⟩ := hw
        have := hlt x
        exact ⟨x, hx, hre, by omega⟩
    obtain ⟨r, hr, hno⟩ : ∃ r ∈ (s.user x).roles, r ∉ closure := by
      by_contra hal
      exact hre fun r hr => by_contra fun hno => hal ⟨r, hr, hno⟩
    have hl := hra x r hr
    refine ⟨bound - 1, by omega, .inl ⟨r, (hne r).mpr ?_, hno, by omega⟩⟩
    exact ⟨x, hx, .inr ⟨hre, .inr ⟨hr, hno⟩⟩⟩
  · -- all of the layer is evaluated, and the next one is further down
    have hre : ∀ x ∈ layer, s.Ready closure x := fun x hx => by_contra fun hno => hw ⟨x, hx, hno⟩
    rcases ha with ⟨x, hx, hno, -⟩ | ⟨hle, hal⟩
    · exact absurd (hs x hx (hre x hx)) hno
    · obtain ⟨x, hx⟩ := hn
      have hfa := hal x hx
      have := hlt x
      refine ⟨bound - 1, by omega, .inr ⟨by omega, fun y hy => ?_⟩⟩
      obtain ⟨u, hu, hf⟩ := (hne y).mp hy
      rcases hf with ⟨-, hus⟩ | ⟨hno, -⟩
      · have hup := hra y u ((h.maps y u).mpr hus)
        have := hal u hu
        omega
      · exact absurd (hre u hu) hno

/-- The loop over layers ends, and then no user is dirty. -/
lemma propagate_spec {rounds bound : Nat} (hra : ∀ u r, s.HasRole u r → rank r < rank u)
    (hlt : ∀ u, rank u < 32) (h : s.Partial alive closure)
    (hrc : ∀ v, (s.user v).isDirty = true → ∃ x ∈ layer, ReflTransGen s.HasRole v x)
    (ha : Awaits rank layer closure bound)
    (hro : 65 * outside closure + bound + 1 ≤ rounds) :
    ∃ s', propagate alive rounds layer closure s = some s' ∧ s.SameGrants s' ∧ s'.Wired alive ∧
      ∀ u, (s'.user u).isDirty = false ∧ s'.Sound alive u := by
  induction rounds generalizing s layer closure bound with
  | zero => omega
  | succ rounds ih =>
    rw [propagate]
    split
    · rename_i he
      have hcl : ∀ u, (s.user u).isDirty = false := by
        intro u
        rw [Bool.eq_false_iff]
        intro hd
        obtain ⟨x, hx, -⟩ := hrc u hd
        exact UserMap.isEmpty_iff.mp he x hx
      exact ⟨s, rfl, .refl s, h.toWired, fun u => ⟨hcl u, h.clean u (hcl u)⟩⟩
    rename_i he
    have hno := UserMap.exists_mem he
    obtain ⟨hst, hsa, hsl, hn, hp⟩ := evaluateLayer_spec layer.toList h .nil .nil
    generalize evaluateLayer alive closure layer.toList s .nil .nil = result at *
    obtain ⟨s₁, next, postponed⟩ := result
    simp only [UserMap.mem_toList, UserMap.notMem_nil, false_or] at hsl hn hp
    dsimp only at *
    have hc : ∀ x, x ∈ closure.union (layer.minus postponed) ↔
        x ∈ closure ∨ x ∈ layer ∧ s.Ready closure x := by
      intro x
      rw [UserMap.mem_union, UserMap.mem_minus, hp]
      tauto
    have hpa : s₁.Partial alive (closure.union (layer.minus postponed)) := by
      refine { hst with evaluated := fun u hu => ?_, closed := fun u hu r hr => ?_ }
      · rcases (hc u).mp hu with hu | hu
        · exact hst.evaluated u hu
        · rw [Bool.eq_false_iff]
          exact fun hd => (hsl u hd).2 hu
      · refine (hc r).mpr (.inl ?_)
        rcases (hc u).mp hu with hu | ⟨-, hre⟩
        · exact hst.closed u hu r hr
        · rw [hsa.roles_eq] at hr
          exact hre r hr
    have hrc' : ∀ v, (s₁.user v).isDirty = true → ∃ x ∈ next, ReflTransGen s₁.HasRole v x := by
      intro v hv
      obtain ⟨hd, hnt⟩ := hsl v hv
      obtain ⟨x, hx, hpt⟩ := hrc v hd
      rw [hsa.hasRole_eq]
      by_cases hre : s.Ready closure x
      · rcases hpt.cases_tail with rfl | ⟨y, hvy, hy⟩
        · exact absurd ⟨hx, hre⟩ hnt
        · exact ⟨y, (hn y).mpr ⟨x, hx, .inl ⟨hre, (h.maps y x).mp hy⟩⟩, hvy⟩
      · exact ⟨x, (hn x).mpr ⟨x, hx, .inr ⟨hre, .inl rfl⟩⟩, hpt⟩
    have hra' : ∀ u r, s₁.HasRole u r → rank r < rank u := hsa.hasRole_eq ▸ hra
    have hf : ∀ bound', Awaits rank next (closure.union (layer.minus postponed)) bound' →
        65 * outside (closure.union (layer.minus postponed)) + bound' + 1 ≤ rounds →
        ∃ s', propagate alive rounds next (closure.union (layer.minus postponed)) s₁ = some s' ∧
          s.SameGrants s' ∧ s'.Wired alive ∧
            ∀ u, (s'.user u).isDirty = false ∧ s'.Sound alive u := by
      intro bound' ha' hro'
      obtain ⟨s', hs', hsa', hrs⟩ := ih hra' hpa hrc' ha' hro'
      exact ⟨s', hs', hsa.trans hsa', hrs⟩
    by_cases hne : ∃ u ∈ layer, s.Ready closure u ∧ u ∉ closure
    · obtain ⟨u, hu, hre, hnt⟩ := hne
      have hl : outside (closure.union (layer.minus postponed)) < outside closure :=
        outside_lt (fun v hv => (hc v).mpr (.inl hv)) hnt ((hc u).mpr (.inr ⟨hu, hre⟩))
      exact hf 64 (.inr ⟨by omega, fun x _ => by omega⟩) (by omega)
    · have ho : ∀ u ∈ layer, s.Ready closure u → u ∈ closure := fun u hu hre =>
        by_contra fun hnt => hne ⟨u, hu, hre, hnt⟩
      obtain ⟨bound', rfl, ha'⟩ := awaits_next hra hlt h hno ho hn ha
      have heq : ∀ x, x ∈ closure.union (layer.minus postponed) ↔ x ∈ closure := by
        intro x
        rw [hc]
        exact ⟨fun hx => hx.elim id fun hm => ho x hm.1 hm.2, .inl⟩
      refine hf bound' ?_ ?_
      · simpa only [Awaits, heq] using ha'
      · simpa only [outside, heq] using (by omega : 65 * outside closure + bound' + 1 ≤ rounds)

lemma mem_nextLayer (users : Token → UserMap) {x : Token} :
    x ∈ nextLayer users layer ↔ ∃ u ∈ layer, x ∈ users u := by
  have hf : ∀ (tokens : List Token) (next : UserMap),
      x ∈ tokens.foldl (fun next user => next.union (users user)) next ↔
        x ∈ next ∨ ∃ u ∈ tokens, x ∈ users u := by
    intro tokens
    induction tokens with
    | nil => simp
    | cons u tokens ih =>
      intro next
      rw [foldl_cons, ih]
      simp [or_assoc]
  simp [nextLayer, hf]

lemma closeUsers_spec {rounds : Nat} {g : Token} (h : s.Wired alive)
    (hr : ∀ u r, s.HasRole u r → rank r < rank u) (hlt : ∀ u, rank u < 32)
    (hf : ∀ x ∈ layer, 33 ≤ rank x + rounds) (hp : 0 < rounds) (hsu : ∀ x ∈ layer, x ∈ closure)
    (hg : g ∈ closure) (hs : ∀ x ∈ closure, ReflTransGen s.HasRole x g)
    (hc : ∀ x ∈ closure, x ∈ layer ∨ ∀ y, s.HasRole y x → y ∈ closure) :
    ∃ users, closeUsers (fun token => (s.user token).users) rounds layer closure = some users ∧
      ∀ x, x ∈ users ↔ ReflTransGen s.HasRole x g := by
  induction rounds generalizing layer closure with
  | zero => omega
  | succ rounds ih =>
    rw [closeUsers]
    split
    · rename_i he
      refine ⟨closure, rfl, fun x => ⟨hs x, fun hx => ?_⟩⟩
      -- the closure has the grantee and is closed against the edges
      induction hx using ReflTransGen.head_induction_on with
      | refl => exact hg
      | head hyx _ hx => exact ((hc _ hx).resolve_left (UserMap.isEmpty_iff.mp he _)) _ hyx
    · rename_i he
      obtain ⟨x₀, hx₀⟩ := UserMap.exists_mem he
      have hn : ∀ x, x ∈ nextLayer (fun token => (s.user token).users) layer ↔
          ∃ u ∈ layer, s.HasRole x u := by
        intro x
        simp [mem_nextLayer, HasRole, h.maps]
      refine ih (fun x hx => ?_) ?_ (fun x hx => UserMap.mem_union.mpr (.inr hx))
        (UserMap.mem_union.mpr (.inl hg)) (fun x hx => ?_) fun x hx => ?_
      · obtain ⟨u, hu, hxu⟩ := (hn x).mp hx
        have := hr x u hxu
        have := hf u hu
        omega
      · have := hlt x₀
        have := hf x₀ hx₀
        omega
      · rcases UserMap.mem_union.mp hx with hx | hx
        · exact hs x hx
        · obtain ⟨u, hu, hxu⟩ := (hn x).mp hx
          exact .head hxu (hs u (hsu u hu))
      · rcases UserMap.mem_union.mp hx with hx | hx
        · rcases hc x hx with hl | ha
          · exact .inr fun y hy => UserMap.mem_union.mpr (.inr ((hn y).mpr ⟨x, hl, hy⟩))
          · exact .inr fun y hy => UserMap.mem_union.mpr (.inl (ha y hy))
        · exact .inl hx

lemma usersOf_spec (h : s.Wired alive) (g : Token) : ∃ users, s.usersOf g = some users ∧
    ∀ x, x ∈ users ↔ ReflTransGen s.HasRole x g := by
  obtain ⟨rank, hr, hl⟩ := exists_rank h.acyclic
  have ho : ∀ x, x ∈ UserMap.nil.set g ↔ x = g := by simp
  refine closeUsers_spec h hr (by simpa using hl) (fun x _ => ?_) (by decide)
    (fun x hx => hx) ((ho g).mpr rfl) (fun x hx => ?_) fun x hx => .inl hx
  · exact Nat.le_add_left _ _
  · rw [(ho x).mp hx]

/-- `role_check` refuses exactly the grants that would close a cycle of roles. -/
lemma roleCheck_spec (h : s.Wired alive) (grantee role : Token) :
    ∃ allowed, s.roleCheck grantee role = some allowed ∧
      (allowed = true ↔ Acyclic (addEdge s.HasRole grantee role)) := by
  obtain ⟨users, hu, hm⟩ := usersOf_spec h grantee
  refine ⟨!users.isSet role, by simp [roleCheck, hu], ?_⟩
  rw [acyclic_addEdge_iff h.acyclic, ← hm role, Bool.not_eq_true', ← Bool.not_eq_true]
  rfl

structure State.Inv (alive : Object → Bool) (s : State) : Prop extends s.Wired alive where
  clean : ∀ u, (s.user u).isDirty = false
  sound : ∀ u, s.Sound alive u

/-- After a change at one user, a rebuild makes everything right that depends on it. -/
lemma rebuild_spec {g : Token} (h : s.Wired alive) (hc : ∀ u, (s.user u).isDirty = false)
    (hso : ∀ u, ¬ ReflTransGen s.HasRole u g → s.Sound alive u) :
    ∃ s', s.rebuildEffectiveGrants alive g = some s' ∧ s.SameGrants s' ∧ s'.Inv alive := by
  obtain ⟨users, hus, hm⟩ := usersOf_spec h g
  obtain ⟨rank, hra, hl⟩ := exists_rank h.acyclic
  have hsa : s.SameGrants (s.markDirty users) := ⟨fun _ => rfl, fun _ => rfl, rfl, rfl⟩
  have hd : ∀ u, ((s.markDirty users).user u).isDirty = true ↔ u ∈ users := by
    intro u
    simp only [markDirty, hc u, Bool.false_or]
    rfl
  have hp : (s.markDirty users).Partial alive .nil := by
    refine ⟨hsa.wired h h.absent, fun u hu => ?_, by simp, by simp⟩
    have ho : ¬ ReflTransGen s.HasRole u g := by
      rw [← hm, ← hd, hu]
      exact Bool.false_ne_true
    have hu := hso u ho
    exact ⟨hsa.union_eq ▸ hu.privs, hsa.union_eq ▸ hu.effective, hu.credentials⟩
  have hb : 65 * outside .nil + 64 + 1 ≤ propagateRounds := by
    have hca : outside .nil ≤ 32 := (Finset.card_le_univ _).trans (by simp)
    simp only [propagateRounds]
    omega
  have hr : ∀ v, ((s.markDirty users).user v).isDirty = true →
      ∃ x ∈ UserMap.nil.set g, ReflTransGen (s.markDirty users).HasRole v x := by
    intro v hv
    refine ⟨g, by simp, ?_⟩
    rw [hsa.hasRole_eq]
    exact (hm v).mp ((hd v).mp hv)
  have ha : Awaits rank (UserMap.nil.set g) .nil 64 :=
    .inr ⟨by omega, fun x _ => Nat.le_add_left _ _⟩
  obtain ⟨s', hs', hsa', hw, hal⟩ := propagate_spec (hsa.hasRole_eq ▸ hra)
    (by simpa using hl) hp hr ha hb
  refine ⟨s', by simp [rebuildEffectiveGrants, hus, hs'], hsa.trans hsa', ?_⟩
  exact ⟨hw, fun u => (hal u).1, fun u => (hal u).2⟩

end TarantoolStorage.Access
