import TarantoolStorage.Binding.Isolation

/-!
Order of execution, owner by owner. Foreign messages rotate through the ring while a transaction
is open.
-/
namespace TarantoolStorage.Binding

open Transition List Loop

variable {ι ω β : Type} {c : Configuration} {E : Engine β} {box : β} {o : Nat} {m : Message ι ω β}
  {s t : Loop ι ω β} {a : Action ι ω β} {f : Fiber β}

/-- The addresses of one owner's client messages, in the order of the list. -/
def ownIds (o : Nat) (ms : List (Message ι ω β)) : List Nat :=
  (ms.filter fun m => m.type ≠ .stop ∧ m.owner = o).map Message.id

def acceptedBy (log : List (Event ι ω β)) (o : Nat) : List Nat :=
  ownIds o (log.filterMap fun | .accepted m => some m | _ => none)

def executedBy (log : List (Event ι ω β)) (o : Nat) : List Nat :=
  ownIds o (log.filterMap fun | .executed m _ _ => some m | _ => none)

/-- Every owner's messages are executed in the order in which they were accepted. -/
def PerOwnerFifo (log : List (Event ι ω β)) : Prop :=
  ∀ o, (executedBy log o).Sublist (acceptedBy log o)

/-- Every owner's messages stand in the ring in the order in which they were accepted. -/
def RingOrdered (s : Loop ι ω β) : Prop :=
  ∀ o, (ownIds o s.ring).Sublist (acceptedBy s.log o)

/-- The action executes a message that ends the open transaction. -/
def endsTransaction (E : Engine β) (s : Loop ι ω β) : Action ι ω β → Bool
  | .handle =>
    match s.control with
    | .handling m _ =>
      !isForeign s.fiber m && s.fiber.txn.isSome && (messageSwitch E s.fiber m).1.txn.isNone
    | _ => false
  | _ => false

/-- A message that ends a transaction finds the ring ordered. -/
def EndsInOrder (E : Engine β) (s : Loop ι ω β) (a : Action ι ω β) : Prop :=
  endsTransaction E s a = true → RingOrdered s

@[simp] lemma ownIds_append (o : Nat) (xs ys : List (Message ι ω β)) :
    ownIds o (xs ++ ys) = ownIds o xs ++ ownIds o ys := by
  simp [ownIds]

lemma ownIds_stop (hm : m.type = .stop) : ownIds o [m] = [] := by
  simp [ownIds, hm]

lemma ownIds_of_ne (hm : m.owner ≠ o) : ownIds o [m] = [] := by
  simp [ownIds, hm]

@[simp] lemma acceptedBy_append (xs ys : List (Event ι ω β)) (o : Nat) :
    acceptedBy (xs ++ ys) o = acceptedBy xs o ++ acceptedBy ys o := by
  simp [acceptedBy]

@[simp] lemma executedBy_append (xs ys : List (Event ι ω β)) (o : Nat) :
    executedBy (xs ++ ys) o = executedBy xs o ++ executedBy ys o := by
  simp [executedBy]

@[simp] lemma acceptedBy_accepted (m : Message ι ω β) (o : Nat) :
    acceptedBy [Event.accepted m] o = ownIds o [m] := rfl

@[simp] lemma executedBy_accepted (m : Message ι ω β) (o : Nat) :
    executedBy [Event.accepted m] o = [] := rfl

@[simp] lemma acceptedBy_posted (port : Nat) (m : Message ι ω β) (o : Nat) :
    acceptedBy [Event.posted port m] o = [] := rfl

@[simp] lemma executedBy_posted (port : Nat) (m : Message ι ω β) (o : Nat) :
    executedBy [Event.posted port m] o = [] := rfl

/-- Handling a message executes it and accepts nothing. -/
lemma executionEvents_order (f : Fiber β) (m : Message ι ω β) (o : Nat) :
    executedBy (executionEvents E f m) o = ownIds o [m] ∧
      acceptedBy (executionEvents E f m) o = [] := by
  unfold executionEvents
  split
  · exact ⟨rfl, rfl⟩
  · rename_i hn
    exact ⟨(ownIds_stop (messageSwitch_posts_iff.mp hn)).symm, rfl⟩

lemma ringOrdered_iff : RingOrdered s ↔
    ∀ m ∈ s.ring, (ownIds m.owner s.ring).Sublist (acceptedBy s.log m.owner) := by
  constructor
  · exact fun h m _ => h m.owner
  · intro h o
    cases hl : ownIds o s.ring with
    | nil => exact nil_sublist _
    | cons id ids =>
      have hi : id ∈ ownIds o s.ring := hl ▸ mem_cons_self
      obtain ⟨m, hm, -⟩ := mem_map.mp hi
      obtain ⟨hr, ho⟩ := mem_filter.mp hm
      obtain ⟨-, rfl⟩ : m.type ≠ .stop ∧ m.owner = o := by simpa using ho
      exact hl ▸ h m hr

instance (s : Loop ι ω β) : Decidable (RingOrdered s) := decidable_of_iff _ ringOrdered_iff.symm

instance (s : Loop ι ω β) (a : Action ι ω β) : Decidable (EndsInOrder E s a) :=
  inferInstanceAs (Decidable (_ → _))

lemma acceptedBy_nodup (h : Distinct s) (o : Nat) : (acceptedBy s.log o).Nodup := by
  refine (nodup_append.mp h.nodup).1.sublist ?_
  simp only [acceptedBy, acceptedKeys, ownIds, clientKeys, map_map]
  refine Sublist.map _ ?_
  refine monotone_filter_right _ ?_
  intro m hm
  simp_all

/-- Owners whose pending messages are known to stand in order. -/
def Settled (f : Fiber β) (o : Nat) : Prop := f.txn = none ∨ f.transactionOwner = o

/-- An owner's executed messages, then its pending ones in some order, are in the order of
acceptance; for a settled owner as they stand. -/
def InOrder (s : Loop ι ω β) (o : Nat) : Prop :=
  ∃ r, r.Perm (ownIds o s.pending) ∧ (executedBy s.log o ++ r).Sublist (acceptedBy s.log o) ∧
    (Settled s.fiber o → r = ownIds o s.pending)

/-- A message that is being put back is foreign to the open transaction. -/
def BouncesForeign (s : Loop ι ω β) : Prop :=
  ∀ m count drain, s.control = .resending m count drain → isForeign s.fiber m = true

lemma bouncesForeign_step (h : step c E s a = some t) (hs : BouncesForeign s) :
    BouncesForeign t := by
  cases step_cases h with
  | bounce m drain hc hf =>
    intro x count d hx
    obtain ⟨rfl, -, -⟩ : m = x ∧ 0 = count ∧ drain = d := by simpa using hx
    exact hf
  | backoff m count drain hc =>
    intro x n d hx
    obtain ⟨rfl, -, -⟩ : m = x ∧ count + 1 = n ∧ drain = d := by simpa using hx
    exact hs m count drain hc
  | take m ring drain _ _ hc hr => exact fun x n d hx => nomatch hx
  | drain m ring _ _ hc hr hm => exact fun x n d hx => nomatch hx
  | finish hc hr => exact fun x n d hx => nomatch hx
  | execute m drain hc hf => cases drain <;> exact fun x n d hx => nomatch hx
  | resend m count drain hc => cases drain <;> exact fun x n d hx => nomatch hx
  | reject m count drain hc => cases drain <;> exact fun x n d hx => nomatch hx
  | _ => exact hs

lemma not_settled_of_foreign (h : isForeign f m = true) : ¬ Settled f m.owner := by
  rintro (hn | ho)
  · simp [isForeign, hn] at h
  · simp [isForeign, ho] at h

lemma settled_of_not_foreign (h : isForeign f m = false) : Settled f m.owner := by
  cases ht : f.txn with
  | none => exact .inl ht
  | some t => exact .inr (owner_of_not_foreign h ht).symm

@[simp] lemma batchLoop_transactionOwner (f : Fiber β) (es : List (BatchElement ι ω β)) :
    (batchLoop f es).1.transactionOwner = f.transactionOwner := by
  induction es generalizing f with
  | nil => rfl
  | cons e es ih => exact (ih _).trans (batchElementHandle_transactionOwner f e)

/-- Only BEGIN writes `transaction_owner`, and it writes its own owner. -/
lemma messageSwitch_owner (f : Fiber β) (m : Message ι ω β) :
    (messageSwitch E f m).1.transactionOwner = f.transactionOwner ∨
      (messageSwitch E f m).1.transactionOwner = m.owner := by
  unfold messageSwitch
  split
  · exact .inl (handleCall_transactionOwner f m)
  · exact .inl (batchLoop_transactionOwner f m.batch)
  · exact .inr (begin_txn f m.owner).2
  · exact .inl (rollback_txn f).2
  · exact .inl (commit_txn f).2
  · exact .inl rfl

/-- An owner is settled by an execution only when the execution ends the transaction. -/
lemma settled_messageSwitch (hf : isForeign f m = false) (h : Settled (messageSwitch E f m).1 o) :
    Settled f o ∨ f.txn.isSome ∧ (messageSwitch E f m).1.txn = none := by
  rcases h with hn | ho
  · cases ht : f.txn with
    | none => exact .inl (.inl ht)
    | some t => exact .inr ⟨rfl, hn⟩
  · rcases messageSwitch_owner (E := E) f m with hk | hk
    · exact .inl (.inr (hk.symm.trans ho))
    · have hm := settled_of_not_foreign hf
      rw [← hk, ho] at hm
      exact .inl hm

lemma inOrder_execute {drain : Bool} (hs : InOrder s o) (hd : Distinct s)
    (hc : s.control = .handling m drain) (hf : isForeign s.fiber m = false)
    (hen : EndsInOrder E s .handle) :
    InOrder { s with
      fiber := (messageSwitch E s.fiber m).1
      control := .back drain
      log := s.log ++ executionEvents E s.fiber m } o := by
  obtain ⟨r, hp, hsu, hr⟩ := hs
  obtain ⟨he, ha⟩ := executionEvents_order (E := E) s.fiber m o
  simp only [pending, hc, inHand_handling, ownIds_append] at hp hr
  -- the message in hand heads its owner's list, and is no part of any other owner's
  obtain ⟨r', hr'⟩ : ∃ r', r = ownIds o [m] ++ r' := by
    by_cases ho : m.owner = o
    · exact ⟨_, hr (ho ▸ settled_of_not_foreign hf)⟩
    · exact ⟨r, by simp [ownIds_of_ne ho]⟩
  subst hr'
  have hp' : r'.Perm (ownIds o s.ring) := (perm_append_left_iff _).mp hp
  refine ⟨r', by simpa [pending] using hp', ?_, ?_⟩
  · simpa [he, ha] using hsu
  · intro hse
    simp only [pending, inHand_back, nil_append]
    rcases settled_messageSwitch hf hse with hse | ⟨hop, hcl⟩
    · exact append_cancel_left (hr hse)
    · have hri := hen (by simp [endsTransaction, hc, hf, hop, hcl]) o
      have hr'sub : r'.Sublist (acceptedBy s.log o) :=
        ((sublist_append_right _ _).trans (sublist_append_right _ _)).trans hsu
      exact ((acceptedBy_nodup hd o).perm_iff_eq_of_sublist hr'sub hri).mp hp'

lemma inOrder_leave {count : Int} {drain : Bool} (hs : InOrder s o) (hfo : BouncesForeign s)
    (hc : s.control = .resending m count drain) (hf : t.fiber = s.fiber)
    (he : executedBy t.log o = executedBy s.log o)
    (ha : acceptedBy t.log o = acceptedBy s.log o)
    (hpn : t.pending = s.ring ∨ t.pending = s.ring ++ [m]) : InOrder t o := by
  obtain ⟨r, hpe, hsu, hr⟩ := hs
  simp only [pending, hc, inHand_resending, ownIds_append] at hpe hr
  by_cases ho : m.owner = o
  · have hn : ¬ Settled t.fiber o := by
      rw [hf, ← ho]
      exact not_settled_of_foreign (hfo m count drain hc)
    rcases hpn with hp | hp
    · have hre : (ownIds o s.ring).Subperm r :=
        (sublist_append_right _ _).subperm.trans hpe.symm.subperm
      obtain ⟨r', hpe', hsu'⟩ := hre
      refine ⟨r', hp ▸ hpe', ?_, fun h => (hn h).elim⟩
      rw [he, ha]
      exact ((append_sublist_append_left _).mpr hsu').trans hsu
    · refine ⟨r, ?_, by rw [he, ha]; exact hsu, fun h => (hn h).elim⟩
      rw [hp, ownIds_append]
      exact hpe.trans perm_append_comm
  · have how : ownIds o t.pending = ownIds o s.ring := by
      rcases hpn with hp | hp <;> simp [hp, ownIds_of_ne ho]
    simp only [ownIds_of_ne ho, nil_append] at hpe hr
    exact ⟨r, how ▸ hpe, by rw [he, ha]; exact hsu, fun h => how ▸ hr (hf ▸ h)⟩

lemma inOrder_congr (hs : InOrder s o) (hf : t.fiber = s.fiber) (hl : t.log = s.log)
    (hp : ownIds o t.pending = ownIds o s.pending) : InOrder t o := by
  obtain ⟨r, hpe, hsu, hr⟩ := hs
  exact ⟨r, hp ▸ hpe, hl ▸ hsu, fun h => hp ▸ hr (hf ▸ h)⟩

/-- What the loop keeps of the order along a run. -/
structure Ordered (s : Loop ι ω β) : Prop where
  distinct : Distinct s
  foreign : BouncesForeign s
  inOrder : ∀ o, InOrder s o

lemma inOrder_step (h : step c E s a = some t) (he : EndsInOrder E s a) (hs : Ordered s)
    (o : Nat) : InOrder t o := by
  have ho := hs.inOrder o
  cases step_cases h with
  | accept k sender _ =>
    obtain ⟨r, hpe, hsu, hr⟩ := ho
    have hp : ownIds o (s.control.inHand ++ (s.ring ++ [sender.message])) =
        ownIds o s.pending ++ ownIds o [sender.message] := by
      simp [pending]
    refine ⟨r ++ ownIds o [sender.message], ?_, ?_, ?_⟩
    · exact hp ▸ hpe.append_right _
    · simpa [← append_assoc] using hsu.append (Sublist.refl (ownIds o [sender.message]))
    · intro hse
      rw [hr hse]
      exact hp.symm
  | stop m hm => exact inOrder_congr ho rfl rfl (by simp [pending, ownIds_stop hm])
  | take m ring drain _ _ hc hr => exact inOrder_congr ho rfl rfl (by simp [pending, hc, hr])
  | drain m ring _ _ hc hr hm =>
    refine inOrder_congr ho rfl rfl ?_
    rw [pending, pending, hc, hr, ← singleton_append, ownIds_append, ownIds_append,
      ownIds_append, ownIds_stop hm]
    rfl
  | finish hc hr => exact inOrder_congr ho rfl rfl (by simp [pending, hc, hr, Control.inHand])
  | bounce m drain hc hf => exact inOrder_congr ho rfl rfl (by simp [pending, hc])
  | execute m drain hc hf => exact inOrder_execute ho hs.distinct hc hf he
  | resend m count drain hc =>
    exact inOrder_leave ho hs.foreign hc rfl rfl rfl (.inr (by simp [pending]))
  | reject m count drain hc =>
    exact inOrder_leave ho hs.foreign hc rfl (by simp) (by simp) (.inl (by simp [pending]))
  | backoff m count drain hc => exact inOrder_congr ho rfl rfl (by simp [pending, hc])
  | _ => exact ho

lemma ordered_initial : Ordered (initial c box : Loop ι ω β) := by
  refine ⟨distinct_initial, fun _ _ _ h => (nomatch h), ?_⟩
  intro o
  exact ⟨[], Perm.refl [], Sublist.refl [], fun _ => rfl⟩

lemma ordered_step (h : step c E s a = some t) (he : EndsInOrder E s a) (hs : Ordered s) :
    Ordered t :=
  ⟨distinct_step h hs.distinct, bouncesForeign_step h hs.foreign, inOrder_step h he hs⟩

/-- In a run in which every end of a transaction finds the ring in order, owner by owner, each
owner's messages are executed in the order of their acceptance. -/
theorem per_owner_fifo {actions : List (Action ι ω β)} {s : Loop ι ω β}
    (h : run (step c E) (initial c box) actions = some s)
    (hend : Along (step c E) (EndsInOrder E) (initial c box) actions) : PerOwnerFifo s.log := by
  have hs : Ordered s := run_invariant_along ordered_step h hend ordered_initial
  intro o
  obtain ⟨r, -, hsu, -⟩ := hs.inOrder o
  exact (sublist_append_left _ r).trans hsu

/-- Owner 2's message is passed over while owner 1's transaction is open, and runs after it. -/
def rotatedActions : List (Action Unit Unit Unit) :=
  submit (sample 1 .begin 1) ++ submit (sample 2 .call 2) ++ submit (sample 3 .commit 1) ++
    [.dequeue, .handle, .dequeue, .handle, .resendTry, .dequeue, .handle, .dequeue, .handle]

theorem per_owner_fifo_rotated : ∃ s,
    run (step sampleConfiguration sampleEngine) (initial sampleConfiguration ())
      rotatedActions = some s ∧ executedBy s.log 2 = [2] ∧ PerOwnerFifo s.log := by
  have key (s : Loop Unit Unit Unit)
      (hs : run (step sampleConfiguration sampleEngine) (initial sampleConfiguration ())
        rotatedActions = some s) : executedBy s.log 2 = [2] ∧ PerOwnerFifo s.log := by
    have hi := per_owner_fifo hs (by decide)
    cases hs
    exact ⟨rfl, hi⟩
  exact ⟨_, rfl, key _ rfl⟩

/-- Owner 2 sends messages 2 and 4. Message 2 is put back behind message 4, and the transaction ends
before message 4 has been rotated too. -/
def overtakingActions : List (Action Unit Unit Unit) :=
  submit (sample 1 .begin 1) ++ submit (sample 2 .call 2) ++ submit (sample 3 .commit 1) ++
    submit (sample 4 .call 2) ++
    [.dequeue, .handle, .dequeue, .handle, .resendTry, .dequeue, .handle, .dequeue, .handle,
      .dequeue, .handle]

theorem overtaken_within_owner : ∃ s,
    run (step sampleConfiguration sampleEngine) (initial sampleConfiguration ())
      overtakingActions = some s ∧
      acceptedBy s.log 2 = [2, 4] ∧ executedBy s.log 2 = [4, 2] ∧ ¬ PerOwnerFifo s.log := by
  refine ⟨_, rfl, rfl, rfl, ?_⟩
  intro h
  exact absurd (h 2) (by decide)

end TarantoolStorage.Binding
