import TarantoolStorage.Binding.Loop

/-!
Conservation of messages: an accepted message waits in the ring, is in the hands of the loop, or
has been posted back.
-/
namespace TarantoolStorage.Binding

open Transition List Loop

variable {ι ω β : Type} {c : Configuration} {E : Engine β} {box : β} {m : Message ι ω β}
  {log : List (Event ι ω β)} {port id : Nat} {s t : Loop ι ω β} {a : Action ι ω β}
  {keys : List (Nat × Nat)}

def Message.key (m : Message ι ω β) : Nat × Nat := (m.id, m.callbackSendPort)

/-- The keys of the client messages of a list; STOP is not a client message. -/
def clientKeys (ms : List (Message ι ω β)) : List (Nat × Nat) :=
  (ms.filter fun m => m.type ≠ .stop).map Message.key

def acceptedKeys (log : List (Event ι ω β)) : List (Nat × Nat) :=
  clientKeys (log.filterMap fun | .accepted m => some m | _ => none)

def postedKeys (log : List (Event ι ω β)) : List (Nat × Nat) :=
  log.filterMap fun
    | .posted port m => if m.type = .stop then none else some (m.id, port)
    | _ => none

def executedIds (log : List (Event ι ω β)) : List Nat :=
  log.filterMap fun | .executed m _ _ => some m.id | _ => none

/-- Every message held by the ring, the loop or a sender has the property. -/
def Held (P : Message ι ω β → Prop) (s : Loop ι ω β) : Prop :=
  (∀ m ∈ s.pending, m.type ≠ .stop → P m) ∧ ∀ sender ∈ s.senders, P sender.message

lemma held_initial {P : Message ι ω β → Prop} : Held P (initial c box) :=
  ⟨by simp [initial, pending, Control.inHand], by simp [initial]⟩

/-- A property that sends establish and that ignores the callback handle stays with the messages. -/
lemma held_step {P : Message ι ω β → Prop} {s t : Loop ι ω β} {a : Action ι ω β}
    (hP : ∀ m callback, P m → P { m with callbackHandle := some callback })
    (h : step c E s a = some t)
    (ha : ∀ m callback, a = .sendMessage m callback → m.zeroed = true → P m)
    (hs : Held P s) : Held P t := by
  obtain ⟨hp, hse⟩ := hs
  cases step_cases h with
  | startSend m callback _ hm =>
    refine ⟨hp, ?_⟩
    intro sender hme
    rcases mem_append.mp hme with hme | hme
    · exact hse sender hme
    · obtain rfl := mem_singleton.mp hme
      exact hP m callback (ha m callback rfl hm)
  | accept k sender hk =>
    refine ⟨?_, fun x hx => hse x (mem_of_mem_eraseIdx hx)⟩
    intro m hm ht
    simp only [pending, ← append_assoc, mem_append, mem_singleton] at hm
    rcases hm with hm | rfl
    · exact hp m (mem_append.mpr hm) ht
    · exact hse sender (mem_of_getElem? hk)
  | giveUp k => exact ⟨hp, fun x hx => hse x (mem_of_mem_eraseIdx hx)⟩
  | retry k sender hk n =>
    refine ⟨hp, ?_⟩
    intro x hx
    rcases mem_or_eq_of_mem_set hx with hx | rfl
    · exact hse x hx
    · exact hse sender (mem_of_getElem? hk)
  | stop m hm =>
    refine ⟨?_, hse⟩
    intro x hx ht
    simp only [pending, ← append_assoc, mem_append, mem_singleton] at hx
    rcases hx with hx | rfl
    · exact hp x (mem_append.mpr hx) ht
    · exact (ht hm).elim
  | take m ring drain _ _ hc hr => exact ⟨by simpa [pending, hc, hr] using hp, hse⟩
  | drain m ring _ _ hc hr _ =>
    refine ⟨?_, hse⟩
    intro x hx
    exact hp x (by simp_all [pending, Control.inHand])
  | finish hc hr => exact ⟨by simp [pending, hr, Control.inHand], hse⟩
  | bounce m drain hc _ => exact ⟨by simpa [pending, hc] using hp, hse⟩
  | execute m drain hc _ =>
    refine ⟨?_, hse⟩
    intro x hx
    exact hp x (by simp_all [pending])
  | resend m count drain hc =>
    refine ⟨?_, hse⟩
    intro x hx
    exact hp x (by simp_all [pending, or_comm])
  | reject m count drain hc =>
    refine ⟨?_, hse⟩
    intro x hx
    exact hp x (by simp_all [pending])
  | backoff m count drain hc => exact ⟨by simpa [pending, hc] using hp, hse⟩
  | _ => exact ⟨hp, hse⟩

@[simp] lemma clientKeys_append (xs ys : List (Message ι ω β)) :
    clientKeys (xs ++ ys) = clientKeys xs ++ clientKeys ys := by
  simp [clientKeys]

@[simp] lemma clientKeys_nil : clientKeys ([] : List (Message ι ω β)) = [] := rfl

lemma clientKeys_singleton (m : Message ι ω β) :
    clientKeys [m] = if m.type = .stop then [] else [m.key] := by
  by_cases hm : m.type = .stop <;> simp [clientKeys, hm]

lemma mem_clientKeys {ms : List (Message ι ω β)} (hm : m ∈ ms) (ht : m.type ≠ .stop) :
    m.id ∈ (clientKeys ms).map Prod.fst := by
  simp only [clientKeys, map_map, mem_map, mem_filter]
  exact ⟨m, ⟨hm, by simpa using ht⟩, rfl⟩

lemma mem_postedKeys (hm : Event.posted port m ∈ log) (ht : m.type ≠ .stop) :
    m.id ∈ (postedKeys log).map Prod.fst :=
  mem_map.mpr ⟨(m.id, port), mem_filterMap.mpr ⟨_, hm, by simp [ht]⟩, rfl⟩

@[simp] lemma acceptedKeys_append (xs ys : List (Event ι ω β)) :
    acceptedKeys (xs ++ ys) = acceptedKeys xs ++ acceptedKeys ys := by
  simp [acceptedKeys]

@[simp] lemma postedKeys_append (xs ys : List (Event ι ω β)) :
    postedKeys (xs ++ ys) = postedKeys xs ++ postedKeys ys := by
  simp [postedKeys]

@[simp] lemma executedIds_append (xs ys : List (Event ι ω β)) :
    executedIds (xs ++ ys) = executedIds xs ++ executedIds ys := by
  simp [executedIds]

@[simp] lemma acceptedKeys_accepted (m : Message ι ω β) :
    acceptedKeys [Event.accepted m] = clientKeys [m] := rfl

@[simp] lemma postedKeys_accepted (m : Message ι ω β) : postedKeys [Event.accepted m] = [] := rfl

@[simp] lemma acceptedKeys_posted (port : Nat) (m : Message ι ω β) :
    acceptedKeys [Event.posted port m] = [] := rfl

lemma postedKeys_posted (port : Nat) (m : Message ι ω β) :
    postedKeys [Event.posted port m] = if m.type = .stop then [] else [(m.id, port)] := by
  by_cases hm : m.type = .stop <;> simp [postedKeys, hm]

lemma messageSwitch_posted {f : Fiber β} {m' : Message ι ω β}
    (h : (messageSwitch E f m).2 = some m') : m'.id = m.id ∧ m'.type = m.type := by
  unfold messageSwitch at h
  split at h
  · obtain rfl := Option.some.inj h
    unfold tarantoolMessageHandleCall
    dsimp only
    split <;> exact ⟨rfl, rfl⟩
  · obtain rfl := Option.some.inj h
    exact ⟨rfl, rfl⟩
  · obtain rfl := Option.some.inj h
    exact ⟨rfl, rfl⟩
  · obtain rfl := Option.some.inj h
    exact ⟨rfl, rfl⟩
  · obtain rfl := Option.some.inj h
    exact ⟨rfl, rfl⟩
  · exact nomatch h

lemma messageSwitch_posts_iff {f : Fiber β} : (messageSwitch E f m).2 = none ↔ m.type = .stop := by
  unfold messageSwitch
  split <;> simp_all

lemma executionEvents_keys (f : Fiber β) (m : Message ι ω β) :
    acceptedKeys (executionEvents E f m) = [] ∧
      postedKeys (executionEvents E f m) = clientKeys [m] := by
  unfold executionEvents
  split
  · rename_i m' hm'
    obtain ⟨hi, ht⟩ := messageSwitch_posted hm'
    have hst : m.type ≠ .stop := by
      intro hs
      simp [messageSwitch_posts_iff.mpr hs] at hm'
    refine ⟨rfl, ?_⟩
    simp [postedKeys, clientKeys_singleton, hst, Message.key, hi, ht]
  · rename_i hn
    have hst := messageSwitch_posts_iff.mp hn
    refine ⟨rfl, ?_⟩
    simp [postedKeys, clientKeys_singleton, hst]

/-- Accepted messages are the pending ones together with the posted ones. -/
def Conserved (s : Loop ι ω β) : Prop :=
  (acceptedKeys s.log).Perm (clientKeys s.pending ++ postedKeys s.log)

lemma conserved_initial : Conserved (initial c box : Loop ι ω β) := Perm.nil

lemma conserved_step (h : step c E s a = some t) (hs : Conserved s) : Conserved t := by
  unfold Conserved at hs ⊢
  cases step_cases h with
  | accept k sender _ =>
    simp only [pending, acceptedKeys_append, postedKeys_append, clientKeys_append,
      acceptedKeys_accepted, postedKeys_accepted, append_nil] at hs ⊢
    refine (hs.append_right _).trans ?_
    simp only [append_assoc]
    exact (perm_append_comm.append_left _).append_left _
  | stop m hm => simpa [pending, clientKeys_singleton, hm] using hs
  | take m ring drain _ _ hc hr => simpa [pending, hc, hr] using hs
  | drain m ring _ _ hc hr hm =>
    have hd : clientKeys (m :: ring) = clientKeys ring := by simp [clientKeys, hm]
    simpa [pending, Control.inHand, hc, hr, hd] using hs
  | finish hc hr => simpa [pending, Control.inHand, hc, hr] using hs
  | bounce m drain hc _ => simpa [pending, hc] using hs
  | execute m drain hc _ =>
    obtain ⟨ha, hp⟩ := executionEvents_keys (E := E) s.fiber m
    simp only [pending, hc, inHand_handling, inHand_back, acceptedKeys_append,
      postedKeys_append, clientKeys_append, ha, hp, append_nil,
      nil_append] at hs ⊢
    refine hs.trans ?_
    rw [append_assoc]
    exact perm_append_comm.trans (by simp)
  | resend m count drain hc =>
    simp only [pending, hc, inHand_resending, inHand_back, clientKeys_append, nil_append] at hs ⊢
    exact hs.trans (perm_append_comm.append_right _)
  | reject m count drain hc =>
    have hk : postedKeys [Event.posted m.callbackSendPort (rejected m)] = clientKeys [m] := by
      simp [postedKeys_posted, clientKeys_singleton, rejected, Message.key]
    simp only [pending, hc, inHand_resending, inHand_back, acceptedKeys_append,
      acceptedKeys_posted, postedKeys_append, clientKeys_append, hk, append_nil,
      nil_append] at hs ⊢
    refine hs.trans ?_
    rw [append_assoc]
    exact perm_append_comm.trans (by simp)
  | backoff m count drain hc => simpa [pending, hc] using hs
  | _ => exact hs

/-- No address is accepted twice, and none that is still being sent has been accepted. -/
structure Distinct (s : Loop ι ω β) : Prop where
  nodup : ((acceptedKeys s.log).map Prod.fst ++ s.senders.map fun x => x.message.id).Nodup
  allocated : ∀ id ∈ (acceptedKeys s.log).map Prod.fst ++ s.senders.map fun x => x.message.id,
    id ∈ s.allocated

lemma distinct_initial : Distinct (initial c box : Loop ι ω β) :=
  ⟨nodup_nil, by simp [initial, acceptedKeys]⟩

/-- Distinctness only looks at the addresses, in any order. -/
lemma distinct_of_subperm (hs : Distinct s)
    (h : ((acceptedKeys t.log).map Prod.fst ++ t.senders.map fun x => x.message.id).Subperm
      ((acceptedKeys s.log).map Prod.fst ++ s.senders.map fun x => x.message.id))
    (ha : s.allocated ⊆ t.allocated) : Distinct t := by
  refine ⟨?_, fun id hi => ha (hs.allocated id (h.subset hi))⟩
  obtain ⟨l, hl, hsu⟩ := h
  exact hl.nodup_iff.mp (hs.nodup.sublist hsu)

lemma distinct_step (h : step c E s a = some t) (hs : Distinct s) : Distinct t := by
  cases step_cases h with
  | allocate _ id => exact distinct_of_subperm hs (Subperm.refl _) (subset_cons_self ..)
  | startSend m callback hid _ =>
    refine ⟨?_, ?_⟩
    · simp only [map_append, map_cons, map_nil, ← append_assoc]
      refine nodup_append.mpr ⟨hs.nodup, nodup_singleton _, ?_⟩
      intro id hme id' hid' heq
      obtain rfl := heq.trans (mem_singleton.mp hid')
      exact hid (hs.allocated _ hme)
    · intro id hme
      simp only [map_append, map_cons, map_nil, ← append_assoc] at hme
      rcases mem_append.mp hme with hme | hme
      · exact mem_cons_of_mem _ (hs.allocated id hme)
      · simp_all
  | accept k sender hk =>
    refine distinct_of_subperm hs ?_ (List.Subset.refl _)
    obtain ⟨hl, hg⟩ := List.getElem?_eq_some_iff.mp hk
    have hp := (getElem_cons_eraseIdx_perm hl).map fun x : Sender ι ω β => x.message.id
    rw [hg, map_cons] at hp
    have hsu : ((clientKeys [sender.message]).map Prod.fst).Sublist [sender.message.id] := by
      by_cases hm : sender.message.type = .stop <;> simp [clientKeys_singleton, hm, Message.key]
    simp only [acceptedKeys_append, acceptedKeys_accepted, map_append, append_assoc]
    exact (subperm_append_left _).mpr
      ((Sublist.append hsu (Sublist.refl _)).subperm.trans hp.subperm)
  | giveUp k =>
    exact distinct_of_subperm hs ((Sublist.append (Sublist.refl _)
        ((eraseIdx_sublist _ _).map _)).subperm) (List.Subset.refl _)
  | retry k sender hk n =>
    have hi : (s.senders.set k { sender with count := n }).map (fun x => x.message.id) =
        s.senders.map fun x => x.message.id := by
      apply ext_getElem? fun i => ?_
      rw [map_set, getElem?_set]
      split
      · rename_i he
        subst he
        obtain ⟨hl, hg⟩ := List.getElem?_eq_some_iff.mp hk
        simp [hl, hg]
      · rfl
    exact distinct_of_subperm hs (by simp [hi]; exact Subperm.refl _) (List.Subset.refl _)
  | stop m _ => exact distinct_of_subperm hs (Subperm.refl _) (subset_cons_self ..)
  | execute m drain _ _ =>
    exact distinct_of_subperm hs
      (by simp [acceptedKeys_append, executionEvents_keys]
          exact Subperm.refl _) (List.Subset.refl _)
  | reject m count drain _ =>
    exact distinct_of_subperm hs
      (by simp [acceptedKeys_append, acceptedKeys_posted]
          exact Subperm.refl _) (List.Subset.refl _)
  | _ => exact ⟨hs.nodup, hs.allocated⟩

/-- Every post answers an operation that was executed or a rejection by the full ring. -/
structure Accounted (log : List (Event ι ω β)) : Prop where
  executed : (executedIds log).Subperm ((postedKeys log).map Prod.fst)
  outcome : ∀ port m, Event.posted port m ∈ log → m.type ≠ .stop →
    m.id ∈ executedIds log ∨ m.error = some messageSendError ∧ m.errorType = .limit

lemma accounted_append {events : List (Event ι ω β)} (hl : Accounted log) (he : Accounted
    events) : Accounted (log ++ events) := by
  refine ⟨?_, ?_⟩
  · simp only [executedIds_append, postedKeys_append, map_append]
    exact hl.executed.append he.executed
  · intro port m hm ht
    simp only [executedIds_append, mem_append] at hm ⊢
    rcases hm with hm | hm
    · exact (hl.outcome port m hm ht).imp_left .inl
    · exact (he.outcome port m hm ht).imp_left .inr

lemma accounted_executionEvents (f : Fiber β) (m : Message ι ω β) :
    Accounted (executionEvents E f m) := by
  unfold executionEvents
  split
  · rename_i m' hm'
    obtain ⟨hi, ht⟩ := messageSwitch_posted hm'
    have hst : m'.type ≠ .stop := by
      intro hs
      simp [messageSwitch_posts_iff.mpr (ht ▸ hs)] at hm'
    refine ⟨?_, ?_⟩
    · simp [executedIds, postedKeys, hst, hi]
    · intro port m'' hme _
      obtain ⟨-, rfl⟩ : port = m.callbackSendPort ∧ m'' = m' := by simpa using hme
      left
      simp [executedIds, hi]
  · exact ⟨nil_subperm, by simp⟩

lemma accounted_step (h : step c E s a = some t) (hs : Accounted s.log) : Accounted t.log := by
  cases step_cases h with
  | accept k sender _ => exact accounted_append hs ⟨nil_subperm, by simp⟩
  | execute m drain _ _ => exact accounted_append hs (accounted_executionEvents s.fiber m)
  | reject m count drain _ =>
    refine accounted_append hs ⟨nil_subperm, ?_⟩
    intro port m' hm _
    obtain ⟨-, rfl⟩ : port = m.callbackSendPort ∧ m' = rejected m := by simpa using hm
    exact .inr ⟨rfl, rfl⟩
  | _ => exact hs

/-- The drain ends on an empty ring, and nothing is enqueued afterwards. -/
lemma stopped_ring_step (h : step c E s a = some t) (ht : t.control = .stopped) : t.ring = [] := by
  by_cases hs : s.control = .stopped
  · cases a <;> simp [step, Control.isStopped, dequeue, tarantoolMessageHandle, resendTry, hs] at h
  · cases step_cases h with
    | finish _ hr => exact hr
    | take => cases ht
    | bounce => cases ht
    | backoff => cases ht
    | drain => cases ht
    | execute m drain => cases drain <;> cases ht
    | resend m count drain => cases drain <;> cases ht
    | reject m count drain => cases drain <;> cases ht
    | _ => exact (hs ht).elim

/-- Everything a reachable state of the loop guarantees about its messages. -/
structure Delivered (s : Loop ι ω β) : Prop where
  conserved : Conserved s
  distinct : Distinct s
  accounted : Accounted s.log
  stopped : s.control = .stopped → s.ring = []

lemma delivered_initial : Delivered (initial c box : Loop ι ω β) :=
  ⟨conserved_initial, distinct_initial, ⟨nil_subperm, by simp [initial]⟩, by simp [initial]⟩

lemma delivered_step (h : step c E s a = some t) (hs : Delivered s) : Delivered t :=
  ⟨conserved_step h hs.conserved, distinct_step h hs.distinct, accounted_step h hs.accounted,
    stopped_ring_step h⟩

lemma delivered_reachable (h : Reachable c E box s) : Delivered s := by
  obtain ⟨actions, hr⟩ := h
  exact run_invariant (P := Delivered) delivered_step hr delivered_initial

/-- The ports to which the message at this address has been posted, in order. -/
def postedPorts (log : List (Event ι ω β)) (id : Nat) : List Nat :=
  (postedKeys log).filterMap fun key => if key.1 = id then some key.2 else none

/-- How often the message is in the ring. -/
def Loop.copies (s : Loop ι ω β) (m : Message ι ω β) : Nat :=
  ((clientKeys s.ring).map Prod.fst).count m.id

/-- The loop is inside `tarantool_message_handle` with this message. -/
def Loop.Holds (s : Loop ι ω β) (m : Message ι ω β) : Prop :=
  m.id ∈ (clientKeys s.control.inHand).map Prod.fst

def Loop.Waiting (s : Loop ι ω β) (m : Message ι ω β) : Prop :=
  s.copies m = 1 ∧ postedPorts s.log m.id = [] ∧ m.id ∉ executedIds s.log

/-- Posted once to its own port, after one execution or as rejected with `TARANTOOL_ERROR_LIMIT`. -/
def Loop.Answered (s : Loop ι ω β) (m : Message ι ω β) : Prop :=
  s.copies m = 0 ∧ postedPorts s.log m.id = [m.callbackSendPort] ∧
    ((executedIds s.log).count m.id = 1 ∨
      m.id ∉ executedIds s.log ∧ ∃ m', Event.posted m.callbackSendPort m' ∈ s.log ∧
        m'.id = m.id ∧ m'.error = some messageSendError ∧ m'.errorType = .limit)

lemma filterMap_port_eq_nil (h : id ∉ keys.map Prod.fst) :
    (keys.filterMap fun key => if key.1 = id then some key.2 else none) = [] := by
  rw [filterMap_eq_nil_iff]
  intro key hk
  have hn : key.1 ≠ id := fun he => h (mem_map.mpr ⟨key, hk, he⟩)
  simp [hn]

lemma filterMap_port_eq_singleton (hn : (keys.map Prod.fst).Nodup) (hk : (id, port) ∈ keys) :
    (keys.filterMap fun key => if key.1 = id then some key.2 else none) = [port] := by
  induction keys with
  | nil => exact nomatch hk
  | cons key keys ih =>
    obtain ⟨hh, ht⟩ := nodup_cons.mp hn
    rcases mem_cons.mp hk with rfl | hk
    · simp [filterMap_port_eq_nil hh]
    · have hne : key.1 ≠ id := by
        intro he
        exact hh (he ▸ mem_map.mpr ⟨_, hk, rfl⟩)
      simpa [hne] using ih ht hk

lemma mem_acceptedKeys (hm : Event.accepted m ∈ log) (ht : m.type ≠ .stop) :
    m.key ∈ acceptedKeys log := by
  simp only [acceptedKeys, clientKeys, mem_map, mem_filter, mem_filterMap]
  exact ⟨m, ⟨⟨_, hm, rfl⟩, by simpa using ht⟩, rfl⟩

lemma exists_posted_of_mem_postedKeys (h : (id, port) ∈ postedKeys log) :
    ∃ m, Event.posted port m ∈ log ∧ m.id = id ∧ m.type ≠ .stop := by
  obtain ⟨e, he, hk⟩ := mem_filterMap.mp h
  cases e with
  | accepted => exact nomatch hk
  | executed => exact nomatch hk
  | posted port' m =>
    by_cases hs : m.type = .stop
    · simp [hs] at hk
    · obtain ⟨rfl, rfl⟩ : m.id = id ∧ port' = port := by simpa [hs] using hk
      exact ⟨m, he, rfl, hs⟩

/-- The addresses of pending and posted messages are pairwise different. -/
lemma Delivered.nodup (h : Delivered s) :
    ((clientKeys s.control.inHand).map Prod.fst ++ ((clientKeys s.ring).map Prod.fst ++
      (postedKeys s.log).map Prod.fst)).Nodup := by
  have hn := (nodup_append.mp h.distinct.nodup).1
  have hp := h.conserved.map Prod.fst
  simpa [pending] using hp.nodup_iff.mp hn

lemma Delivered.not_answered (h : Delivered s)
    (hi : id ∈ (clientKeys s.control.inHand).map Prod.fst) :
    id ∉ (postedKeys s.log).map Prod.fst ∧ id ∉ executedIds s.log := by
  obtain ⟨-, -, hh⟩ := nodup_append.mp h.nodup
  have hp : id ∉ (postedKeys s.log).map Prod.fst := fun hp => hh _ hi _ (mem_append_right _ hp) rfl
  exact ⟨hp, fun he => hp (h.accounted.executed.subset he)⟩

/-- No message is lost or answered twice: outside `tarantool_message_handle` an accepted message
waits in the ring or has been answered, once, and the drain answers them all. -/
theorem message_conservation {s : Loop ι ω β} (h : Reachable c E box s) {m : Message ι ω β}
    (hm : Event.accepted m ∈ s.log) (ht : m.type ≠ .stop) :
    (¬ s.Holds m → s.Waiting m ∨ s.Answered m) ∧
      (s.Holds m → s.copies m = 0 ∧ postedPorts s.log m.id = [] ∧ m.id ∉ executedIds s.log) ∧
      (s.control = .stopped → s.Answered m) := by
  have hd := delivered_reachable h
  obtain ⟨-, hre, hha⟩ := nodup_append.mp hd.nodup
  obtain ⟨hri, hpo, hrp⟩ := nodup_append.mp hre
  have hke : m.key ∈ clientKeys s.control.inHand ++ clientKeys s.ring ++ postedKeys s.log := by
    simpa [pending] using hd.conserved.subset (mem_acceptedKeys hm ht)
  have hex : m.id ∈ executedIds s.log → m.id ∈ (postedKeys s.log).map Prod.fst :=
    fun he => hd.accounted.executed.subset he
  have hu (hn : m.id ∉ (postedKeys s.log).map Prod.fst) :
      postedPorts s.log m.id = [] ∧ m.id ∉ executedIds s.log :=
    ⟨filterMap_port_eq_nil hn, fun he => hn (hex he)⟩
  have han (hk : m.key ∈ postedKeys s.log) : s.Answered m := by
    have hme : m.id ∈ (postedKeys s.log).map Prod.fst := mem_map.mpr ⟨_, hk, rfl⟩
    refine ⟨count_eq_zero.mpr fun hr => hrp _ hr _ hme rfl, filterMap_port_eq_singleton hpo hk, ?_⟩
    by_cases he : m.id ∈ executedIds s.log
    · left
      obtain ⟨l, hl, hsu⟩ := hd.accounted.executed
      exact count_eq_one_of_mem (hl.nodup_iff.mp (hpo.sublist hsu)) he
    · right
      obtain ⟨m', hp, hi, hs⟩ := exists_posted_of_mem_postedKeys hk
      refine ⟨he, m', hp, hi, ?_⟩
      rcases hd.accounted.outcome _ m' hp hs with he' | hli
      · exact (he (hi ▸ he')).elim
      · exact hli
  have hh (hme : s.Holds m) : s.copies m = 0 ∧ postedPorts s.log m.id = [] ∧
      m.id ∉ executedIds s.log := by
    exact ⟨count_eq_zero.mpr fun hr =>
      hha _ hme _ (mem_append_left _ hr) rfl, hu (hd.not_answered hme).1⟩
  have hsp (hn : ¬ s.Holds m) : s.Waiting m ∨ s.Answered m := by
    rcases mem_append.mp hke with hk | hk
    · rcases mem_append.mp hk with hk | hk
      · exact (hn (mem_map.mpr ⟨_, hk, rfl⟩)).elim
      · have hme : m.id ∈ (clientKeys s.ring).map Prod.fst := mem_map.mpr ⟨_, hk, rfl⟩
        exact .inl ⟨count_eq_one_of_mem hri hme, hu fun hp => hrp _ hme _ hp rfl⟩
    · exact .inr (han hk)
  refine ⟨hsp, hh, ?_⟩
  intro hs
  rcases hsp (by simp [Holds, hs, Control.inHand]) with hw | ha
  · simp [Waiting, copies, hd.stopped hs] at hw
  · exact ha

/-- A foreign CALL is bounced once; the transaction ends, and STOP starts the drain. -/
def drainedActions : List (Action Unit Unit Unit) :=
  submit (sample 1 .begin 1) ++ submit (sample 2 .call 2) ++ submit (sample 3 .commit 1) ++
    [.loopStop (sample 4 .stop 0), .dequeue, .handle, .dequeue, .handle, .resendTry,
      .dequeue, .handle, .dequeue, .dequeue, .handle, .dequeue]

theorem message_conservation_drained : ∃ s,
    run (step sampleConfiguration sampleEngine) (initial sampleConfiguration ())
      drainedActions = some s ∧
      s.Answered { sample 2 .call 2 with callbackHandle := some 0 } := by
  have key (s : Loop Unit Unit Unit)
      (hs : run (step sampleConfiguration sampleEngine) (initial sampleConfiguration ())
        drainedActions = some s) :
      s.Answered { sample 2 .call 2 with callbackHandle := some 0 } := by
    have hr : Reachable sampleConfiguration sampleEngine () s := ⟨_, hs⟩
    cases hs
    exact (message_conservation hr (mem_of_getElem? (i := 1) rfl) (by decide)).2.2 rfl
  exact ⟨_, rfl, key _ rfl⟩

end TarantoolStorage.Binding
