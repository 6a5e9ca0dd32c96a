import TarantoolStorage.Binding.Order

/-!
The drain that follows STOP, with no further sends: the loop's fiber alone takes one step after the
other.
-/
namespace TarantoolStorage.Binding

open List Option Control Loop

variable {ι ω β : Type} {c : Configuration} {E : Engine β} {s t : Loop ι ω β} {n : Nat}
  {rest : List (Message ι ω β)}

def Control.next : Control ι ω β → Action ι ω β
  | .running | .draining | .stopped => .dequeue
  | .handling _ _ => .handle
  | .resending _ _ _ => .resendTry

def loopRun (c : Configuration) (E : Engine β) : Nat → Loop ι ω β → Option (Loop ι ω β)
  | 0, s => some s
  | n + 1, s => (step c E s s.control.next).bind (loopRun c E n)

def Ends (c : Configuration) (E : Engine β) (s : Loop ι ω β) : Prop :=
  ∃ n t, loopRun c E n s = some t ∧ t.control.isStopped = true

/-- The ring is empty or holds a message that need not be put back. -/
def Loop.Servable (s : Loop ι ω β) : Prop :=
  s.ring = [] ∨ ∃ m ∈ s.ring, isForeign s.fiber m = false

lemma loopRun_add (m n : Nat) (s : Loop ι ω β) :
    loopRun c E (m + n) s = (loopRun c E m s).bind (loopRun c E n) := by
  induction m generalizing s with
  | zero => rw [Nat.zero_add]; rfl
  | succ m ih =>
    rw [Nat.succ_add, loopRun, loopRun, bind_assoc]
    exact bind_congr fun t _ => ih t

lemma Ends.of_loopRun (h : loopRun c E n s = some t) (ht : Ends c E t) : Ends c E s := by
  obtain ⟨k, u, hk, hu⟩ := ht
  refine ⟨n + k, u, ?_, hu⟩
  rw [loopRun_add, h]
  exact hk

section

variable (hc : s.control = .draining)
include hc

lemma drain_finish (hr : s.ring = []) :
    loopRun c E 1 s = some { s with control := .stopped } := by
  simp [loopRun, hc, Control.next, step, dequeue, hr]

lemma drain_execute {m : Message ι ω β} {rest : List (Message ι ω β)} (hr : s.ring = m :: rest)
    (ho : isForeign s.fiber m = false) :
    loopRun c E 2 s = some { s with
      ring := rest
      fiber := (messageSwitch E s.fiber m).1
      control := .draining
      log := s.log ++ executionEvents E s.fiber m } := by
  simp [loopRun, hc, Control.next, step, dequeue, hr, tarantoolMessageHandle, ho, back]

lemma drain_rotate {m : Message ι ω β}
    (hr : s.ring = m :: rest) (hf : isForeign s.fiber m = true)
    (hro : s.ring.length < c.messageLoopRingSize) :
    loopRun c E 3 s = some { s with ring := rest ++ [m], control := .draining } := by
  have hfi : rest.length < c.messageLoopRingSize - 1 := by
    rw [hr, length_cons] at hro
    omega
  simp [loopRun, hc, Control.next, step, dequeue, hr, tarantoolMessageHandle, hf,
    back, resendTry, ckRingEnqueueMpsc, hfi]

lemma drain_rotate_all {waiting : List (Message ι ω β)}
    (hr : s.ring = waiting ++ rest) (hf : ∀ m ∈ waiting, isForeign s.fiber m = true)
    (hro : s.ring.length < c.messageLoopRingSize) :
    ∃ n, loopRun c E n s = some { s with ring := rest ++ waiting } := by
  induction waiting generalizing s rest with
  | nil =>
    refine ⟨0, ?_⟩
    rw [append_nil, ← hr.trans (nil_append rest)]
    rfl
  | cons m waiting ih =>
    rw [cons_append] at hr
    have hstep := drain_rotate (E := E) hc hr (hf m mem_cons_self) hro
    have hl : (waiting ++ rest ++ [m]).length < c.messageLoopRingSize := by
      rw [hr, length_cons] at hro
      rw [length_append, length_singleton]
      exact hro
    obtain ⟨n, hn⟩ := @ih { s with ring := waiting ++ rest ++ [m], control := .draining }
      (rest ++ [m]) rfl (append_assoc _ _ _)
      (fun w hw => hf w (mem_cons_of_mem m hw)) hl
    refine ⟨3 + n, ?_⟩
    rw [loopRun_add, hstep, bind_some, hn, ← hc, append_assoc]
    rfl

/-- A message that need not be put back is executed after a while. -/
lemma drain_serve (hro : s.ring.length < c.messageLoopRingSize)
    (ho : ∃ m ∈ s.ring, isForeign s.fiber m = false) :
    ∃ n t, loopRun c E n s = some t ∧ t.control = .draining ∧
      t.ring.length + 1 = s.ring.length := by
  obtain ⟨waiting, m, rest, hr, hf, hm⟩ : ∃ waiting m rest, s.ring = waiting ++ m :: rest ∧
      (∀ w ∈ waiting, isForeign s.fiber w = true) ∧ isForeign s.fiber m = false := by
    obtain ⟨own, hme, ho⟩ := ho
    obtain ⟨m, hfi⟩ := isSome_iff_exists.mp
      (find?_isSome (p := fun m => !isForeign s.fiber m) |>.mpr ⟨own, hme, by simp [ho]⟩)
    obtain ⟨hm, waiting, rest, hr, hf⟩ := find?_eq_some_iff_append.mp hfi
    exact ⟨waiting, m, rest, hr, fun w hw => by simpa using hf w hw, by simpa using hm⟩
  obtain ⟨n, hn⟩ := drain_rotate_all (E := E) hc hr hf hro
  have he := @drain_execute _ _ _ c E { s with ring := m :: rest ++ waiting } hc m
    (rest ++ waiting) rfl hm
  have hru := loopRun_add (c := c) (E := E) n 2 s
  rw [hn, bind_some, he] at hru
  refine ⟨n + 2, _, hru, rfl, ?_⟩
  simp only [hr, length_append, length_cons]
  omega

lemma ends_of_servable (hr : s.ring.length < c.messageLoopRingSize)
    (hs : ∀ n t, loopRun c E n s = some t → t.control = .draining → t.Servable) :
    Ends c E s := by
  induction hl : s.ring.length generalizing s with
  | zero => exact ⟨1, _, drain_finish hc (eq_nil_of_length_eq_zero hl), rfl⟩
  | succ k ih =>
    have ho := (hs 0 s rfl hc).resolve_left fun hni => by
      rw [hni] at hl
      cases hl
    obtain ⟨n, t, hn, ht, hsh⟩ := drain_serve (E := E) hc hr ho
    refine Ends.of_loopRun hn (ih ht (by omega) (fun i u hi hu => ?_) (by omega))
    refine hs (n + i) u ?_ hu
    rw [loopRun_add, hn]
    exact hi

end

/-- All that the drain finds is foreign, wherever its fiber stands. -/
def Stuck (c : Configuration) (s : Loop ι ω β) : Prop :=
  (∀ m ∈ s.pending, isForeign s.fiber m = true) ∧ s.pending ≠ [] ∧
    s.pending.length < c.messageLoopRingSize ∧
    (s.control = .draining ∨ (∃ m, s.control = .handling m true) ∨
      ∃ m count, s.control = .resending m count true)

lemma stuck_step (hs : Stuck c s) (h : step c E s s.control.next = some t) : Stuck c t := by
  obtain ⟨hf, hn, hr, hc | ⟨m, hc⟩ | ⟨m, count, hc⟩⟩ := hs <;>
    simp only [pending, hc, inHand, nil_append, singleton_append] at hf hn hr
  · -- a message is taken
    obtain ⟨m, rest, hri⟩ := exists_cons_of_ne_nil hn
    simp only [hc, Control.next, step, dequeue, hri, some.injEq] at h
    subst h
    rw [hri] at hf hr
    exact ⟨hf, by simp [pending], hr, .inr (.inl ⟨m, rfl⟩)⟩
  · -- it is foreign
    have hm := hf m mem_cons_self
    simp only [hc, Control.next, step, tarantoolMessageHandle, hm, if_true, some.injEq] at h
    subst h
    exact ⟨hf, by simp [pending], hr, .inr (.inr ⟨m, 0, rfl⟩)⟩
  · -- it is put back
    have hfi : s.ring.length < c.messageLoopRingSize - 1 := by
      rw [length_cons] at hr
      omega
    simp only [hc, Control.next, step, resendTry, ckRingEnqueueMpsc, hfi, if_true, some.injEq] at h
    subst h
    refine ⟨fun w hw => ?_, by simp [pending], ?_, .inl rfl⟩
    · refine hf w ?_
      simpa [pending, back, inHand, or_comm] using hw
    · simpa [pending, back, inHand] using hr

lemma stuck_loopRun (hs : Stuck c s) (h : loopRun c E n s = some t) : Stuck c t := by
  induction n generalizing s with
  | zero =>
    obtain rfl : s = t := some.inj h
    exact hs
  | succ n ih =>
    obtain ⟨u, hu, ht⟩ := bind_eq_some_iff.mp h
    exact ih (stuck_step hs hu) ht

lemma Stuck.not_stopped (hs : Stuck c s) : s.control.isStopped = false := by
  obtain ⟨-, -, -, h | ⟨m, h⟩ | ⟨m, count, h⟩⟩ := hs <;> rw [h] <;> rfl

lemma Stuck.not_ends (hs : Stuck c s) : ¬ Ends c E s := by
  rintro ⟨n, t, hn, ht⟩
  rw [(stuck_loopRun hs hn).not_stopped] at ht
  cases ht

lemma loopRun_stopped (hs : s.control.isStopped = true) (h : loopRun c E n s = some t) : n = 0 := by
  cases n with
  | zero => rfl
  | succ n =>
    obtain ⟨u, hu, -⟩ := bind_eq_some_iff.mp h
    cases hc : s.control with
    | stopped => simp [hc, Control.next, step, dequeue] at hu
    | running | draining | handling | resending =>
      rw [hc] at hs
      cases hs

/-- The ring keeps a free place for the message that is put back. -/
lemma room_step (hro : s.pending.length < c.messageLoopRingSize)
    (h : step c E s s.control.next = some t) : t.pending.length < c.messageLoopRingSize := by
  generalize ha : s.control.next = a at h
  refine Nat.lt_of_le_of_lt ?_ hro
  cases step_cases h with
  | startSend | accept | giveUp | retry | stop =>
    cases hco : s.control <;> simp [hco, Control.next] at ha
  | allocate | idle => exact Nat.le_refl _
  | take m ring drain _ _ hc hr => simp [pending, hc, hr]
  | drain m ring _ _ hc hr hm => simp [pending, hc, hr, inHand]
  | finish hc hr => simp [pending, hc, hr, inHand]
  | bounce m drain hc hf => simp [pending, hc]
  | execute m drain hc hf => simp [pending, hc]
  | resend m count drain hc => simp [pending, hc]
  | reject m count drain hc => simp [pending, hc]
  | backoff m count drain hc => simp [pending, hc]

lemma room_loopRun (hr : s.pending.length < c.messageLoopRingSize)
    (h : loopRun c E n s = some t) : t.pending.length < c.messageLoopRingSize := by
  induction n generalizing s with
  | zero =>
    obtain rfl : s = t := some.inj h
    exact hr
  | succ n ih =>
    obtain ⟨u, hu, ht⟩ := bind_eq_some_iff.mp h
    exact ih (room_step hr hu) ht

lemma pending_draining (hc : s.control = .draining) : s.pending = s.ring := by
  rw [pending, hc]
  rfl

lemma stuck_of_not_servable (hc : s.control = .draining)
    (hr : s.ring.length < c.messageLoopRingSize) (hn : ¬ s.Servable) : Stuck c s := by
  obtain ⟨hne, hf⟩ := not_or.mp hn
  rw [Stuck, pending_draining hc]
  refine ⟨fun m hm => ?_, hne, hr, .inl hc⟩
  by_contra h
  exact hf ⟨m, hm, by simpa using h⟩

/-- The drain ends exactly if it never finds a ring of foreign messages only. -/
theorem drain_ends_iff (hcontrol : s.control = .draining)
    (hroom : s.ring.length < c.messageLoopRingSize) :
    Ends c E s ↔ ∀ n t, loopRun c E n s = some t → t.control = .draining → t.Servable := by
  refine ⟨?_, ends_of_servable hcontrol hroom⟩
  rintro ⟨k, u, hk, hu⟩ n t hn ht
  by_contra hnot
  have hroom' := room_loopRun (by rwa [pending_draining hcontrol]) hn
  rw [pending_draining ht] at hroom'
  have hs := stuck_of_not_servable ht hroom' hnot
  rcases Nat.le_total n k with hl | hl
  · -- the ring was found before the end
    obtain ⟨d, rfl⟩ := Nat.exists_eq_add_of_le hl
    rw [loopRun_add, hn] at hk
    exact hs.not_ends ⟨d, u, hk, hu⟩
  · obtain ⟨d, rfl⟩ := Nat.exists_eq_add_of_le hl
    rw [loopRun_add, hk] at hn
    obtain rfl : d = 0 := loopRun_stopped hu hn
    obtain rfl : u = t := some.inj hn
    rw [ht] at hu
    cases hu

/-- The messages of a second client wait until the first one commits. -/
def handedOver : Loop Unit Unit Unit :=
  { initial sampleConfiguration () with
    ring := [sample 1 .call 2, sample 2 .call 1, sample 3 .commit 1, sample 4 .call 2]
    active := false
    fiber := ⟨some ⟨some 1, 0⟩, 1, none, ()⟩
    control := .draining }

theorem drain_ends_handedOver : Ends sampleConfiguration sampleEngine handedOver ∧
    ∀ n t, loopRun sampleConfiguration sampleEngine n handedOver = some t →
      t.control = .draining → t.Servable := by
  have he : Ends sampleConfiguration sampleEngine handedOver := ⟨12, _, rfl, rfl⟩
  exact ⟨he, (drain_ends_iff rfl (by decide)).mp he⟩

/-- The first client has begun a transaction and is gone; a message of a second one is in the ring
when STOP is taken from it. -/
def abandonedActions : List (Action Unit Unit Unit) :=
  submit (sample 1 .begin 1) ++ [.loopStop (sample 2 .stop 0)] ++ submit (sample 3 .call 2) ++
    [.dequeue, .handle, .dequeue]

theorem abandoned_never_ends : ∃ s,
    Transition.run (step sampleConfiguration sampleEngine) (initial sampleConfiguration ())
      abandonedActions = some s ∧ s.control = .draining ∧
      ¬ Ends sampleConfiguration sampleEngine s := by
  refine ⟨_, rfl, rfl, Stuck.not_ends ?_⟩
  exact ⟨forall_mem_singleton.mpr rfl, cons_ne_nil _ _, by decide, .inl rfl⟩

/-- A ring with messages of the one owner that `transaction_owner` names is drained, whatever its
transactions do. -/
theorem ends_of_single_owner (hc : s.control = .draining)
    (ho : ∀ m ∈ s.ring, m.owner = s.fiber.transactionOwner) : Ends c E s := by
  induction hr : s.ring generalizing s with
  | nil => exact ⟨1, _, drain_finish hc hr, rfl⟩
  | cons m rest ih =>
    have hm := ho m (by simp [hr])
    have how : isForeign s.fiber m = false := by simp [isForeign, hm]
    refine Ends.of_loopRun (drain_execute hc hr how) (ih rfl ?_ rfl)
    intro w hw
    have hwo := ho w (by simp [hr, show w ∈ rest from hw])
    rcases messageSwitch_owner (E := E) s.fiber m with h | h
    · exact hwo.trans h.symm
    · exact hwo.trans (hm.symm.trans h.symm)

theorem ends_of_single_owner_handedOver : Ends sampleConfiguration sampleEngine
    { handedOver with ring := [sample 2 .call 1, sample 3 .commit 1, sample 5 .call 1] } :=
  ends_of_single_owner rfl (by decide)

end TarantoolStorage.Binding
