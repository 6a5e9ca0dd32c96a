import Mathlib

/-!
The member table of a SWIM instance: how definitions and quit messages change it. Events, pings
and dissemination counters are left out.
-/
namespace TarantoolStorage.Swim

inductive MemberStatus where
  | alive | suspected | dead | left
  deriving DecidableEq

/-- Statuses are compared by their identifier. -/
def MemberStatus.id : MemberStatus → Nat
  | alive => 0
  | suspected => 1
  | dead => 2
  | left => 3

@[ext] structure Incarnation where
  generation : Nat
  version : Nat

/-- `swim_incarnation_diff` -/
def swimIncarnationDiff (l r : Incarnation) : Int :=
  if l.generation = r.generation ∧ l.version = r.version then 0
  else if l.generation < r.generation then -1
  else if l.generation > r.generation then 1
  else if l.version < r.version then -1 else 1

structure Member where
  addr : Nat
  status : MemberStatus
  incarnation : Incarnation
  payload : List UInt8
  isPayloadUpToDate : Bool

structure MemberDef where
  uuid : Nat
  addr : Nat
  incarnation : Incarnation
  status : MemberStatus
  /-- `payload_size` is negative when the definition carries none. -/
  payload : Option (List UInt8)

/-- `struct swim`: the own member is in the table too, under the own UUID. -/
structure Instance where
  uuid : Nat
  self : Member
  others : Nat → Option Member
  gcMode : Bool

/-- A refused `realloc` leaves the member as it is. -/
def swimUpdateMemberPayload (isOom : Bool) (payload : List UInt8) (member : Member) : Member :=
  if payload ≠ [] ∧ isOom then member else { member with payload, isPayloadUpToDate := true }

def swimUpdateMemberIncStatus (newStatus : MemberStatus) (incarnation : Incarnation)
    (member : Member) : Member :=
  let cmp := swimIncarnationDiff member.incarnation incarnation
  if cmp < 0 then { member with status := newStatus, incarnation }
  else if cmp = 0 ∧ member.status.id < newStatus.id then { member with status := newStatus }
  else member

/-- The address and the payload, before the incarnation is taken over. -/
def swimUpdateMemberData (isOom : Bool) (d : MemberDef) (member : Member) : Member :=
  if swimIncarnationDiff d.incarnation member.incarnation > 0 then
    match d.payload with
    | some payload => swimUpdateMemberPayload isOom payload { member with addr := d.addr }
    | none => { member with addr := d.addr, isPayloadUpToDate := false }
  else match d.payload with
    | some payload =>
      if member.isPayloadUpToDate then member else swimUpdateMemberPayload isOom payload member
    | none => member

def swimUpdateMember (isOom : Bool) (d : MemberDef) (member : Member) : Member :=
  swimUpdateMemberIncStatus d.status d.incarnation (swimUpdateMemberData isOom d member)

/-- `swim_member_new` and the payload; the member is deleted when that is out of memory. -/
def swimNewMember (isOom : Bool) (d : MemberDef) : Option Member :=
  if isOom then none
  else some ⟨d.addr, d.status, d.incarnation, d.payload.getD [], d.payload.isSome⟩

def Incarnation.next (i : Incarnation) : Incarnation :=
  { i with version := (i.version + 1) % 2 ^ 64 }

/-- The end of `swim_upsert_member`, for a definition of this very instance. -/
def swimUpdateSelf (d : MemberDef) (self : Member) : Member :=
  let cmp := swimIncarnationDiff d.incarnation self.incarnation
  let self := if cmp > 0 then { self with incarnation := d.incarnation } else self
  if d.status ≠ .alive ∧ cmp = 0 then { self with incarnation := self.incarnation.next } else self

/-- The same for a definition of another member, if the table has it. -/
def swimUpsertOther (gcMode isOom isDirect : Bool) (d : MemberDef) : Option Member → Option Member
  | none =>
    if d.status = .left ∨ d.status = .dead ∧ gcMode then none
    -- Only a ping tells whether the member is alive.
    else if d.status.id < MemberStatus.dead.id ∧ ¬isDirect then none
    else swimNewMember isOom d
  | some member =>
    if swimIncarnationDiff d.incarnation member.incarnation < 0 then some member
    else some (swimUpdateMember isOom d member)

/-- `swim_find_member`, and what is done with the own member and with another one. -/
def Instance.visit (swim : Instance) (uuid : Nat) (onSelf : Member → Member)
    (onOther : Option Member → Option Member) : Instance :=
  if uuid = swim.uuid then { swim with self := onSelf swim.self }
  else { swim with others := Function.update swim.others uuid (onOther (swim.others uuid)) }

def swimUpsertMember (isOom isDirect : Bool) (d : MemberDef) (swim : Instance) : Instance :=
  swim.visit d.uuid (swimUpdateSelf d) (swimUpsertOther swim.gcMode isOom isDirect d)

def swimQuitSelf (incarnation : Incarnation) (self : Member) : Member :=
  if swimIncarnationDiff incarnation self.incarnation ≥ 0 then
    { self with incarnation := incarnation.next }
  else self

/-- `swim_process_quit`, once the message is decoded. -/
def swimProcessQuit (uuid : Nat) (incarnation : Incarnation) (swim : Instance) : Instance :=
  swim.visit uuid (swimQuitSelf incarnation)
    (Option.map (swimUpdateMemberIncStatus .left incarnation))

inductive Message where
  | definition (isOom isDirect : Bool) (d : MemberDef)
  | quit (uuid : Nat) (incarnation : Incarnation)

def Instance.process (swim : Instance) : Message → Instance
  | .definition isOom isDirect d => swimUpsertMember isOom isDirect d swim
  | .quit uuid incarnation => swimProcessQuit uuid incarnation swim

namespace Message

/-- A quit message says that its sender has left. -/
def gossip : Message → MemberDef
  | definition _ _ d => d
  | quit uuid incarnation => ⟨uuid, 0, incarnation, .left, none⟩

def onSelf : Message → Member → Member
  | definition _ _ d => swimUpdateSelf d
  | quit _ incarnation => swimQuitSelf incarnation

def onOther (gcMode : Bool) : Message → Option Member → Option Member
  | definition isOom isDirect d => swimUpsertOther gcMode isOom isDirect d
  | quit _ incarnation => Option.map (swimUpdateMemberIncStatus .left incarnation)

end Message

instance instLinearOrderIncarnation : LinearOrder Incarnation :=
  LinearOrder.lift' (fun i => toLex (i.generation, i.version)) fun a b h => by
    simpa [Incarnation.ext_iff] using h

variable {l r i : Incarnation} {m : Member} {d : MemberDef} {swim : Instance} {msg : Message}

lemma incarnation_lt_iff :
    l < r ↔ l.generation < r.generation ∨ l.generation = r.generation ∧ l.version < r.version :=
  Prod.Lex.toLex_lt_toLex

lemma diff_eq_zero : swimIncarnationDiff l r = 0 ↔ l = r := by
  rw [swimIncarnationDiff, Incarnation.ext_iff]
  split_ifs <;> simp <;> omega

lemma diff_neg : swimIncarnationDiff l r < 0 ↔ l < r := by
  rw [swimIncarnationDiff, incarnation_lt_iff]
  split_ifs <;> omega

lemma diff_pos : swimIncarnationDiff l r > 0 ↔ r < l := by
  rw [swimIncarnationDiff, incarnation_lt_iff]
  split_ifs <;> omega

lemma diff_nonneg : swimIncarnationDiff l r ≥ 0 ↔ r ≤ l := by
  rw [ge_iff_le, ← not_lt, diff_neg, not_lt]

lemma lt_next (hv : i.version < 2 ^ 64 - 1) : i < i.next :=
  incarnation_lt_iff.mpr (.inr ⟨rfl, by simp only [Incarnation.next]; omega⟩)

lemma process_eq :
    swim.process msg = swim.visit msg.gossip.uuid msg.onSelf (msg.onOther swim.gcMode) := by
  cases msg <;> rfl

/-- A greater incarnation is taken over, a rumour at an equal one refuted. -/
lemma updateSelf_incarnation : (swimUpdateSelf d m).incarnation =
    if d.status ≠ .alive ∧ d.incarnation = m.incarnation then m.incarnation.next
    else max m.incarnation d.incarnation := by
  simp only [swimUpdateSelf, diff_eq_zero, diff_pos]
  split_ifs with h₁ h₂ h₂
  · exact absurd h₁.2 h₂.ne'
  · rfl
  · exact (max_eq_right h₂.le).symm
  · exact (max_eq_left (not_lt.mp h₂)).symm

lemma onSelf_status : (msg.onSelf m).status = m.status := by
  cases msg <;> simp only [Message.onSelf, swimUpdateSelf, swimQuitSelf] <;> split_ifs <;> rfl

lemma updateSelf_spec (m : Member) (hv : d.incarnation.version < 2 ^ 64 - 1) :
    m.incarnation ≤ (swimUpdateSelf d m).incarnation ∧
    (d.status ≠ .alive →
      (d.incarnation < (swimUpdateSelf d m).incarnation ↔ d.incarnation ≤ m.incarnation)) := by
  rw [updateSelf_incarnation]
  split_ifs with h
  · rw [← h.2]
    exact ⟨(lt_next hv).le, fun _ => iff_of_true (lt_next hv) le_rfl⟩
  · refine ⟨le_max_left .., fun hd => ?_⟩
    -- A rumour that is not refuted is older, or it is taken over.
    rw [lt_max_iff, or_iff_left (lt_irrefl _)]
    exact (Ne.le_iff_lt fun he => h ⟨hd, he⟩).symm

lemma quitSelf_spec (m : Member) (hv : i.version < 2 ^ 64 - 1) :
    m.incarnation ≤ (swimQuitSelf i m).incarnation ∧ i < (swimQuitSelf i m).incarnation := by
  simp only [swimQuitSelf, diff_nonneg]
  split_ifs with h
  · exact ⟨h.trans (lt_next hv).le, lt_next hv⟩
  · exact ⟨le_rfl, not_le.mp h⟩

lemma process_self (hu : msg.gossip.uuid = swim.uuid) :
    (swim.process msg).self = msg.onSelf swim.self ∧ (swim.process msg).uuid = swim.uuid := by
  simp [process_eq, Instance.visit, hu]

lemma foldl_process_self (swim : Instance) (msgs : List Message)
    (hu : ∀ msg ∈ msgs, msg.gossip.uuid = swim.uuid) :
    (msgs.foldl Instance.process swim).uuid = swim.uuid ∧
    (msgs.foldl Instance.process swim).self.status = swim.self.status := by
  induction msgs generalizing swim with
  | nil => exact ⟨rfl, rfl⟩
  | cons msg msgs ih =>
    obtain ⟨hm, hms⟩ := List.forall_mem_cons.mp hu
    obtain ⟨hself, he⟩ := process_self hm
    obtain ⟨hi, hst⟩ := ih (swim.process msg) (by rwa [he])
    exact ⟨hi.trans he, hst.trans (hself ▸ onSelf_status)⟩

/-- An instance refutes the rumours it receives about itself exactly when no definition declares
it suspected, dead or left at an incarnation above its own: that one is taken over as it is. -/
theorem rumours_refuted_iff (swim : Instance) (msgs : List Message) (hs : swim.self.status = .alive)
    (hm : ∀ msg ∈ msgs, msg.gossip.uuid = swim.uuid ∧ msg.gossip.incarnation.version < 2 ^ 64 - 1) :
    (∀ before msg after, msgs = before ++ msg :: after →
      let old := (before.foldl Instance.process swim).self
      let new := ((before.foldl Instance.process swim).process msg).self
      new.status = .alive ∧ old.incarnation ≤ new.incarnation ∧
        (msg.gossip.status ≠ .alive → msg.gossip.incarnation < new.incarnation)) ↔
    ∀ before msg after, msgs = before ++ msg :: after → ∀ isOom isDirect d,
      msg = .definition isOom isDirect d → d.status ≠ .alive →
        d.incarnation ≤ (before.foldl Instance.process swim).self.incarnation := by
  refine forall₄_congr fun before msg after he => ?_
  obtain ⟨hmu, hv⟩ := hm msg (by simp [he])
  obtain ⟨hu, hst⟩ := foldl_process_self swim before fun x hx => (hm x (by simp [he, hx])).1
  rw [(process_self (hmu.trans hu.symm)).1]
  have hal : (msg.onSelf _).status = .alive := onSelf_status.trans (hst.trans hs)
  cases msg with
  | definition isOom isDirect d =>
    have hd := updateSelf_spec (before.foldl Instance.process swim).self hv
    refine ⟨fun h _ _ e he hne => ?_, fun h => ⟨hal, hd.1, fun hne => ?_⟩⟩
    · cases he
      exact (hd.2 hne).mp (h.2.2 hne)
    · exact (hd.2 hne).mpr (h _ _ d rfl hne)
  | quit uuid incarnation =>
    obtain ⟨hle, hlt⟩ := quitSelf_spec (before.foldl Instance.process swim).self hv
    exact iff_of_true ⟨hal, hle, fun _ => hlt⟩ nofun

/-- Another instance knows this one as dead at a later version; that version is taken over. -/
theorem rumour_taken_over :
    let swim : Instance := ⟨1, ⟨0, .alive, ⟨0, 0⟩, [], true⟩, fun _ => none, false⟩
    let rumour : MemberDef := ⟨1, 0, ⟨0, 1⟩, .dead, none⟩
    (swim.process (.definition false false rumour)).self.incarnation = rumour.incarnation ∧
      ¬rumour.incarnation < (swim.process (.definition false false rumour)).self.incarnation :=
  ⟨rfl, lt_irrefl _⟩

/-- A quit, and then a definition that has this instance as dead at the incarnation it took. -/
theorem rumour_refuted :
    let swim : Instance := ⟨1, ⟨0, .alive, ⟨0, 0⟩, [], true⟩, fun _ => none, false⟩
    let rumour : MemberDef := ⟨1, 0, ⟨0, 6⟩, .dead, none⟩
    (swim.process (.quit 1 ⟨0, 5⟩)).self.incarnation = rumour.incarnation ∧
      rumour.incarnation < ([.quit 1 ⟨0, 5⟩, .definition false false rumour].foldl
        Instance.process swim).self.incarnation := by
  intro swim rumour
  refine ⟨rfl, ((rumours_refuted_iff swim [.quit 1 ⟨0, 5⟩, .definition false false rumour] rfl
    (by simp [swim, rumour, Message.gossip])).mpr ?_ [.quit 1 ⟨0, 5⟩] _ [] rfl).2.2 (by decide)⟩
  rintro (_ | ⟨m, _ | ⟨m', before⟩⟩) msg after he isOom isDirect d rfl hne
  · cases he
  · cases he
    exact le_rfl
  · simp at he

def MemberDef.key (d : MemberDef) : Incarnation ×ₗ Nat :=
  toLex (d.incarnation, d.status.id)

def Member.key (m : Member) : Incarnation ×ₗ Nat :=
  toLex (m.incarnation, m.status.id)

lemma key_le {a b : Nat} (h : l < r ∨ l = r ∧ a ≤ b) : toLex (l, a) ≤ toLex (r, b) :=
  Prod.Lex.toLex_le_toLex.mpr h

lemma incStatus_key {s : MemberStatus} :
    (swimUpdateMemberIncStatus s i m).key = max m.key (toLex (i, s.id)) := by
  simp only [swimUpdateMemberIncStatus, diff_neg, diff_eq_zero, Member.key]
  symm
  split_ifs with h₁ h₂
  · exact max_eq_right (key_le (.inl h₁))
  · obtain ⟨rfl, hs⟩ := h₂
    exact max_eq_right (key_le (.inr ⟨rfl, hs.le⟩))
  · refine max_eq_left (key_le ?_)
    rcases (not_lt.mp h₁).lt_or_eq with h | h
    · exact .inl h
    · exact .inr ⟨h, not_lt.mp fun hs => h₂ ⟨h.symm, hs⟩⟩

lemma updateMemberData_key {isOom : Bool} : (swimUpdateMemberData isOom d m).key = m.key := by
  unfold swimUpdateMemberData swimUpdateMemberPayload
  split_ifs <;> split <;> (try split_ifs) <;> rfl

/-- What a message makes of a member that is known. -/
def Message.update : Message → Member → Member
  | definition isOom _ d, m =>
    if d.incarnation < m.incarnation then m else swimUpdateMember isOom d m
  | quit _ incarnation, m => swimUpdateMemberIncStatus .left incarnation m

lemma onOther_some (gcMode : Bool) : msg.onOther gcMode (some m) = some (msg.update m) := by
  cases msg with
  | definition isOom isDirect d =>
    simp only [Message.onOther, swimUpsertOther, diff_neg, Message.update]
    split_ifs <;> rfl
  | quit uuid incarnation => rfl

lemma update_key : (msg.update m).key = max m.key msg.gossip.key := by
  cases msg with
  | definition isOom isDirect d =>
    rw [Message.update]
    split_ifs with h
    · exact (max_eq_left (key_le (.inl h))).symm
    · exact incStatus_key.trans (by rw [updateMemberData_key]; rfl)
  | quit uuid incarnation => exact incStatus_key

lemma foldl_others {uuid : Nat} (swim : Instance) (msgs : List Message) (hu : uuid ≠ swim.uuid)
    (hm : swim.others uuid = some m) (hms : ∀ msg ∈ msgs, msg.gossip.uuid = uuid) :
    (msgs.foldl Instance.process swim).others uuid =
      some (msgs.foldl (fun m msg => msg.update m) m) := by
  induction msgs generalizing swim m with
  | nil => exact hm
  | cons msg msgs ih =>
    obtain ⟨rfl, hms⟩ := List.forall_mem_cons.mp hms
    have hp : swim.process msg = swim.visit _ _ _ := process_eq
    rw [Instance.visit, if_neg hu, hm, onOther_some] at hp
    exact ih _ (by rwa [hp]) (by simp [hp]) hms

/-- What there is to know at an incarnation. -/
structure View where
  incarnation : Incarnation
  addr : Nat
  payload : Option (List UInt8)

def Member.view (m : Member) : View :=
  ⟨m.incarnation, m.addr, if m.isPayloadUpToDate then some m.payload else none⟩

def View.learn (v : View) (d : MemberDef) : View :=
  if v.incarnation < d.incarnation then ⟨d.incarnation, d.addr, d.payload⟩
  else if v.incarnation = d.incarnation then { v with payload := v.payload.or d.payload }
  else v

lemma incStatus_view {s : MemberStatus} (h : m.incarnation ≤ i) :
    (swimUpdateMemberIncStatus s i m).view = { m.view with incarnation := i } := by
  simp only [swimUpdateMemberIncStatus, diff_neg, diff_eq_zero]
  rcases h.lt_or_eq with h | rfl
  · rw [if_pos h]
    rfl
  · split_ifs <;> rfl

lemma update_view {isDirect : Bool} :
    ((Message.definition false isDirect d).update m).view = m.view.learn d := by
  rcases lt_or_ge d.incarnation m.incarnation with h | h
  · simp [Message.update, View.learn, Member.view, h, h.not_gt, h.ne']
  have hi : (swimUpdateMemberData false d m).incarnation = m.incarnation :=
    congrArg (fun k => (ofLex k).1) updateMemberData_key
  rw [Message.update, if_neg h.not_gt, swimUpdateMember, incStatus_view (hi.trans_le h)]
  simp only [swimUpdateMemberData, swimUpdateMemberPayload, diff_pos, View.learn]
  rcases d.payload with _ | p <;> rcases h.lt_or_eq with h | h
  all_goals cases hf : m.isPayloadUpToDate <;> simp [Member.view, h, hf]

/-- Definitions that agree where they have one incarnation are learned in any order. -/
lemma learn_comm (v : View) {d e : MemberDef} (ha : d.incarnation = e.incarnation →
    d.addr = e.addr ∧ ∀ p ∈ d.payload, ∀ q ∈ e.payload, p = q) :
    (v.learn d).learn e = (v.learn e).learn d := by
  have hp (he : d.incarnation = e.incarnation) :
      d.payload.or e.payload = e.payload.or d.payload := by
    have hpq := (ha he).2
    cases hd : d.payload <;> cases he : e.payload <;> simp
    exact hpq _ hd _ he
  simp only [View.learn]
  grind

lemma learn_learn (v : View) (d : MemberDef) : (v.learn d).learn d = v.learn d := by
  simp only [View.learn]
  grind

section Fold

variable {α β : Type} {f : β → α → β} {xs ys : List α}
  (hc : ∀ x ∈ xs, ∀ y ∈ xs, ∀ z, f (f z x) y = f (f z y) x) (hi : ∀ x z, f (f z x) x = f z x)
include hc hi

/-- What is still to come may come earlier too. -/
lemma foldl_absorb {x : α} (hx : x ∈ xs) (z : β) : xs.foldl f (f z x) = xs.foldl f z := by
  induction xs generalizing z with
  | nil => cases hx
  | cons y xs ih =>
    rw [List.foldl_cons, List.foldl_cons]
    rcases List.mem_cons.mp hx with rfl | hx
    · rw [hi]
    · rw [hc x (.tail y hx) y (.head xs)]
      exact ih (fun a ha b hb => hc a (.tail y ha) b (.tail y hb)) hx _

lemma foldl_absorb_all (hy : ∀ y ∈ ys, y ∈ xs) (z : β) :
    xs.foldl f (ys.foldl f z) = xs.foldl f z := by
  induction ys generalizing z with
  | nil => rfl
  | cons y ys ih =>
    obtain ⟨hyx, hys⟩ := List.forall_mem_cons.mp hy
    rw [List.foldl_cons, ih hys, foldl_absorb hc hi hyx]

/-- Neither the order nor the number of repetitions matters. -/
lemma foldl_eq_of_mem_iff (hm : ∀ x, x ∈ xs ↔ x ∈ ys) (z : β) : xs.foldl f z = ys.foldl f z := by
  have hs {x} (hx : x ∈ xs ++ ys) : x ∈ xs := by simpa [hm] using hx
  have hcomm := List.perm_append_comm.foldl_eq' (fun x hx y hy => hc x (hs hx) y (hs hy)) z
  rw [List.foldl_append, List.foldl_append] at hcomm
  have hx := foldl_absorb_all hc hi (fun y hy => (hm y).mpr hy) z
  simp only [hm] at hc
  have hy := foldl_absorb_all hc hi (fun x hx => (hm x).mp hx) z
  exact hx.symm.trans (hcomm.symm.trans hy)

end Fold

/-- Gossip about another member converges: its incarnation and status become the greatest ones
received, and definitions that agree leave one address and payload in whatever order. -/
theorem gossip_converges (swim : Instance) (uuid : Nat) (member : Member) (hu : uuid ≠ swim.uuid)
    (hm : swim.others uuid = some member) :
    (∀ msgs : List Message, (∀ msg ∈ msgs, msg.gossip.uuid = uuid) → ∃ final,
      (msgs.foldl Instance.process swim).others uuid = some final ∧
        final.key = (msgs.map (·.gossip.key)).foldl max member.key) ∧
    ∀ ds ds' : List (Bool × MemberDef), (∀ d, d ∈ ds ↔ d ∈ ds') → (∀ d ∈ ds, d.2.uuid = uuid) →
      (∀ d ∈ ds, ∀ e ∈ ds, d.2.incarnation = e.2.incarnation →
        d.2.addr = e.2.addr ∧ ∀ p ∈ d.2.payload, ∀ q ∈ e.2.payload, p = q) →
      let received (ds : List (Bool × MemberDef)) :=
        ((ds.map fun d => Message.definition false d.1 d.2).foldl Instance.process swim).others uuid
      ∃ final final', received ds = some final ∧ received ds' = some final' ∧
        final.addr = final'.addr ∧ final.isPayloadUpToDate = final'.isPayloadUpToDate ∧
        (final.isPayloadUpToDate → final.payload = final'.payload) := by
  refine ⟨fun msgs hmsgs => ⟨_, foldl_others swim msgs hu hm hmsgs, ?_⟩, ?_⟩
  · rw [List.foldl_map]
    exact (List.foldl_hom Member.key fun _ _ => update_key.symm).symm
  intro ds ds' hds hdu ha
  have hr (es : List (Bool × MemberDef)) (hes : ∀ d ∈ es, d.2.uuid = uuid) :=
    foldl_others swim (es.map fun d => Message.definition false d.1 d.2) hu hm fun msg h => by
      obtain ⟨d, hd, rfl⟩ := List.mem_map.mp h
      exact hes d hd
  have hv (es : List (Bool × MemberDef)) : es.foldl (fun v d => v.learn d.2) member.view =
      (es.foldl (fun m d => (Message.definition false d.1 d.2).update m) member).view :=
    List.foldl_hom Member.view fun _ _ => update_view.symm
  have hview := foldl_eq_of_mem_iff (f := fun v d => v.learn d.2)
    (fun d hd e he v => learn_comm v (ha d hd e he)) (fun d v => learn_learn v d.2) hds member.view
  rw [hv, hv] at hview
  simp only [Member.view, View.mk.injEq] at hview
  refine ⟨_, _, hr ds hdu, hr ds' (by simpa [hds] using hdu), ?_⟩
  simp only [List.foldl_map]
  obtain ⟨-, haddr, hp⟩ := hview
  refine ⟨haddr, ?_⟩
  split_ifs at hp <;> simp_all

/-- Two definitions of one incarnation, of which one has the payload, and an older one. -/
def threeDefs : List (Bool × MemberDef) :=
  [(false, ⟨2, 7, ⟨0, 3⟩, .suspected, none⟩), (true, ⟨2, 7, ⟨0, 3⟩, .alive, some [8]⟩),
    (false, ⟨2, 5, ⟨0, 2⟩, .dead, some [9]⟩)]

theorem gossip_converges_of_three :
    let swim : Instance := ⟨1, ⟨0, .alive, ⟨0, 1⟩, [], true⟩,
      fun _ => some ⟨0, .alive, ⟨0, 1⟩, [], true⟩, false⟩
    let msgs (ds : List (Bool × MemberDef)) := ds.map fun d => Message.definition false d.1 d.2
    (∃ final, (((msgs threeDefs).foldl Instance.process swim).others 2) = some final ∧
      final.key = toLex (⟨0, 3⟩, 1)) ∧
    ∃ final final', ((msgs threeDefs).foldl Instance.process swim).others 2 = some final ∧
      ((msgs threeDefs.reverse).foldl Instance.process swim).others 2 = some final' ∧
      final.addr = final'.addr ∧ final.isPayloadUpToDate = final'.isPayloadUpToDate ∧
      (final.isPayloadUpToDate → final.payload = final'.payload) := by
  intro swim msgs
  obtain ⟨hk, ho⟩ := gossip_converges swim 2 _ (by decide) rfl
  obtain ⟨final, hf, hfk⟩ := hk (msgs threeDefs) (by simp [msgs, threeDefs, Message.gossip])
  refine ⟨⟨final, hf, hfk.trans (by decide)⟩, ho threeDefs threeDefs.reverse ?_ ?_ ?_⟩
  · simp
  · simp [threeDefs]
  · simp [threeDefs]

end TarantoolStorage.Swim
