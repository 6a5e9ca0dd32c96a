import TarantoolStorage.Limbo.Queue

/-!
Who owns the limbo. Requests are filtered by the term of their own origin, but the last one applied
sets the owner.
-/
namespace TarantoolStorage

open Checked Transition List Option TxnLimbo

/-- What happens to a limbo: a request is processed, or transactions of the owner come and go. -/
inductive LimboAction where
  | process (req : SynchroRequest)
  | transactions (queue : List LimboEntry) (confirmedLsn : Int)

def TxnLimbo.step (l : TxnLimbo) : LimboAction → Option TxnLimbo
  | .process req => txnLimboProcess l req
  | .transactions queue confirmedLsn =>
    some { l with queue := queue, len := queue.length, confirmedLsn := confirmedLsn }

structure SynchroRequest.Issued (req : SynchroRequest) : Prop where
  type : req.type.isPromoteRequest = true
  origin_ne : req.originId ≠ replicaIdNil
  origin_lt : req.originId < vclockMax
  term_gt : 1 < req.term
  term_lt : req.term < 2 ^ 63
  lsn_eq : req.replicaId = replicaIdNil → req.lsn = 0

/-- Transactions enter only a limbo that is owned, and are written before the next request. -/
def TxnLimbo.Valid (l : TxnLimbo) : LimboAction → Prop
  | .process req => req.Issued
  | .transactions queue _ => l.ownerId ≠ replicaIdNil ∧ Written queue

def LimboAction.request? : LimboAction → Option SynchroRequest
  | .process req => some req
  | .transactions _ _ => none

def requests (actions : List LimboAction) : List SynchroRequest :=
  actions.filterMap LimboAction.request?

def SynchroRequest.newOwner (req : SynchroRequest) : Nat :=
  match req.type with
  | .promote => req.originId
  | _ => replicaIdNil

/-- A request of a smaller term than one applied before changes nothing. -/
def TxnLimbo.Undisturbed (l : TxnLimbo) (a : LimboAction) : Prop :=
  ∀ req, a = .process req → req.term < l.promoteGreatestTerm → ∀ l', l.step a = some l' →
    l'.ownerId = l.ownerId ∧ l'.confirmedLsn = l.confirmedLsn ∧ l'.queue = l.queue

/-- After the earlier requests this one is not late, or its origin has issued a later one, or it
clears an ownership that the greatest of them has cleared. -/
def Harmless (earlier : List SynchroRequest) (req : SynchroRequest) : Prop :=
  (∀ e ∈ earlier, e.term < req.term) ∨
    (∃ e ∈ earlier, e.originId = req.originId ∧ req.term < e.term) ∨
    req.type = .demote ∧ ∃ e ∈ earlier, e.type = .demote ∧ ∀ d ∈ earlier, d.term ≤ e.term

def InTermOrder : List SynchroRequest → List SynchroRequest → Prop
  | _, [] => True
  | earlier, req :: reqs => Harmless earlier req ∧ InTermOrder (earlier ++ [req]) reqs

/-- How the terms of a limbo come from the requests it has processed. -/
structure TxnLimbo.Tracks (l : TxnLimbo) (seen : List SynchroRequest) : Prop where
  written : Written l.queue
  unclaimed : l.ownerId = replicaIdNil → l.queue = [] ∧ l.confirmedLsn = 0
  issued : ∀ e ∈ seen, e.Issued
  bounded : ∀ id, 0 ≤ vclockGet l.promoteTermMap id ∧ vclockGet l.promoteTermMap id < 2 ^ 63
  term_le : ∀ e ∈ seen, e.term ≤ txnLimboReplicaTerm l e.originId
  le_greatest : ∀ e ∈ seen, e.term ≤ l.promoteGreatestTerm
  of_origin : ∀ id, txnLimboReplicaTerm l id ≠ 0 →
    ∃ e ∈ seen, e.originId = id ∧ e.term = txnLimboReplicaTerm l id
  greatest : l.promoteGreatestTerm ≠ 0 → ∃ e ∈ seen, e.term = l.promoteGreatestTerm

/-- The owner is the one that the greatest request asks for. -/
def TxnLimbo.Follows (l : TxnLimbo) (seen : List SynchroRequest) : Prop :=
  ∀ e ∈ seen, e.term = l.promoteGreatestTerm → l.ownerId = e.newOwner

variable {l l' : TxnLimbo} {req : SynchroRequest} {seen : List SynchroRequest}
  {actions : List LimboAction}

lemma tracks_create : txnLimboCreate.Tracks [] where
  written := written_nil
  unclaimed := fun _ => ⟨rfl, rfl⟩
  issued := fun _ he => nomatch he
  bounded := fun _ => by simp [txnLimboCreate, vclockGet, vclockCreate]
  term_le := fun _ he => nomatch he
  le_greatest := fun _ he => nomatch he
  of_origin := fun id hi => by
    simp [txnLimboReplicaTerm, txnLimboCreate, vclockGet, vclockCreate, uint64] at hi
  greatest := fun hg => absurd rfl hg

lemma TxnLimbo.Tracks.replicaTerm (h : l.Tracks seen) (id : Nat) :
    (txnLimboReplicaTerm l id : Int) = vclockGet l.promoteTermMap id := by
  have hb := h.bounded id
  simp only [txnLimboReplicaTerm, uint64]
  omega

/-- The origin of a request that is not newer has issued one at least as great before. -/
lemma TxnLimbo.Tracks.earlier (h : l.Tracks seen) (hc : req.Issued)
    (hol : req.term ≤ txnLimboReplicaTerm l req.originId) :
    ∃ e ∈ seen, e.originId = req.originId ∧ req.term ≤ e.term := by
  have hg := hc.term_gt
  obtain ⟨e, he, ho, ht⟩ := h.of_origin req.originId (by omega)
  exact ⟨e, he, ho, by omega⟩

/-- What a request does that passes the check of its term. -/
structure TxnLimbo.Applied (l l' : TxnLimbo) (req : SynchroRequest) : Prop where
  queue_eq : l'.queue = []
  owner_eq : l'.ownerId = req.newOwner
  confirmed_eq : l'.confirmedLsn = 0
  map_eq : ∀ id, vclockGet l'.promoteTermMap id =
    if id = req.originId then (req.term : Int) else vclockGet l.promoteTermMap id
  greatest_eq : l'.promoteGreatestTerm = max l.promoteGreatestTerm req.term

lemma newOwner_demote (h : req.type = .demote) : req.newOwner = replicaIdNil := by
  simp [SynchroRequest.newOwner, h]

lemma promote_kinds (hty : req.type.isPromoteRequest = true) :
    req.type = .promote ∧ req.newOwner = req.originId ∨
      req.type = .demote ∧ req.newOwner = replicaIdNil := by
  cases ht : req.type with
  | confirm => simp [ht, SynchroType.isPromoteRequest] at hty
  | rollback => simp [ht, SynchroType.isPromoteRequest] at hty
  | promote => exact .inl ⟨rfl, by simp [SynchroRequest.newOwner, ht]⟩
  | demote => exact .inr ⟨rfl, newOwner_demote ht⟩

lemma read_spec (hw : Written l.queue) (ho : l.ownerId ≠ replicaIdNil ∨ l.queue.isEmpty = true)
    (hty : req.type.isPromoteRequest = true) (lsn : Int) :
    Ensures (txnLimboRead l req lsn) fun l' => l.Claimed l' req.newOwner := by
  unfold txnLimboRead
  rcases promote_kinds hty with ⟨ht, how⟩ | ⟨ht, how⟩
  · rw [ht, how]
    exact readPromote_spec hw ho req.originId lsn
  · rw [ht, how]
    exact readPromote_spec hw ho replicaIdNil lsn

lemma apply_spec (hw : Written l.queue) (ho : l.ownerId ≠ replicaIdNil ∨ l.queue.isEmpty = true)
    (ht : req.type.isPromoteRequest = true)
    (hl : req.replicaId = replicaIdNil → req.lsn = 0) :
    Ensures (txnLimboApply l req) fun l' => l.Claimed l' req.newOwner := by
  unfold txnLimboApply
  split
  · rename_i hn
    exact ensures_assert ⟨hl hn, ht⟩ (read_spec hw ho ht req.lsn)
  · simp only [ht]
    split
    · exact read_spec hw ho ht 0
    · exact read_spec hw ho ht req.lsn

lemma process_applied (h : l.Tracks seen) (hc : req.Issued)
    (hn : txnLimboReplicaTerm l req.originId < req.term) :
    Ensures (txnLimboProcess l req) fun l' => l.Applied l' req := by
  have ht : int64 req.term = req.term := int64_of_lt hc.term_lt
  have hl : vclockGet l.promoteTermMap req.originId < int64 req.term := by
    rw [ht, ← h.replicaTerm]
    omega
  have ho : l.ownerId ≠ replicaIdNil ∨ l.queue.isEmpty = true := by
    by_cases ho : l.ownerId = replicaIdNil
    · exact .inr (by simp [(h.unclaimed ho).1])
    · exact .inl ho
  unfold txnLimboProcess
  refine ensures_assert hc.origin_lt ?_
  rw [if_pos hn]
  refine ensures_bind (vclockFollow_spec (by omega) hc.origin_lt hl) ?_
  intro v hv
  refine (apply_spec (l := { l with promoteTermMap := v, promoteGreatestTerm := _ })
    h.written ho hc.type hc.lsn_eq).mono ?_
  intro l' hcl
  refine ⟨hcl.queue_eq, hcl.owner_eq, hcl.confirmed_eq, ?_, ?_⟩
  · intro id
    rw [hcl.map_eq, hv id, ht]
  · rw [hcl.greatest_eq]
    dsimp only
    split <;> omega

lemma process_ignored (h : l.Tracks seen) (hc : req.Issued)
    (ho : req.term ≤ txnLimboReplicaTerm l req.originId) : txnLimboProcess l req = some l := by
  have hg : l.promoteGreatestTerm > 1 := by
    obtain ⟨e, he, -, ht⟩ := h.earlier hc ho
    have hl := h.le_greatest e he
    have hgt := hc.term_gt
    omega
  simp [txnLimboProcess, assertThat, hc.origin_lt, Nat.not_lt.mpr ho, hc.type, hg]

lemma issued_append (h : ∀ e ∈ seen, e.Issued) (hc : req.Issued) : ∀ e ∈ seen ++ [req], e.Issued :=
  forall_mem_append.mpr ⟨h, forall_mem_singleton.mpr hc⟩

lemma TxnLimbo.Tracks.ignored (h : l.Tracks seen) (hc : req.Issued)
    (ho : req.term ≤ txnLimboReplicaTerm l req.originId) : l.Tracks (seen ++ [req]) where
  written := h.written
  unclaimed := h.unclaimed
  issued := issued_append h.issued hc
  bounded := h.bounded
  term_le := forall_mem_append.mpr ⟨h.term_le, forall_mem_singleton.mpr ho⟩
  le_greatest := by
    obtain ⟨d, hd, -, ht⟩ := h.earlier hc ho
    have hl := ht.trans (h.le_greatest d hd)
    exact forall_mem_append.mpr ⟨h.le_greatest, forall_mem_singleton.mpr hl⟩
  of_origin := by
    intro id hi
    obtain ⟨e, he, heq⟩ := h.of_origin id hi
    exact ⟨e, mem_append_left _ he, heq⟩
  greatest := by
    intro hg
    obtain ⟨e, he, heq⟩ := h.greatest hg
    exact ⟨e, mem_append_left _ he, heq⟩

lemma TxnLimbo.Applied.replicaTerm (ha : l.Applied l' req) (hc : req.Issued) (id : Nat) :
    txnLimboReplicaTerm l' id =
      if id = req.originId then req.term else txnLimboReplicaTerm l id := by
  have hl : req.term < 2 ^ 64 := hc.term_lt.trans (by decide)
  simp only [txnLimboReplicaTerm, ha.map_eq id]
  split
  · exact uint64_natCast hl
  · rfl

lemma TxnLimbo.Tracks.applied (h : l.Tracks seen) (hc : req.Issued)
    (hn : txnLimboReplicaTerm l req.originId < req.term) (ha : l.Applied l' req) :
    l'.Tracks (seen ++ [req]) := by
  have hr := ha.replicaTerm hc
  refine ⟨ha.queue_eq ▸ written_nil, fun _ => ⟨ha.queue_eq, ha.confirmed_eq⟩,
    issued_append h.issued hc, ?_, ?_, ?_, ?_, ?_⟩
  · intro id
    rw [ha.map_eq id]
    split
    · have hlt := hc.term_lt
      omega
    · exact h.bounded id
  · intro e he
    rw [hr]
    rcases mem_append.mp he with he | he
    · have hl := h.term_le e he
      split
      · rename_i ho
        rw [ho] at hl
        omega
      · exact hl
    · rw [mem_singleton.mp he]
      simp
  · intro e he
    rw [ha.greatest_eq]
    rcases mem_append.mp he with he | he
    · exact (h.le_greatest e he).trans (Nat.le_max_left _ _)
    · rw [mem_singleton.mp he]
      exact Nat.le_max_right _ _
  · intro id hi
    rw [hr] at hi ⊢
    by_cases ho : id = req.originId
    · exact ⟨req, by simp, ho.symm, by simp [ho]⟩
    · rw [if_neg ho] at hi ⊢
      obtain ⟨e, he, heq⟩ := h.of_origin id hi
      exact ⟨e, mem_append_left _ he, heq⟩
  · intro hg
    rw [ha.greatest_eq] at hg ⊢
    by_cases hl : l.promoteGreatestTerm ≤ req.term
    · exact ⟨req, by simp, (Nat.max_eq_right hl).symm⟩
    · have hm : max l.promoteGreatestTerm req.term = l.promoteGreatestTerm := by omega
      rw [hm] at hg ⊢
      obtain ⟨e, he, heq⟩ := h.greatest hg
      exact ⟨e, mem_append_left _ he, heq⟩

/-- One request: it is ignored or applied, and either way it is tracked. -/
lemma process_spec (h : l.Tracks seen) (hc : req.Issued) :
    Ensures (txnLimboProcess l req) fun l' => l'.Tracks (seen ++ [req]) := by
  by_cases hn : txnLimboReplicaTerm l req.originId < req.term
  · exact (process_applied h hc hn).mono fun l' ha => h.applied hc hn ha
  · have ho : req.term ≤ txnLimboReplicaTerm l req.originId := by omega
    exact ⟨l, process_ignored h hc ho, h.ignored hc ho⟩

/-- Two requests of different origins ask for the same owner only when both clear it. -/
lemma SynchroRequest.Issued.same_owner {e : SynchroRequest} (h : req.Issued) (he : e.Issued)
    (ho : e.originId ≠ req.originId) (hs : req.newOwner = e.newOwner) :
    req.type = .demote ∧ e.type = .demote := by
  rcases promote_kinds h.type with ⟨-, hr⟩ | ⟨ht, hr⟩
  · rcases promote_kinds he.type with ⟨-, heo⟩ | ⟨-, heo⟩
    · exact absurd (heo.symm.trans (hs.symm.trans hr)) ho
    · exact absurd (hr.symm.trans (hs.trans heo)) h.origin_ne
  · rcases promote_kinds he.type with ⟨-, heo⟩ | ⟨hte, -⟩
    · exact absurd (heo.symm.trans (hs.symm.trans hr)) he.origin_ne
    · exact ⟨ht, hte⟩

section

variable (h : l.Tracks seen)
include h

lemma newer_follows (hc : req.Issued)
    (hn : ∀ e ∈ seen, e.term < req.term) (hstep : txnLimboProcess l req = some l') :
    l.promoteGreatestTerm < req.term ∧ l'.Follows (seen ++ [req]) := by
  have hgt := hc.term_gt
  have hg : l.promoteGreatestTerm < req.term := by
    by_cases hz : l.promoteGreatestTerm = 0
    · omega
    · obtain ⟨e, he, heq⟩ := h.greatest hz
      have hlt := hn e he
      omega
  have hne : txnLimboReplicaTerm l req.originId < req.term := by
    by_cases hz : txnLimboReplicaTerm l req.originId = 0
    · omega
    · obtain ⟨e, he, -, heq⟩ := h.of_origin _ hz
      have hlt := hn e he
      omega
  obtain ⟨l'', hl'', ha⟩ := process_applied h hc hne
  obtain rfl : l' = l'' := some.inj (hstep.symm.trans hl'')
  refine ⟨hg, ?_⟩
  intro e he ht
  rw [ha.greatest_eq] at ht
  rcases mem_append.mp he with he | he
  · have hlt := hn e he
    omega
  · rw [mem_singleton.mp he]
    exact ha.owner_eq

/-- A late request that is applied changes nothing exactly when it clears what is cleared. -/
lemma late_applied (hf : l.Follows seen) (hc : req.Issued)
    (hl : req.term < l.promoteGreatestTerm)
    (hne : txnLimboReplicaTerm l req.originId < req.term) (ha : l.Applied l' req) :
    (l'.ownerId = l.ownerId ∧ l'.confirmedLsn = l.confirmedLsn ∧ l'.queue = l.queue) ↔
      Harmless seen req := by
  obtain ⟨g, hg, hgt⟩ := h.greatest (by omega)
  have how : l.ownerId = g.newOwner := hf g hg hgt
  have hgc := h.issued g hg
  constructor
  · rintro ⟨hs, -, -⟩
    have ho : g.originId ≠ req.originId := by
      intro ho
      have hle := h.term_le g hg
      rw [ho] at hle
      omega
    rw [ha.owner_eq, how] at hs
    obtain ⟨hr, hgd⟩ := hc.same_owner hgc ho hs
    refine .inr (.inr ⟨hr, g, hg, hgd, fun d hd => ?_⟩)
    rw [hgt]
    exact h.le_greatest d hd
  · rintro (hn | ⟨e, he, ho, hlt⟩ | ⟨hr, e, he, hed, hm⟩)
    · have hlt := hn g hg
      omega
    · have hle := h.term_le e he
      rw [ho] at hle
      omega
    · have hle := hm g hg
      have hge := h.le_greatest e he
      have hni : l.ownerId = replicaIdNil := by
        rw [hf e he (by omega)]
        exact newOwner_demote hed
      obtain ⟨hq, hco⟩ := h.unclaimed hni
      exact ⟨by rw [ha.owner_eq, hni, newOwner_demote hr], by rw [ha.confirmed_eq, hco],
        by rw [ha.queue_eq, hq]⟩

/-- One request leaves the owner of the greatest term undisturbed exactly when it is harmless. -/
lemma undisturbed_iff (hf : l.Follows seen) (hc : req.Issued)
    (hne : ∀ e ∈ seen, e.term ≠ req.term) (hstep : txnLimboProcess l req = some l') :
    (l.Undisturbed (.process req) ↔ Harmless seen req) ∧
      (Harmless seen req → l'.Follows (seen ++ [req])) := by
  have hr : l.Undisturbed (.process req) ↔ (req.term < l.promoteGreatestTerm →
      l'.ownerId = l.ownerId ∧ l'.confirmedLsn = l.confirmedLsn ∧ l'.queue = l.queue) := by
    constructor
    · exact fun hu hla => hu req rfl hla l' hstep
    · intro hu req' heq hla l'' hl''
      cases heq
      obtain rfl : l' = l'' := some.inj (hstep.symm.trans hl'')
      exact hu hla
  by_cases hn : ∀ e ∈ seen, e.term < req.term
  · obtain ⟨hg, hfo⟩ := newer_follows h hc hn hstep
    refine ⟨?_, fun _ => hfo⟩
    rw [hr]
    exact ⟨fun _ => .inl hn, fun _ hla => by omega⟩
  · obtain ⟨e, he, hge⟩ : ∃ e ∈ seen, req.term ≤ e.term := by
      by_contra hall
      exact hn fun e he => by
        by_contra hlt
        exact hall ⟨e, he, by omega⟩
    have hla : req.term < l.promoteGreatestTerm := by
      have hle := h.le_greatest e he
      have ht := hne e he
      omega
    -- the greatest request stays the greatest, so the owner must stay too
    have hk (hg : l'.promoteGreatestTerm = l.promoteGreatestTerm)
        (how : l'.ownerId = l.ownerId) : l'.Follows (seen ++ [req]) := by
      intro d hd ht
      rw [hg] at ht
      rcases mem_append.mp hd with hd | hd
      · rw [how]
        exact hf d hd ht
      · rw [mem_singleton.mp hd] at ht
        omega
    by_cases hnw : txnLimboReplicaTerm l req.originId < req.term
    · obtain ⟨l'', hl'', ha⟩ := process_applied h hc hnw
      obtain rfl : l' = l'' := some.inj (hstep.symm.trans hl'')
      have hi := late_applied h hf hc hla hnw ha
      refine ⟨hr.trans ⟨fun hu => hi.mp (hu hla), fun hh _ => hi.mpr hh⟩, fun hh => ?_⟩
      refine hk ?_ (hi.mpr hh).1
      rw [ha.greatest_eq]
      omega
    · have hol : req.term ≤ txnLimboReplicaTerm l req.originId := by omega
      obtain rfl : l' = l := some.inj (hstep.symm.trans (process_ignored h hc hol))
      obtain ⟨d, hd, ho, ht⟩ := h.earlier hc hol
      have hdn := hne d hd
      have hha : Harmless seen req := .inr (.inl ⟨d, hd, ho, by omega⟩)
      exact ⟨hr.trans ⟨fun _ => hha, fun _ _ => ⟨rfl, rfl, rfl⟩⟩, fun _ => hk rfl rfl⟩

lemma TxnLimbo.Tracks.transactions {queue : List LimboEntry}
    (ho : l.ownerId ≠ replicaIdNil) (hw : Written queue) (confirmedLsn : Int) :
    Tracks { l with queue := queue, len := queue.length, confirmedLsn := confirmedLsn } seen :=
  { h with written := hw, unclaimed := fun hn => absurd hn ho }

lemma step_tracks {a : LimboAction} (hv : l.Valid a) :
    Ensures (l.step a) fun l' => l'.Tracks (seen ++ requests [a]) := by
  cases a with
  | process req => exact process_spec h hv
  | transactions queue confirmedLsn =>
    have hn : requests [.transactions queue confirmedLsn] = [] := rfl
    rw [hn, append_nil]
    exact ensures_some (h.transactions hv.1 hv.2 confirmedLsn)

lemma run_returns (hva : Along step Valid l actions) :
    ∃ l', run step l actions = some l' := by
  obtain ⟨l', hr, -⟩ := run_total (P := fun l => ∃ seen, l.Tracks seen)
    (fun {l a} hv ⟨seen, hl⟩ => by
      obtain ⟨l', hl', ht⟩ := step_tracks hl hv
      exact ⟨l', hl', _, ht⟩)
    hva ⟨seen, h⟩
  exact ⟨l', hr⟩

/-- Along a run: while the order is harmless the owner is that of the greatest request, and the
first request that is not disturbs it. -/
lemma run_undisturbed_iff (hf : l.Follows seen)
    (hv : Along step Valid l actions)
    (hn : (seen ++ requests actions).Pairwise fun a b => a.term ≠ b.term)
    (hru : run step l actions = some l') :
    (Along step Undisturbed l actions ↔ InTermOrder seen (requests actions)) ∧
      (InTermOrder seen (requests actions) →
        l'.Tracks (seen ++ requests actions) ∧ l'.Follows (seen ++ requests actions)) := by
  induction actions generalizing l seen with
  | nil =>
    obtain rfl := some.inj hru
    refine ⟨⟨fun _ => trivial, fun _ => trivial⟩, fun _ => ?_⟩
    simpa [requests] using ⟨h, hf⟩
  | cons a actions ih =>
    obtain ⟨l₁, hstep, hr⟩ := bind_eq_some_iff.mp hru
    have hv₁ := hv.2 l₁ hstep
    have ha : Along step Undisturbed l (a :: actions) ↔
        l.Undisturbed a ∧ Along step Undisturbed l₁ actions := by
      simp [Along, hstep]
    rw [ha]
    cases a with
    | transactions queue confirmedLsn =>
      have hl₁ : { l with queue := queue, len := queue.length, confirmedLsn := confirmedLsn } =
          l₁ := some.inj hstep
      have ht₁ : l₁.Tracks seen := hl₁ ▸ h.transactions hv.1.1 hv.1.2 confirmedLsn
      have hf₁ : l₁.Follows seen := hl₁ ▸ hf
      obtain ⟨hi, hen⟩ := ih ht₁ hf₁ hv₁ hn hr
      have hq : l.Undisturbed (.transactions queue confirmedLsn) := fun _ heq => nomatch heq
      exact ⟨⟨fun hu => hi.mp hu.2, fun ho => ⟨hq, hi.mpr ho⟩⟩, hen⟩
    | process req =>
      have hre : requests (.process req :: actions) = req :: requests actions := rfl
      rw [hre] at hn ⊢
      have hs : seen ++ req :: requests actions = (seen ++ [req]) ++ requests actions := by simp
      have hte : ∀ e ∈ seen, e.term ≠ req.term := fun e he =>
        (pairwise_append.mp hn).2.2 e he req mem_cons_self
      obtain ⟨hi, hfo⟩ := undisturbed_iff h hf hv.1 hte hstep
      obtain ⟨l₂, hl₂, ht₁⟩ := process_spec h hv.1
      obtain rfl : l₁ = l₂ := some.inj (hstep.symm.trans hl₂)
      rw [hs] at hn ⊢
      constructor
      · constructor
        · rintro ⟨hu, hr'⟩
          have hh := hi.mp hu
          exact ⟨hh, (ih ht₁ (hfo hh) hv₁ hn hr).1.mp hr'⟩
        · rintro ⟨hh, hor⟩
          exact ⟨hi.mpr hh, (ih ht₁ (hfo hh) hv₁ hn hr).1.mpr hor⟩
      · rintro ⟨hh, hor⟩
        exact (ih ht₁ (hfo hh) hv₁ hn hr).2 hor

end

/-- Requests of pairwise different terms are processed in any order. Those of a smaller term
leave the limbo alone exactly when the order is harmless, and then the greatest one decides. -/
theorem ownership_follows_greatest_iff {actions : List LimboAction}
    (hvalid : Along step Valid txnLimboCreate actions)
    (hne : (requests actions).Pairwise fun a b => a.term ≠ b.term) :
    ∃ l, run step txnLimboCreate actions = some l ∧ (Along step Undisturbed txnLimboCreate actions ↔
        InTermOrder [] (requests actions)) ∧
      (InTermOrder [] (requests actions) → ∀ req ∈ requests actions,
        (∀ e ∈ requests actions, e.term ≤ req.term) → l.ownerId = req.newOwner) := by
  obtain ⟨l, hru⟩ := run_returns tracks_create hvalid
  obtain ⟨hi, hen⟩ := run_undisturbed_iff tracks_create (fun e he => nomatch he) hvalid hne hru
  refine ⟨l, hru, hi, fun ho req hr hm => ?_⟩
  obtain ⟨ht, hf⟩ := hen ho
  have hl := ht.le_greatest req hr
  have hgt := (ht.issued req hr).term_gt
  obtain ⟨g, hg, hgr⟩ := ht.greatest (by omega)
  have hgl := hm g hg
  exact hf req hr (by omega)

/-- A synchronous transaction with this LSN that is written and waits for its quorum. -/
def waitingEntry (lsn : Nat) : LimboEntry := ⟨0, true, lsn, false, lsn, false, false⟩

/-- Instance 2 takes the limbo from instance 1, and its older request comes after that. -/
def reorderedRequests : List LimboAction :=
  [.process ⟨.promote, 0, 1, 0, 2⟩, .transactions [waitingEntry 5] 4,
    .process ⟨.promote, 1, 2, 4, 4⟩, .process ⟨.promote, 1, 2, 4, 3⟩]

theorem ownership_follows_reordered : ∃ l, run step txnLimboCreate reorderedRequests = some l ∧
      Along step Undisturbed txnLimboCreate reorderedRequests ∧
      l.ownerId = 2 := by
  have hi (replicaId originId lsn term : Nat)
      (h : originId ≠ 0 ∧ originId < vclockMax ∧ 1 < term ∧ term < 2 ^ 63 ∧
        (replicaId = 0 → lsn = 0)) :
      SynchroRequest.Issued ⟨.promote, replicaId, originId, lsn, term⟩ :=
    ⟨rfl, h.1, h.2.1, h.2.2.1, h.2.2.2.1, fun hn => by simpa using h.2.2.2.2 hn⟩
  have hw : Written [waitingEntry 5] := ⟨by decide, by decide, pairwise_singleton _ _⟩
  have hv : Along step Valid txnLimboCreate reorderedRequests := by
    refine along_cons (hi 0 1 0 2 (by decide)) rfl ?_
    refine along_cons ⟨by decide, hw⟩ rfl ?_
    refine along_cons (hi 1 2 4 4 (by decide)) rfl ?_
    exact along_cons (hi 1 2 4 3 (by decide)) rfl trivial
  have ho : InTermOrder [] (requests reorderedRequests) :=
    ⟨.inl (by decide), .inl (by decide), .inr (.inl (by decide)), trivial⟩
  obtain ⟨l, hr, hif, how⟩ := ownership_follows_greatest_iff hv (by decide)
  refine ⟨l, hr, hif.mpr ho, ?_⟩
  exact how ho ⟨.promote, 1, 2, 4, 4⟩ (by decide) (by decide)

/-- Instance 1 owns the limbo since term 3 and waits for the quorum of a transaction. -/
def ownedInTermThree : List LimboAction :=
  [.process ⟨.promote, 0, 1, 0, 3⟩, .transactions [waitingEntry 5] 4]

/-- The PROMOTE of another instance for term 2 still takes the limbo and rolls its
transaction back. -/
theorem late_promote_takes_limbo : ∃ l l', run step txnLimboCreate ownedInTermThree = some l ∧
      l.promoteGreatestTerm = 3 ∧ l.ownerId = 1 ∧ l.confirmedLsn = 4 ∧ l.queue ≠ [] ∧
      l.step (.process ⟨.promote, 0, 2, 0, 2⟩) = some l' ∧
      l'.ownerId = 2 ∧ l'.confirmedLsn = 0 ∧ l'.queue = [] ∧ l'.rollbackCount = 1 :=
  ⟨_, _, rfl, rfl, rfl, rfl, by decide, rfl, rfl, rfl, rfl, rfl⟩

end TarantoolStorage
