import TarantoolStorage.Raft.Invariant

/-!
The entry points of `raft.c` other than `raft_process_msg`, and the calls of them
whose assertions fail.
-/
namespace TarantoolStorage

open Checked

variable {r r' : Raft} {env : RaftEnv}

lemma heartbeat_spec (h : r.Inv) (source : Nat) :
    Ensures (raftProcessHeartbeat r source) fun r' => r'.Inv ∧ r.Quiet r' := by
  have hsa : Ensures (some r) fun r' => r'.Inv ∧ r.Quiet r' := ensures_some ⟨h, .refl r⟩
  unfold raftProcessHeartbeat
  split
  · exact hsa
  rename_i hp
  split
  · exact hsa
  rename_i hc
  have hc : r.isCandidate = true := by simpa using hc
  split
  · exact hsa
  rename_i hle
  split
  · exact hsa
  rename_i hl
  have hl : r.leader = source := by simpa using hl
  split
  · exact hsa
  rename_i hw
  have hw : r.isWriteInProgress = false := by simpa using hw
  have hs : r.state = .follower := by
    cases hs : r.state with
    | follower => rfl
    | candidate => exact absurd (hl.symm.trans (h.candidate hs).2.1) hp
    | leader => exact absurd hs hle
  refine ensures_assert (h.waits hc hw hle) ?_
  refine (waitLeaderDead_spec h.stopped rfl hw hc hs (hl ▸ hp)).mono ?_
  rintro _ ⟨hi, t, rfl⟩
  exact ⟨hi, quiet_timer t⟩

lemma smStart_spec (h : r.Inv) (he : r.isEnabled = false) :
    Ensures (raftSmStart r) fun r' => r'.Inv ∧ r.Quiet r' := by
  have hn : r.isCandidate = false := by
    by_contra hc
    exact flag_absurd he (h.enabled (by simpa using hc))
  have ht : r.timer.active = false := by
    by_contra ho
    exact flag_absurd hn (h.timer (by simpa using ho)).1
  have hs : r.state = .follower := by
    cases hs : r.state with
    | follower => rfl
    | candidate => exact flag_absurd hn (h.candidate hs).1
    | leader => exact flag_absurd hn (h.leader hs).1
  have hst : Raft.Stable { r with isEnabled := true, isCandidate := r.isCfgCandidate } :=
    { h with
      timer := flag_absurd ht
      enabled := fun _ => rfl
      candidate := follower_not_candidate hs
      leader := follower_not_leader hs }
  have hq : r.Quiet { r with isEnabled := true, isCandidate := r.isCfgCandidate } :=
    ⟨⟨rfl, rfl, le_rfl, id⟩, rfl, .inl hs⟩
  unfold raftSmStart
  refine ensures_assert ht (ensures_assert he (ensures_assert hs ?_))
  refine ensures_bind (P := fun r' => r'.Inv ∧ r.Quiet r') ?_ ?_
  · dsimp only
    split
    · rename_i hw
      exact ensures_some ⟨{ hst with waits := fun _ hw' => flag_absurd hw' hw }, hq⟩
    rename_i hw
    have hw : r.isWriteInProgress = false := by simpa using hw
    split
    · rename_i hc
      exact ensures_some ⟨{ hst with waits := flag_absurd hc }, hq⟩
    rename_i hc
    have hc : r.isCfgCandidate = true := by simpa using hc
    have hwa := waitLeader_eq
      (r := { r with isEnabled := true, isCandidate := r.isCfgCandidate }) ht hw hc hs
    exact ⟨_, hwa, hst.start hc hw (by simp [hs]) _, hq.trans (quiet_timer _)⟩
  · rintro r' ⟨hi, hr⟩
    exact ensures_some ⟨hi.broadcast, hr.trans quiet_broadcast⟩

lemma Raft.Stable.resigned (h : r.Stable) (enabled : Bool) :
    Raft.Inv { r.resign with isEnabled := enabled, isCandidate := false, timer := r.timer.stop } :=
  { h with
    timer := fun ho => nomatch ho
    enabled := fun hc => nomatch hc
    writing := fun _ => rfl
    candidate := fun hs => nomatch hs
    leader := fun hs => nomatch hs
    waits := fun hc => nomatch hc }

section

variable (h : r.Inv)
include h

lemma smStop_spec (he : r.isEnabled = true) :
    Ensures (raftSmStop r) fun r' => r'.Inv ∧ r.Quiet r' := by
  unfold raftSmStop
  refine ensures_assert he (ensures_some ⟨(h.resigned false).broadcast, ?_⟩)
  exact ⟨⟨rfl, rfl, le_rfl, id⟩, rfl, .inl rfl⟩

lemma cfgIsEnabled_spec (isEnabled : Bool) :
    Ensures (raftCfgIsEnabled r isEnabled) fun r' => r'.Inv ∧ r.Quiet r' := by
  unfold raftCfgIsEnabled
  split
  · exact ensures_some ⟨h, .refl r⟩
  rename_i hn
  split
  · exact smStart_spec h (by simp_all)
  · exact smStop_spec h (by simp_all)

lemma restore_spec : Ensures (raftRestore r) fun r' => r'.Inv ∧ r.Quiet r' := by
  by_cases hs : r.state = .follower
  · obtain ⟨timer, scheduled, he, ha⟩ := restore_follower hs
      fun ho => ⟨(h.timer ho).1, (h.timer ho).2.1⟩
    refine ⟨_, he, ?_, { Raft.Quiet.refl r with }⟩
    exact { h with
      timer := fun ho => ⟨(ha.mp ho).1, (ha.mp ho).2.1, by simp [hs]⟩
      enabled := fun hc => (Bool.and_eq_true_iff.mp hc).2
      candidate := follower_not_candidate hs
      leader := follower_not_leader hs
      waits := fun hc hw _ => ha.mpr ⟨hc, hw, fun hc' => h.waits hc' hw (by simp [hs])⟩ }
  · have hc : r.isCandidate = true := by
      cases hs' : r.state with
      | follower => exact absurd hs' hs
      | candidate => exact (h.candidate hs').1
      | leader => exact (h.leader hs').1
    unfold raftRestore raftSetCandidate
    split
    · exact ⟨r, by simp [raftStartCandidate, assertThat_of (h.enabled hc), hc], h, .refl r⟩
    · refine ensures_some ?_
      simp only [raftStopCandidate, hc, ite_true]
      exact ⟨(h.resigned r.isEnabled).broadcast, ⟨⟨rfl, rfl, le_rfl, id⟩, rfl, .inl rfl⟩⟩

lemma cfgIsCandidate_spec (isCandidate : Bool) :
    Ensures (raftCfgIsCandidate r isCandidate) fun r' => r'.Inv ∧ r.Quiet r' := by
  have hs : Raft.Inv { r with isCfgCandidate := isCandidate } := { h with }
  refine (restore_spec hs).mono ?_
  rintro r' ⟨hi, hq⟩
  exact ⟨hi, { hq with }⟩

lemma newTerm_spec (hl : r.volatileTerm + 1 < 2 ^ 64) :
    Ensures (raftNewTerm r) fun r' => r.NewTerm r' r.nextTerm := by
  have hn : r.nextTerm = r.volatileTerm + 1 := Nat.mod_eq_of_lt hl
  exact scheduleNewTerm_spec h.toStable (by omega) (by omega)

lemma startCandidate_spec (hs : r.state = .follower) (he : r.isEnabled = true) :
    Ensures (raftStartCandidate r) fun r' => r'.Inv ∧ r.Quiet r' := by
  obtain ⟨timer, heq, ha⟩ := startCandidate_follower hs he fun ho => (h.timer ho).1
  refine ⟨_, heq, ?_, ⟨⟨rfl, rfl, le_rfl, id⟩, rfl, .inl hs⟩⟩
  have hi : timer.active = true ↔ r.isWriteInProgress = false := by
    cases hc : r.isCandidate with
    | false => simp [ha, hc]
    | true =>
      simp only [ha, hc, ite_true]
      exact ⟨fun ho => (h.timer ho).2.1, fun hw => h.waits hc hw (by simp [hs])⟩
  exact { h with
    timer := fun ho => ⟨rfl, hi.mp ho, by simp [hs]⟩
    enabled := fun _ => he
    candidate := follower_not_candidate hs
    leader := follower_not_leader hs
    waits := fun _ hw _ => hi.mpr hw }

lemma promote_spec (hl : r.isEnabled = true → r.volatileTerm + 1 < 2 ^ 64) :
    Ensures (raftPromote r) fun r' => r'.Inv ∧ r.Quiet r' := by
  unfold raftPromote
  split
  · exact ensures_some ⟨h, .refl r⟩
  rename_i he
  have he : r.isEnabled = true := by simpa using he
  refine ensures_bind (newTerm_spec h (hl he)) ?_
  intro r₁ h₁
  refine (startCandidate_spec h₁.inv h₁.follower (h₁.enabled_eq.trans he)).mono ?_
  rintro r₂ ⟨hi, hq⟩
  exact ⟨hi, h₁.quiet.trans hq⟩

lemma Raft.Inv.reschedule (ht : r.timer.active = true) (timeout oldTimeout : Rat) :
    (r.rescheduleTimer env timeout oldTimeout).Inv :=
  { h with timer := fun _ => h.timer ht, waits := fun _ _ _ => rfl }

lemma cfgElectionTimeout_spec (timeout : Rat) :
    Ensures (raftCfgElectionTimeout env r timeout) fun r' => r'.Inv ∧ r.Quiet r' := by
  have hse : Raft.Inv { r with electionTimeout := timeout } := { h with }
  unfold raftCfgElectionTimeout
  dsimp only
  split
  · exact ensures_some ⟨h, .refl r⟩
  split
  · exact ensures_some ⟨hse, { Raft.Quiet.refl r with }⟩
  rename_i hsk
  obtain ⟨-, hl, hc, hw⟩ : r.vote ≠ 0 ∧ r.leader = 0 ∧ r.isCandidate = true ∧
      r.isWriteInProgress = false := by
    simpa using hsk
  have hs : r.state ≠ .leader := fun hs => absurd ((h.leader hs).2.1.symm.trans hl) h.self_ne
  have ht := h.waits hc hw hs
  refine ensures_assert ht (ensures_some ⟨hse.reschedule ht _ _, ?_⟩)
  exact { Raft.Quiet.refl r with }

end

/-- The death timeout is applied to a timer that a write has stopped. -/
def Raft.StoppedDeathTimer (r : Raft) (timeout : Rat) : Prop :=
  timeout ≠ r.deathTimeout ∧ r.state = .follower ∧ r.isCandidate = true ∧ r.leader ≠ 0 ∧
    r.isWriteInProgress = true

section

variable (h : r.Inv)
include h

lemma cfgDeathTimeout_spec {timeout : Rat} (hsa : ¬ r.StoppedDeathTimer timeout) :
    Ensures (raftCfgDeathTimeout env r timeout) fun r' => r'.Inv ∧ r.Quiet r' := by
  have hse : Raft.Inv { r with deathTimeout := timeout } := { h with }
  unfold raftCfgDeathTimeout
  dsimp only
  split
  · exact ensures_some ⟨h, .refl r⟩
  rename_i hn
  split
  · exact ensures_some ⟨hse, { Raft.Quiet.refl r with }⟩
  rename_i hsk
  obtain ⟨hs, hc, hl⟩ : r.state = .follower ∧ r.isCandidate = true ∧ r.leader ≠ 0 := by
    simpa using hsk
  have hw : r.isWriteInProgress = false := by
    by_contra hw
    exact hsa ⟨hn, hs, hc, hl, by simpa using hw⟩
  have ht := h.waits hc hw (by simp [hs])
  refine ensures_assert ht (ensures_some ⟨hse.reschedule ht _ _, ?_⟩)
  exact { Raft.Quiet.refl r with }

lemma cfgDeathTimeout_fails {timeout : Rat} (hf : r.StoppedDeathTimer timeout) :
    raftCfgDeathTimeout env r timeout = none := by
  obtain ⟨hn, hs, hc, hl, hw⟩ := hf
  simp [raftCfgDeathTimeout, hn, hs, hc, hl, assertThat, h.timer_inactive hw]

lemma newTerm_fails (hl : 2 ^ 64 ≤ r.volatileTerm + 1) : raftNewTerm r = none :=
  scheduleNextTerm_fails h.term_lt hl

lemma promote_fails (he : r.isEnabled = true)
    (hl : 2 ^ 64 ≤ r.volatileTerm + 1) : raftPromote r = none := by
  simp [raftPromote, he, scheduleNextTerm_fails h.term_lt hl]

lemma scheduleNewElectionCb_fails (hl : 2 ^ 64 ≤ r.volatileTerm + 1) :
    raftSmScheduleNewElectionCb r = none := by
  have he := scheduleNewElection_fails (r := { r with timer := r.timer.stop }) h.term_lt hl
  simp [raftSmScheduleNewElectionCb, he]

lemma cfgElectionQuorum_spec {electionQuorum : Nat} (hq : 0 < electionQuorum) :
    Ensures (raftCfgElectionQuorum r electionQuorum) fun r' => r'.Inv ∧ r.Keeps r' := by
  have hse : Raft.Inv { r with electionQuorum := electionQuorum } := { h with quorum_pos := hq }
  unfold raftCfgElectionQuorum
  refine ensures_assert hq ?_
  dsimp only
  split
  · rename_i hs
    obtain ⟨hc, hl, hv⟩ := h.candidate hs.1
    have hw := h.idle (by simp [hs.1])
    refine (becomeLeader_spec hse.toStable (by simp [hs.1]) hl hc hw hv).mono ?_
    rintro _ ⟨hi, rfl⟩
    exact ⟨hi, ⟨rfl, rfl, le_rfl, id⟩⟩
  · exact ensures_some ⟨hse, ⟨rfl, rfl, le_rfl, id⟩⟩

end

end TarantoolStorage
