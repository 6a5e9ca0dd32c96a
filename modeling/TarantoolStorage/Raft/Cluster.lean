import TarantoolStorage.Raft.Assertions

/-! Election safety: a counted vote is a ballot that its voter has persisted, once for a term. -/
namespace TarantoolStorage

open Checked Transition Voting List

abbrev Cluster := Nat → RaftNode

structure ClusterAction where
  node : Nat
  call : RaftCall

def Cluster.step (c : Cluster) (a : ClusterAction) : Option Cluster :=
  ((c a.node).call a.call).map (Function.update c a.node)

/-- A message is one that its source has sent; it can come late, twice or never. -/
def Cluster.Sent (c : Cluster) : RaftCall → Prop
  | .processMsg req source => req ∈ (c source).sent
  | _ => True

def RaftCall.FromMember (members : Finset Nat) : RaftCall → Prop
  | .processMsg _ source => source ∈ members
  | _ => True

/-- What the network and the operators of a cluster with fixed quorums do. -/
structure Cluster.Admits (members : Finset Nat) (c : Cluster) (a : ClusterAction) : Prop where
  member : a.node ∈ members
  valid : (c a.node).Valid a.call
  fromMember : a.call.FromMember members
  sent : c.Sent a.call
  keepsQuorum : a.call.KeepsQuorum

def Cluster.initial (quorum : Nat → Nat) (vclock : Nat → Vclock) : Cluster :=
  fun i => RaftNode.initial i (quorum i) (vclock i)

/-- Distinct ids in range, and every quorum is a majority. -/
structure MajorityQuorums (members : Finset Nat) (quorum : Nat → Nat) : Prop where
  id_ne : ∀ i ∈ members, i ≠ 0
  id_lt : ∀ i ∈ members, i < vclockMax
  majority : ∀ i ∈ members, members.card < 2 * quorum i

/-- A quorum of members has voted for the node in the term. -/
def Cluster.Elected (members : Finset Nat) (quorum : Nat → Nat) (c : Cluster) (i term : Nat) :
    Prop :=
  ∃ V ⊆ members, quorum i ≤ V.card ∧ ∀ k ∈ V, ⟨term, i⟩ ∈ (c k).ballots

/-- The votes a candidate has counted are votes of the members. -/
structure Cluster.VotesFor (members : Finset Nat) (c : Cluster) (i term : Nat)
    (voteMask : BitVec 32) (voteCount : Nat) : Prop where
  backed : ∀ k ∈ setBits voteMask, k ∈ members ∧ ⟨term, i⟩ ∈ (c k).ballots
  count_eq : voteCount = (setBits voteMask).toFinset.card

variable {members : Finset Nat} {quorum : Nat → Nat} {c c' : Cluster} {i j term voteCount : Nat}
  {voteMask : BitVec 32}

/-- No node takes back a ballot. -/
def Cluster.Grows (c c' : Cluster) : Prop := ∀ k, (c k).ballots ⊆ (c' k).ballots

lemma Cluster.Elected.mono (h : c.Elected members quorum i term) (hg : c.Grows c') :
    c'.Elected members quorum i term := by
  obtain ⟨V, hV, hc, hv⟩ := h
  exact ⟨V, hV, hc, fun k hk => hg k (hv k hk)⟩

section

variable (h : c.VotesFor members i term voteMask voteCount)
include h

lemma Cluster.VotesFor.mono
    (hg : c.Grows c') : c'.VotesFor members i term voteMask voteCount :=
  ⟨fun k hk => ⟨(h.backed k hk).1, hg k (h.backed k hk).2⟩, h.count_eq⟩

lemma Cluster.VotesFor.elected
    (hq : quorum i ≤ voteCount) : c.Elected members quorum i term := by
  refine ⟨(setBits voteMask).toFinset, ?_, h.count_eq ▸ hq, ?_⟩
  · intro k hk
    exact (h.backed k (mem_toFinset.mp hk)).1
  · intro k hk
    exact (h.backed k (mem_toFinset.mp hk)).2

/-- A vote that is not yet in the mask raises the count. -/
lemma Cluster.VotesFor.add {source : Nat}
    (hl : source < vclockMax) (hs : source ∈ members) (hv : ⟨term, i⟩ ∈ (c
    source).ballots) :
    c.VotesFor members i term (bitSet voteMask source).1
      (voteCount + if voteMask.getLsbD source then 0 else 1) := by
  have hb := setBits_bitSet voteMask hl
  constructor
  · intro k hk
    have hk : k ∈ insert source (setBits voteMask).toFinset := hb ▸ mem_toFinset.mpr hk
    rcases Finset.mem_insert.mp hk with rfl | hk
    · exact ⟨hs, hv⟩
    · exact h.backed k (mem_toFinset.mp hk)
  · rw [hb, h.count_eq]
    split
    · rename_i hse
      rw [Finset.insert_eq_of_mem (by simpa using mem_setBits.mpr hse), Nat.add_zero]
    · rename_i hse
      rw [Finset.card_insert_of_notMem (by simpa using fun hk => hse (mem_setBits.mp hk))]

end

lemma Cluster.votesFor_none : c.VotesFor members i term 0 0 :=
  ⟨fun k hk => by simp [setBits] at hk, by simp [setBits]⟩

structure Cluster.Inv (members : Finset Nat) (quorum : Nat → Nat) (c : Cluster) : Prop where
  node : ∀ i ∈ members, (c i).Inv
  self_eq : ∀ i ∈ members, (c i).raft.self = i
  quorum_eq : ∀ i ∈ members, (c i).raft.electionQuorum = quorum i
  candidate : ∀ i ∈ members, (c i).raft.state = .candidate →
    c.VotesFor members i (c i).raft.volatileTerm (c i).raft.voteMask (c i).raft.voteCount
  leader : ∀ i ∈ members, (c i).raft.state = .leader →
    c.Elected members quorum i (c i).raft.volatileTerm

open Cluster

lemma Cluster.initial_inv (h : MajorityQuorums members quorum) (vclock : Nat → Vclock) :
    (initial quorum vclock).Inv members quorum where
  node := fun i hi =>
    have hq := h.majority i hi
    TarantoolStorage.initial_inv (h.id_ne i hi) (h.id_lt i hi) (by omega) (vclock i)
  self_eq := fun _ _ => rfl
  quorum_eq := fun _ _ => rfl
  candidate := fun _ _ hs => nomatch hs
  leader := fun _ _ hs => nomatch hs

section

variable (h : c.Inv members quorum)
include h

lemma votes_step {a : ClusterAction} {n : RaftNode}
    (ha : c.Admits members a) (hi : n.Inv) (he : (c a.node).Evolves n a.call)
    (hg : c.Grows c') (hc' : c' a.node = n) :
    (n.raft.state = .candidate →
      c'.VotesFor members a.node n.raft.volatileTerm n.raft.voteMask n.raft.voteCount) ∧
    (n.raft.state = .leader → c'.Elected members quorum a.node n.raft.volatileTerm) := by
  have hse : n.raft.self = a.node := he.self_eq.trans (h.self_eq _ ha.member)
  have hq : n.raft.electionQuorum = quorum a.node := he.quorum_eq.trans (h.quorum_eq _ ha.member)
  -- a candidate or leader has its vote for itself on disk
  have ho (hs : n.raft.state ≠ .follower) :
      (⟨n.raft.volatileTerm, a.node⟩ : Ballot) ∈ (c' a.node).ballots := by
    obtain ⟨-, ht, hv, hvs⟩ := hi.raft.roleOnDisk hs
    have hb : n.raft.ballot = ⟨n.raft.volatileTerm, a.node⟩ :=
      Ballot.ext ht (hv.trans (hvs.trans hse))
    rw [hc', ← hb]
    exact hi.current
  rcases he.role with ⟨hs, hb, hm, hn⟩ | hf | hco
  · have ht : n.raft.volatileTerm = (c a.node).raft.volatileTerm := congrArg Ballot.term hb
    rw [hs, ht, hm, hn]
    exact ⟨fun hs => (h.candidate _ ha.member hs).mono hg,
      fun hs => (h.leader _ ha.member hs).mono hg⟩
  · constructor
    · intro hs
      obtain ⟨hm, hn⟩ := hf.1 hs
      rw [hm, hn, hse]
      have hl : a.node < vclockMax := hse ▸ hi.raft.self_lt
      simpa using votesFor_none.add hl ha.member (ho (by simp [hs]))
    · intro hs
      have hon : quorum a.node = 1 := hq.symm.trans (hf.2 hs)
      refine ⟨{a.node}, by simpa using ha.member, by simp [hon], ?_⟩
      intro k hk
      rw [Finset.mem_singleton.mp hk]
      exact ho (by simp [hs])
  · cases hca : a.call with
    | processMsg req source =>
      rw [hca] at hco
      obtain ⟨hcn, hr⟩ := hco
      have hso : source ∈ members := by simpa [RaftCall.FromMember, hca] using ha.fromMember
      have hl : source < vclockMax := by
        have hva := ha.valid
        rw [hca] at hva
        exact hva.2.1
      have hsn : req ∈ (c source).sent := by simpa [Sent, hca] using ha.sent
      have ht : n.raft.volatileTerm = (c a.node).raft.volatileTerm :=
        congrArg Ballot.term hcn.volatile_eq
      have hv := (h.node source hso).sent req hsn
      rw [hr, h.self_eq _ ha.member, ← ht] at hv
      have hol := (h.candidate _ ha.member hcn.candidate).mono hg
      have hne := hol.add hl hso (hg source (ht ▸ hv))
      rw [← ht, ← hcn.mask_eq, ← hcn.count_eq] at hne
      refine ⟨fun _ => hne, fun hs => hne.elected ?_⟩
      rw [← h.quorum_eq _ ha.member]
      exact hcn.elected hs
    | _ =>
      rw [hca] at hco
      exact hco.elim

lemma step_grows {a : ClusterAction} (ha : c.Admits members a)
    (hstep : c.step a = some c') :
    ∃ n, c' = Function.update c a.node n ∧ n.Inv ∧ (c a.node).Evolves n a.call ∧ c.Grows c' := by
  obtain ⟨n, hc, rfl⟩ := Option.map_eq_some_iff.mp hstep
  obtain ⟨hi, he⟩ := call_step (h.node _ ha.member) ha.valid hc
  refine ⟨n, rfl, hi, he ha.keepsQuorum, ?_⟩
  intro k
  by_cases hk : k = a.node
  · subst hk
    simpa using (he ha.keepsQuorum).ballots
  · simp [hk]

lemma Cluster.Inv.step {a : ClusterAction}
    (ha : c.Admits members a) (hstep : c.step a = some c') : c'.Inv members quorum := by
  obtain ⟨n, hc', hi, he, hg⟩ := step_grows h ha hstep
  have hn : c' a.node = n := by simp [hc']
  -- what holds of the new node and of every old one holds of the nodes of the new cluster
  have hal {P : Nat → RaftNode → Prop} (hno : P a.node n) (hr : ∀ k ∈ members, P k (c k)) :
      ∀ k ∈ members, P k (c' k) := by
    intro k hk
    by_cases hka : k = a.node
    · rw [hka, hn]
      exact hno
    · have ho : c' k = c k := by simp [hc', hka]
      rw [ho]
      exact hr k hk
  obtain ⟨hca, hl⟩ := votes_step h ha hi he hg hn
  constructor
  · exact hal (P := fun _ m => m.Inv) hi h.node
  · exact hal (P := fun k m => m.raft.self = k) (he.self_eq.trans (h.self_eq _ ha.member)) h.self_eq
  · exact hal (P := fun k m => m.raft.electionQuorum = quorum k)
      (he.quorum_eq.trans (h.quorum_eq _ ha.member)) h.quorum_eq
  · exact hal (P := fun k m => m.raft.state = .candidate →
      c'.VotesFor members k m.raft.volatileTerm m.raft.voteMask m.raft.voteCount)
      hca fun k hk hs => (h.candidate k hk hs).mono hg
  · exact hal (P := fun k m => m.raft.state = .leader →
      c'.Elected members quorum k m.raft.volatileTerm)
      hl fun k hk hs => (h.leader k hk hs).mono hg

/-- An election won once stays won, along every run. -/
lemma elected_run {actions : List ClusterAction}
    (had : Along step (Admits members) c actions)
    (hr : run step c actions = some c') (he : c.Elected members quorum i term) :
    c'.Inv members quorum ∧ c'.Elected members quorum i term := by
  refine run_invariant_along (P := fun c => c.Inv members quorum ∧
    c.Elected members quorum i term) ?_ hr had ⟨h, he⟩
  rintro c a c' hstep ha ⟨hi, hel⟩
  obtain ⟨-, -, -, -, hg⟩ := step_grows hi ha hstep
  exact ⟨hi.step ha hstep, hel.mono hg⟩

end

lemma Cluster.Elected.unique (hq : MajorityQuorums members quorum) (h : c.Inv members quorum)
    (hi : i ∈ members) (hj : j ∈ members) (he : c.Elected members quorum i term)
    (hej : c.Elected members quorum j term) : i = j := by
  obtain ⟨V, hV, hca, hv⟩ := he
  obtain ⟨W, hW, hcr, hvo⟩ := hej
  have hc : members.card < V.card + W.card := by
    have hm := hq.majority i hi
    have hmj := hq.majority j hj
    omega
  exact elected_unique (fun k hk => (h.node k hk).single) hV hW hc (hq.id_ne i hi)
    (hq.id_ne j hj) hv hvo

/-- A node that leads a term, now or at any earlier time, is the only leader of that term. -/
theorem election_safety {vclock : Nat → Vclock} {before after : List ClusterAction}
    (hq : MajorityQuorums members quorum)
    (hbefore : Along step (Admits members) (initial quorum vclock) before)
    (hrun : run step (initial quorum vclock) before = some c)
    (hafter : Along step (Admits members) c after)
    (hrun' : run step c after = some c') (hi : i ∈ members) (hj : j ∈ members)
    (hli : (c i).raft.state = .leader) (hlj : (c' j).raft.state = .leader)
    (hterm : (c i).raft.term = (c' j).raft.term) : i = j := by
  have hin : c.Inv members quorum :=
    run_invariant_along (fun hstep ha hc => hc.step ha hstep) hrun hbefore
      (Cluster.initial_inv hq vclock)
  obtain ⟨hin', he⟩ := elected_run hin hafter hrun' (hin.leader i hi hli)
  have ht := ((hin.node i hi).raft.roleOnDisk (by simp [hli])).2.1
  have htj := ((hin'.node j hj).raft.roleOnDisk (by simp [hlj])).2.1
  rw [← ht, hterm, htj] at he
  exact Elected.unique hq hin' hi hj he (hin'.leader j hj hlj)

/-- Instance 1 of three stands for election and gets the vote of instance 2. -/
def clusterElection : List ClusterAction :=
  [⟨1, .cfgIsEnabled true⟩, ⟨1, .cfgIsCandidate true⟩, ⟨1, .timerExpired⟩,
    ⟨1, .processAsync ⟨0, 0⟩⟩, ⟨1, .writeDone ⟨0, 0⟩⟩, ⟨2, .cfgIsEnabled true⟩,
    ⟨2, .processMsg ⟨2, 1, RaftState.candidate.code, some vclockCreate⟩ 1⟩,
    ⟨2, .processAsync ⟨0, 0⟩⟩, ⟨2, .writeDone ⟨0, 0⟩⟩,
    ⟨1, .processMsg ⟨2, 1, RaftState.follower.code, none⟩ 2⟩]

lemma clusterElection_admitted : Along step (Admits {1, 2, 3})
      (initial (fun _ => 2) fun _ => vclockCreate) clusterElection := by
  have hf : (1 : Nat) ∈ ({1, 2, 3} : Finset Nat) := by decide
  have hs : (2 : Nat) ∈ ({1, 2, 3} : Finset Nat) := by decide
  have hmsg₁ : 0 < 1 ∧ 1 < vclockMax ∧ 1 ≠ 2 ∧ 2 < 2 ^ 64 ∧ 1 < 2 ^ 32 := by decide
  have hmsg₂ : 0 < 2 ∧ 2 < vclockMax ∧ 2 ≠ 1 ∧ 2 < 2 ^ 64 ∧ 1 < 2 ^ 32 := by decide
  refine along_cons ⟨hf, trivial, trivial, trivial, trivial⟩ rfl ?_
  refine along_cons ⟨hf, trivial, trivial, trivial, trivial⟩ rfl ?_
  refine along_cons ⟨hf, rfl, trivial, trivial, trivial⟩ rfl ?_
  refine along_cons ⟨hf, rfl, trivial, trivial, trivial⟩ rfl ?_
  refine along_cons ⟨hf, ⟨_, rfl⟩, trivial, trivial, trivial⟩ rfl ?_
  refine along_cons ⟨hs, trivial, trivial, trivial, trivial⟩ rfl ?_
  refine along_cons ⟨hs, hmsg₁, hf, mem_singleton_self _, trivial⟩ rfl ?_
  refine along_cons ⟨hs, rfl, trivial, trivial, trivial⟩ rfl ?_
  refine along_cons ⟨hs, ⟨_, rfl⟩, trivial, trivial, trivial⟩ rfl ?_
  refine along_cons ⟨hf, hmsg₂, hs, mem_singleton_self _, trivial⟩ rfl ?_
  trivial

/-- After this election no other instance leads its term. -/
theorem election_safety_elected :
    ∃ c, run step (initial (fun _ => 2) fun _ => vclockCreate) clusterElection =
        some c ∧ (c 1).raft.state = .leader ∧ (c 1).raft.term = 2 ∧
      ∀ j ∈ ({1, 2, 3} : Finset Nat), (c j).raft.state = .leader → (c j).raft.term = 2 → 1 = j := by
  have key (c : Cluster) (hr : run step
      (initial (fun _ => 2) fun _ => vclockCreate) clusterElection = some c) :
      (c 1).raft.state = .leader ∧ (c 1).raft.term = 2 ∧
        ∀ j ∈ ({1, 2, 3} : Finset Nat), (c j).raft.state = .leader → (c j).raft.term = 2 →
          1 = j := by
    have hl : (c 1).raft.state = .leader ∧ (c 1).raft.term = 2 := by
      cases hr
      exact ⟨rfl, rfl⟩
    have hq : MajorityQuorums {1, 2, 3} fun _ => 2 := ⟨by decide, by decide, by decide⟩
    have hn : Along step (Admits {1, 2, 3}) c [] := trivial
    refine ⟨hl.1, hl.2, fun j hj hlj ht => ?_⟩
    exact election_safety hq clusterElection_admitted hr hn rfl (by decide) hj hl.1 hlj
      (hl.2.trans ht.symm)
  exact ⟨_, rfl, key _ rfl⟩

/-- At every later time, restarts included, a quorum has persisted its vote for a leader in the
term of that leader, or a later term. -/
theorem leader_vote_persists {vclock : Nat → Vclock} {before after : List ClusterAction}
    (hq : MajorityQuorums members quorum)
    (hbefore : Along step (Admits members) (initial quorum vclock) before)
    (hrun : run step (initial quorum vclock) before = some c)
    (hafter : Along step (Admits members) c after) (hrun' : run step c after = some c')
    (hi : i ∈ members) (hli : (c i).raft.state = .leader) :
    ∃ V ⊆ members, quorum i ≤ V.card ∧ ∀ k ∈ V, (c i).raft.term < (c' k).raft.term ∨
      (c i).raft.term = (c' k).raft.term ∧ (c' k).raft.vote = i := by
  have hin : c.Inv members quorum :=
    run_invariant_along (fun hstep ha hc => hc.step ha hstep) hrun hbefore
      (Cluster.initial_inv hq vclock)
  obtain ⟨hin', V, hV, hca, hv⟩ := elected_run hin hafter hrun' (hin.leader i hi hli)
  rw [((hin.node i hi).raft.roleOnDisk (by simp [hli])).2.1]
  refine ⟨V, hV, hca, fun k hk => ?_⟩
  rcases (hin'.node k (hV hk)).latest _ (hv k hk) with hlt | ⟨ht, hz | hvo⟩
  · exact .inl hlt
  · exact absurd hz (hq.id_ne i hi)
  · exact .inr ⟨ht, hvo.symm⟩

theorem leader_vote_persists_elected :
    ∃ c, run step (initial (fun _ => 2) fun _ => vclockCreate) clusterElection = some c ∧
      ∃ V ⊆ ({1, 2, 3} : Finset Nat), 2 ≤ V.card ∧ ∀ k ∈ V, (c 1).raft.term < (c k).raft.term ∨
        (c 1).raft.term = (c k).raft.term ∧ (c k).raft.vote = 1 := by
  have hq : MajorityQuorums {1, 2, 3} fun _ => 2 := ⟨by decide, by decide, by decide⟩
  have hn (c : Cluster) : Along step (Admits {1, 2, 3}) c [] := trivial
  exact ⟨_, rfl, leader_vote_persists hq clusterElection_admitted rfl (hn _) rfl (by decide) rfl⟩

end TarantoolStorage
