/-
  Election safety, in a cluster.

  `election_safety`: in a cluster whose nodes share one membership, whatever messages are lost,
  duplicated, delayed or reordered and whichever nodes crash and restart, with or without leader
  restore, two nodes are never leaders under one leader id, nor, with the standard leader id, in
  one term, be it at one time or at different times of the run. Committed votes are comparable
  wherever they are.

  Nothing is said here about logs: `Elected` is about the votes granted only.
-/
import ZenohRaft.Election.Node

namespace ZenohRaft

open Lib

variable {NID N D : Type} [LinearOrder NID]

namespace Cluster

variable {mode : LeaderIdMode} {M : Membership NID N} {c c' : Cluster NID N D}

/-- The effective membership of every node is `M`. -/
def Shares (M : Membership NID N) (c : Cluster NID N D) : Prop :=
  ∀ k, (c k).engine.state.membershipState.effective.membership = M

/-- The votes that were granted so far. -/
def Granted (c : Cluster NID N D) (k : NID) (l : LeaderId NID) : Prop :=
  ∃ msg ∈ (c k).sent, msg.Grants k l

/-- The node a vote is for has saved this vote or a later one. -/
def Issued (mode : LeaderIdMode) (c : Cluster NID N D) (v : Vote NID) : Prop :=
  v.toNonCommitted.Le mode ((c v.leaderId.nodeId).savedVote.floor v.leaderId.nodeId)

/-- The votes that the node `k` may adopt. -/
def Admits (mode : LeaderIdMode) (M : Membership NID N) (c : Cluster NID N D) (k : NID)
    (v : Vote NID) : Prop :=
  (v.committed = true → Elected c.Granted (· = M) v.leaderId) ∧
    (v.leaderId.nodeId ≠ k → c.Issued mode v)

/-- The invariant of elections. -/
def VoteInv (mode : LeaderIdMode) (M : Membership NID N) (c : Cluster NID N D) : Prop :=
  ∀ k, (c k).id = k ∧ (c k).engine.config.mode = mode ∧
    (c k).VoteInv (c.Admits mode M k) c.Granted (· = M)

theorem voteEnv (mode : LeaderIdMode) (M : Membership NID N) (c : Cluster NID N D) (k : NID) :
    VoteEnv (c.Admits mode M k) c.Granted (· = M) k :=
  ⟨fun _ hl => ⟨nofun, fun hne => absurd hl hne⟩, fun _ hv => ⟨nofun, hv.2⟩,
    fun _ hl hel => ⟨fun _ => hel, fun hne => absurd hl hne⟩⟩

/-- Votes in messages are issued, whoever sends them. -/
theorem issued_of_out {A : Vote NID → Prop} {G : NID → LeaderId NID → Prop}
    {P : Membership NID N → Prop} {src : NID} (hid : (c src).id = src)
    (hmode : (c src).engine.config.mode = mode) (hinv : (c src).VoteInv A G P)
    (hA : ∀ v, A v → v.leaderId.nodeId ≠ src → c.Issued mode v) {msg : Message NID N D}
    (hmsg : msg ∈ (c src).out) {v : Vote NID} (hv : v ∈ msg.vote?) : c.Issued mode v := by
  obtain ⟨hadmitted, hown⟩ := hinv.out.votes msg hmsg v hv
  rw [hid, hmode] at hown
  by_cases ho : v.leaderId.nodeId = src
  · have hle := hown ho
    unfold Issued
    rw [ho]
    exact hle
  · exact hA v hadmitted ho

theorem VoteInv.issued (h : c.VoteInv mode M) {src : NID} {msg : Message NID N D}
    (hmsg : msg ∈ (c src).out) {v : Vote NID} (hv : v ∈ msg.vote?) : c.Issued mode v :=
  issued_of_out (h src).1 (h src).2.1 (h src).2.2 (fun _ hadmits => hadmits.2) hmsg hv

/-- An issued vote that the node `k` may adopt is in order when it arrives there. -/
theorem Issued.incoming {A : Vote NID → Prop} {k : NID} {v : Vote NID} (h : c.Issued mode v)
    (hid : (c k).id = k) (hmode : (c k).engine.config.mode = mode) (hA : A v) :
    (c k).engine.Incoming A (c k).savedVote v := by
  refine ⟨hA, fun ho => ?_⟩
  have hk : (c k).engine.config.id = k := hid
  rw [hk] at ho ⊢
  rw [hmode]
  unfold Issued at h
  rw [ho] at h
  exact h

omit [LinearOrder NID] in
theorem mem_out_of_sent {n : Node NID N D} {msg : Message NID N D} (h : msg ∈ n.sent) :
    msg ∈ n.out := by
  unfold Node.out
  simp only [List.mem_append]
  exact Or.inl (Or.inl h)

theorem VoteInv.receivable (h : c.VoteInv mode M) {src : NID} {msg : Message NID N D}
    (hmsg : msg ∈ (c src).sent) (k : NID) :
    Node.Receivable (c.Admits mode M k) c.Granted (c k) msg := by
  obtain ⟨hid, -, hinv⟩ := h src
  have hout := mem_out_of_sent hmsg
  refine ⟨?_, ?_⟩
  · intro v hv
    have hissued := h.issued hout hv
    exact hissued.incoming (h k).1 (h k).2.1
      ⟨(hinv.out.votes msg hout v hv).1.1, fun _ => hissued⟩
  · intro k' l hg
    obtain ⟨hk', -⟩ := hinv.out.grants msg hout k' l hg
    rw [hid] at hk'
    subst hk'
    exact ⟨msg, hmsg, hg⟩

/-! ## Steps and runs -/

/-- How a cluster moves on. -/
def Advances (mode : LeaderIdMode) (c c' : Cluster NID N D) : Prop :=
  ∀ k, (∀ msg ∈ (c k).sent, msg ∈ (c' k).sent) ∧
    ((c k).savedVote.floor k).Le mode ((c' k).savedVote.floor k)

theorem Advances.granted (h : Advances mode c c') {k : NID} {l : LeaderId NID}
    (hg : c.Granted k l) : c'.Granted k l := by
  obtain ⟨msg, hmsg, hgr⟩ := hg
  exact ⟨msg, (h k).1 msg hmsg, hgr⟩

theorem Advances.admits (h : Advances mode c c') {k : NID} {v : Vote NID}
    (hv : c.Admits mode M k v) : c'.Admits mode M k v :=
  ⟨fun hc => (hv.1 hc).mono fun _ _ hg => h.granted hg, fun ho => (hv.2 ho).trans (h _).2⟩

/-- One node moves on. -/
theorem Advances.update {k : NID} {n' : Node NID N D} (hid : (c k).id = k)
    (hmode : (c k).engine.config.mode = mode) (h : (c k).Advances n') :
    Advances mode c (Function.update c k n') := by
  intro j
  by_cases hj : j = k
  · subst hj
    rw [Function.update_self]
    have hsaved := h.saved
    rw [hid, hmode] at hsaved
    exact ⟨h.sent, hsaved⟩
  · rw [Function.update_of_ne hj]
    exact ⟨fun _ hmsg => hmsg, .refl _⟩

theorem VoteInv.step [DecidableEq N] (h : c.VoteInv mode M) (hM : c.Shares M)
    {l : Label NID N D} (hs : c.step l = some c') :
    c'.VoteInv mode M ∧ Advances mode c c' := by
  obtain ⟨ev, n', hn, rfl, hev⟩ := step_cases hs
  obtain ⟨hid, hmode, hinv⟩ := h l.node
  have henv := voteEnv mode M c l.node
  rw [← hid] at henv
  obtain ⟨hinv', hadv⟩ := hinv.step (by rw [hid] at henv ⊢; exact henv.ownVotes) (hM l.node)
    (fun msg hmsg => by
      obtain ⟨src, hsent, -⟩ := eventOf_receive (hmsg ▸ hev)
      exact h.receivable hsent l.node)
    (fun msg _ cand hwins hel => by
      obtain ⟨hcand, -⟩ := hinv.engine.candidate cand (Node.candidate_of_wins hwins)
      exact (voteEnv mode M c l.node).elected _ (hcand.own.trans hid) hel) hn
  have hstep := Advances.update hid hmode hadv
  refine ⟨?_, hstep⟩
  intro k
  by_cases hk : k = l.node
  · subst hk
    rw [Function.update_self]
    exact ⟨hadv.id.trans hid, by rw [hadv.config, hmode],
      hinv'.mono (fun v hv => hstep.admits hv) fun _ _ hg => hstep.granted hg⟩
  · rw [Function.update_of_ne hk]
    exact ⟨(h k).1, (h k).2.1,
      (h k).2.2.mono (fun v hv => hstep.admits hv) fun _ _ hg => hstep.granted hg⟩

theorem initial_voteInv {e0 : Entry NID N D} (M : Membership NID N) (h : Initial mode e0 c) :
    c.VoteInv mode M := by
  intro k
  obtain ⟨config, now, rfl, hmode, hstart⟩ := h k
  have henv := voteEnv mode M c config.id
  have hnil : ∀ s, OutOK (c.Admits mode M config.id) config.mode config.id s
      ([] : List (Message NID N D)) := fun s =>
    ⟨by simp, by simp, by simp⟩
  obtain ⟨hinv, hconfig, -, -⟩ := Node.start_voteInv henv.ownVotes (henv.own _ rfl) (hnil _) hstart
  exact ⟨by rw [Node.id, hconfig], by rw [hconfig, hmode], hinv⟩

theorem VoteInv.run [DecidableEq N] {ls : List (Label NID N D)} (h : c.VoteInv mode M)
    (hM : c.EveryStep (fun c _ => c.Shares M) ls) (hr : c.run ls = some c') :
    c'.VoteInv mode M ∧ ∀ k l, c.Granted k l → c'.Granted k l := by
  refine run_induction (I := fun c' => c'.VoteInv mode M ∧ ∀ k l, c.Granted k l → c'.Granted k l)
    ?_ ⟨h, fun _ _ hg => hg⟩ hM hr
  rintro c1 lab c2 ⟨hinv, hg⟩ hM' hstep
  obtain ⟨hinv', hadv⟩ := hinv.step hM' hstep
  exact ⟨hinv', fun k l hgr => hadv.granted (hg k l hgr)⟩

/-! ## Uniqueness -/

/-- A node grants one vote of a rank, and two quorums share a node. -/
theorem VoteInv.elected_unique (h : c.VoteInv mode M) (hM : M.configs ≠ []) {l l' : LeaderId NID}
    (hl : Elected c.Granted (· = M) l) (hl' : Elected c.Granted (· = M) l')
    (hr : l.toCommitted mode = l'.toCommitted mode) : l = l' := by
  obtain ⟨_, p, rfl, hnd, hq, hp⟩ := hl
  obtain ⟨_, p', rfl, hnd', hq', hp'⟩ := hl'
  obtain ⟨config, hconfig⟩ := List.exists_mem_of_ne_nil _ hM
  obtain ⟨k, hk, hk'⟩ := quorumsMeet_of_common hconfig hconfig p p' hnd hnd' hq hq'
  obtain ⟨msg, hmsg, hg⟩ := hp k hk
  obtain ⟨msg', hmsg', hg'⟩ := hp' k hk'
  obtain ⟨-, hmode, hinv⟩ := h k
  exact hinv.out.unique msg (mem_out_of_sent hmsg) msg' (mem_out_of_sent hmsg') k k l l' hg hg'
    (by rw [hmode]; exact hr)

/-- Votes of two states of a run. -/
theorem VoteInv.elected_of_hasVote (h : c.VoteInv mode M) {k : NID} {v : Vote NID}
    (hv : (c k).HasVote v) (hc : v.committed = true) : Elected c.Granted (· = M) v.leaderId :=
  ((h k).2.2.admitted hv).1 hc

theorem VoteInv.leader_id (h : c.VoteInv mode M) {k : NID} {l : Leader NID N}
    (hl : (c k).engine.leader = some l) : l.committedVote.nodeId = k := by
  obtain ⟨hid, -, hinv⟩ := h k
  exact (hinv.engine.leader _ (Engine.leaderVote_eq hl)).2.trans hid

/-- Let the nodes of a cluster share a membership with at least one voter set, and let `c` and a
    later `c'` be states of a run. A leader in `c` and a leader in `c'` with one leader id are the
    same node; with the standard leader id, so are leaders of one term. Any two committed votes
    in `c` and `c'` are comparable. -/
theorem election_safety [DecidableEq N] {e0 : Entry NID N D} {c0 : Cluster NID N D}
    {ls ls' : List (Label NID N D)} (hM : M.configs ≠ []) (hinit : Initial mode e0 c0)
    (hshare : c0.EveryStep (fun c _ => c.Shares M) (ls ++ ls')) (hrun : c0.run ls = some c)
    (hrun' : c.run ls' = some c') :
    (∀ k k' l l', (c k).engine.leader = some l → (c' k').engine.leader = some l' →
      l.committedVote = l'.committedVote ∨
        mode = .std ∧ l.committedVote.term = l'.committedVote.term → k = k') ∧
    (∀ k k' v v', (c k).HasVote v → (c' k').HasVote v' → v.committed = true →
      v'.committed = true → (v.partialCmp mode v').isSome) := by
  obtain ⟨hls, hls'⟩ := everyStep_append hshare
  obtain ⟨hc, -⟩ := (initial_voteInv M hinit).run hls hrun
  obtain ⟨hc', hgranted⟩ := hc.run (hls' c hrun) hrun'
  have hunique : ∀ k k' v v', (c k).HasVote v → (c' k').HasVote v' → v.committed = true →
      v'.committed = true → v.leaderId.toCommitted mode = v'.leaderId.toCommitted mode →
        v.leaderId = v'.leaderId := by
    intro k k' v v' hv hv' hcom hcom' hr
    exact hc'.elected_unique hM ((hc.elected_of_hasVote hv hcom).mono hgranted)
      (hc'.elected_of_hasVote hv' hcom') hr
  refine ⟨?_, ?_⟩
  · intro k k' l l' hl hl' hsame
    have heq : l.committedVote = l'.committedVote := by
      rcases hsame with heq | ⟨rfl, hterm⟩
      · exact heq
      · refine hunique k k' _ _ (.leader l hl rfl) (.leader l' hl' rfl) rfl rfl ?_
        unfold LeaderId.toCommitted
        rw [hterm]
    rw [← hc.leader_id hl, ← hc'.leader_id hl', heq]
  · intro k k' v v' hv hv' hcom hcom'
    refine Vote.partialCmp_isSome fun hrank => ?_
    have hl := hunique k k' v v' hv hv' hcom hcom' (congrArg (fun r => (ofLex r).1) hrank)
    obtain ⟨l, b⟩ := v
    obtain ⟨l', b'⟩ := v'
    subst hl hcom hcom'
    rfl

instance [Fintype NID] [DecidableEq N] (M : Membership NID N) (c : Cluster NID N D) :
    Decidable (c.Shares M) :=
  inferInstanceAs (Decidable (∀ _, _ = _))

/-- Node 0 is elected, saves its committed vote, crashes and is leader again after the restart. -/
theorem election_safety_restored :
    ∃ c c' : Cluster (Fin 3) Unit Nat,
      (Three.cluster true).run Three.election = some c ∧
      c.run [Three.event 0 .runCommand, Three.event 0 .runCommand,
        Three.event 0 (.restart 0 0)] = some c' ∧
      (c 0).engine.leader.isSome = true ∧ (c' 0).engine.leader.isSome = true ∧
      ∀ k k' l l', (c k).engine.leader = some l → (c' k').engine.leader = some l' →
        l.committedVote.term = l'.committedVote.term → k = k' := by
  have hrun : (Three.cluster true).run Three.election = _ := run_eq_after (by decide +kernel)
  have hrun' : ((Three.cluster true).after Three.election).run [Three.event 0 .runCommand,
      Three.event 0 .runCommand, Three.event 0 (.restart 0 0)] = _ :=
    run_eq_after (by decide +kernel)
  have h := election_safety (M := Three.membership) (by decide) (Three.cluster_initial true)
    (by decide +kernel) hrun hrun'
  exact ⟨_, _, hrun, hrun', by decide +kernel, by decide +kernel,
    fun k k' l l' hl hl' hterm => h.1 k k' l l' hl hl' (Or.inr ⟨rfl, hterm⟩)⟩

end Cluster

end ZenohRaft
