/-
  Election safety.

  The commands of a node run in the order they were pushed, and a vote is durable when
  `save_vote` returns. So an answer that carries a vote goes out only after that vote, or one
  above it, is saved: no flush has to be waited for. `Engine.VoteInv` says this of an engine
  and the saved vote. From it, a node never grants two votes of one rank, whatever it forgets in
  a crash, and two candidates of one rank cannot both have a quorum.

  A restart without leader restore turns a saved vote of the node itself back into an
  uncommitted one. `Vote.floor` is what is left of a saved vote in that case.
-/
import ZenohRaft.Frame
import ZenohRaft.Lib.WriteBehind

namespace ZenohRaft

open Lib

variable {NID N D : Type} [LinearOrder NID]

/-! ## The order of votes -/

namespace Vote

/-- `a <= b` in the partial order of votes. -/
def Le (mode : LeaderIdMode) (a b : Vote NID) : Prop := a = b ∨ a.rank mode < b.rank mode

variable {mode : LeaderIdMode} {a b c v : Vote NID} {id : NID}

theorem Le.refl (a : Vote NID) : Le mode a a := Or.inl rfl

theorem Le.rank (h : Le mode a b) : a.rank mode ≤ b.rank mode := by
  rcases h with rfl | h
  · exact le_rfl
  · exact h.le

theorem Le.trans (h : Le mode a b) (h' : Le mode b c) : Le mode a c := by
  rcases h with rfl | h
  · exact h'
  · exact Or.inr (h.trans_le h'.rank)

theorem Le.eq_of_rank (h : Le mode a b) (hr : b.rank mode ≤ a.rank mode) : a = b :=
  h.resolve_right (not_lt.2 hr)

/-- Votes that do not differ in one rank are comparable. -/
theorem partialCmp_isSome (h : a.rank mode = b.rank mode → a = b) :
    (a.partialCmp mode b).isSome = true := by
  rw [partialCmp_eq]
  split
  · rfl
  · rename_i hne
    rcases lt_trichotomy (a.rank mode) (b.rank mode) with hlt | heq | hgt
    · simp [hlt]
    · exact absurd (h heq) hne
    · simp [hgt, not_lt.2 hgt.le]

/-- What is left of a saved vote after a restart at the node `id`. -/
def floor (id : NID) (v : Vote NID) : Vote NID :=
  if v.leaderId.nodeId = id then v.toNonCommitted else v

theorem floor_of_own (h : v.leaderId.nodeId = id) : v.floor id = v.toNonCommitted := if_pos h

theorem floor_of_foreign (h : v.leaderId.nodeId ≠ id) : v.floor id = v := if_neg h

@[simp] theorem floor_leaderId (id : NID) (v : Vote NID) : (v.floor id).leaderId = v.leaderId := by
  unfold floor
  split <;> rfl

theorem floor_floor (id : NID) (v : Vote NID) : (v.floor id).floor id = v.floor id := by
  by_cases h : v.leaderId.nodeId = id
  · rw [floor_of_own h, floor_of_own (v := v.toNonCommitted) h]
    rfl
  · rw [floor_of_foreign h, floor_of_foreign h]

omit [LinearOrder NID] in
theorem toNonCommitted_of_not_committed (h : v.committed = false) : v.toNonCommitted = v := by
  obtain ⟨l, c⟩ := v
  subst h
  rfl

theorem floor_of_not_committed (h : v.committed = false) : v.floor id = v := by
  unfold floor
  split
  · exact toNonCommitted_of_not_committed h
  · rfl

theorem toNonCommitted_le (mode : LeaderIdMode) (v : Vote NID) : Le mode v.toNonCommitted v := by
  obtain ⟨l, _ | _⟩ := v
  · exact Or.inl rfl
  · exact Or.inr (rank_lt_iff.2 (Or.inr ⟨rfl, rfl⟩))

theorem le_toCommitted (mode : LeaderIdMode) (v : Vote NID) : Le mode v v.toCommitted := by
  obtain ⟨l, _ | _⟩ := v
  · exact Or.inr (rank_lt_iff.2 (Or.inr ⟨rfl, rfl⟩))
  · exact Or.inl rfl

theorem floor_le (mode : LeaderIdMode) (id : NID) (v : Vote NID) : Le mode (v.floor id) v := by
  unfold floor
  split
  · exact toNonCommitted_le mode v
  · exact .refl v

/-- There is no rank between an uncommitted vote and the committed one. -/
theorem rank_le_of_toNonCommitted_lt (h : a.toNonCommitted.rank mode < b.rank mode) :
    a.rank mode ≤ b.rank mode := by
  rw [rank_lt_iff] at h
  by_contra hcon
  rw [not_le, rank_lt_iff] at hcon
  rcases h with h | ⟨h, hc⟩
  · rcases hcon with hcon | ⟨hcon, -⟩
    · exact absurd hcon (not_lt.2 h.le)
    · exact absurd hcon.symm h.ne
  · rcases hcon with hcon | ⟨-, hcon⟩
    · exact absurd h.symm hcon.ne
    · have hb : b.committed = true := (Bool.lt_iff.1 hc).2
      rw [hb] at hcon
      exact absurd hcon (not_lt.2 le_top)

/-- Taking over a greater vote keeps what a restart would leave: a vote of the node itself is
    either new and uncommitted, or no later than what the node has saved. -/
theorem floor_le_floor {m : Vote NID} (hm : m = a ∨ m = a.floor id)
    (hlt : m.rank mode < b.rank mode)
    (hown : b.leaderId.nodeId = id → b.committed = false ∨ Le mode b.toNonCommitted (a.floor id)) :
    Le mode (a.floor id) (b.floor id) := by
  have hfloor : Le mode (a.floor id) m := by
    rcases hm with rfl | rfl
    · exact floor_le mode id m
    · exact .refl _
  have hb : (a.floor id).rank mode < b.rank mode := hfloor.rank.trans_lt hlt
  by_cases hid : b.leaderId.nodeId = id
  · rcases hown hid with hc | hle
    · rw [floor_of_not_committed hc]
      exact Or.inr hb
    · rw [floor_of_own hid]
      refine Or.inl (hle.eq_of_rank ?_).symm
      by_contra hcon
      exact absurd (rank_le_of_toNonCommitted_lt (not_le.1 hcon)) (not_le.2 hb)
  · rw [floor_of_foreign hid]
    exact Or.inr hb

end Vote

/-! ## Votes in commands and messages -/

/-- The saved vote after a command. -/
def voteStep (v : Vote NID) : Command NID N D → Vote NID
  | .saveVote w => w
  | _ => v

/-- The vote that a response carries. -/
def Respond.vote? : Respond NID → Option (Vote NID)
  | .vote _ _ _ resp => some resp.vote
  | .appendEntries _ (.error (.higherVote v)) => some v
  | .appendEntries _ _ => none
  | .installFullSnapshot _ _ v => some v
  | .initialized _ => none

/-- What has to hold of a command that will find the vote `r` saved. `A` are the votes that the
    node may adopt. -/
def Command.VoteOK (A : Vote NID → Prop) (mode : LeaderIdMode) (id : NID) (r : Vote NID) :
    Command NID N D → Prop
  | .saveVote v => (r.floor id).Le mode (v.floor id) ∧ A v
  | .respond _ resp => ∀ v ∈ resp.vote?, (v = r ∨ v = r.floor id) ∧ A v
  | .sendVote isPreVote req => isPreVote = false →
      (req.vote = r ∨ req.vote = r.floor id) ∧ A req.vote ∧ req.vote.committed = false
  | .rebuildReplicationStreams V _ _ => r.floor id = ⟨V, false⟩ ∧ V.nodeId = id ∧ A ⟨V, true⟩
  | _ => True

/-- The votes in a command. -/
def Command.votes : Command NID N D → List (Vote NID)
  | .saveVote v => [v]
  | .respond _ resp => resp.vote?.toList
  | .sendVote false req => [req.vote]
  | .rebuildReplicationStreams V _ _ => [⟨V, true⟩]
  | _ => []

theorem Command.VoteOK.admitted {A : Vote NID → Prop} {mode : LeaderIdMode} {id : NID}
    {r v : Vote NID} {c : Command NID N D} (h : c.VoteOK A mode id r) (hv : v ∈ c.votes) : A v := by
  cases c with
  | saveVote w => exact List.mem_singleton.1 hv ▸ h.2
  | respond w resp => exact (h v (Option.mem_toList.1 hv)).2
  | sendVote isPreVote req =>
    cases isPreVote with
    | true => cases hv
    | false => exact List.mem_singleton.1 hv ▸ (h rfl).2.1
  | rebuildReplicationStreams V targets closeOld => exact List.mem_singleton.1 hv ▸ h.2.2
  | _ => cases hv

/-- A quorum of a membership in `P` has granted `l`, where `G` are the votes granted. -/
def Elected (G : NID → LeaderId NID → Prop) (P : Membership NID N → Prop) (l : LeaderId NID) :
    Prop :=
  ∃ m ids, P m ∧ ids.Nodup ∧ m.isQuorum ids = true ∧ ∀ k ∈ ids, G k l

theorem Elected.mono {G G' : NID → LeaderId NID → Prop} {P : Membership NID N → Prop}
    {l : LeaderId NID} (h : Elected G P l) (hG : ∀ k l, G k l → G' k l) : Elected G' P l := by
  obtain ⟨m, ids, hm, hnd, hq, hids⟩ := h
  exact ⟨m, ids, hm, hnd, hq, fun k hk => hG k l (hids k hk)⟩

/-- What a node may adopt in any case: uncommitted votes for itself, and uncommitted votes where the
    committed one is admitted. -/
structure OwnVotes (A : Vote NID → Prop) (id : NID) : Prop where
  own : ∀ l : LeaderId NID, l.nodeId = id → A ⟨l, false⟩
  nonCommitted : ∀ v, A v → A v.toNonCommitted

/-- What a node may adopt: uncommitted votes for itself, uncommitted votes where the committed
    one is admitted, and the vote of an election that it has won. -/
structure VoteEnv (A : Vote NID → Prop) (G : NID → LeaderId NID → Prop)
    (P : Membership NID N → Prop)
    (id : NID) : Prop where
  own : ∀ l : LeaderId NID, l.nodeId = id → A ⟨l, false⟩
  nonCommitted : ∀ v, A v → A v.toNonCommitted
  elected : ∀ l : LeaderId NID, l.nodeId = id → Elected G P l → A ⟨l, true⟩

theorem VoteEnv.ownVotes {A : Vote NID → Prop} {G : NID → LeaderId NID → Prop}
    {P : Membership NID N → Prop} {id : NID} (h : VoteEnv A G P id) : OwnVotes A id :=
  ⟨h.own, h.nonCommitted⟩

/-! ## The engine -/

/-- A candidate has collected votes that were granted. -/
structure Candidate.VoteOK (G : NID → LeaderId NID → Prop)
    (P : Membership NID N → Prop) (id : NID)
    (c : Candidate NID N) : Prop where
  uncommitted : c.vote.committed = false
  own : c.vote.leaderId.nodeId = id
  quorumSet : P c.progress.quorumSet
  sound : c.progress.Sound
  granted : ∀ item ∈ c.progress.entries, item.progress = true → G item.id c.vote.leaderId

namespace Engine

/-- What the handlers of the engine never touch. -/
def frame (e : Engine NID N D) : EngineConfig NID × PendingResponds NID :=
  (e.config, e.output.pendingResponds)

/-- The votes of an engine with the frame `F`, on top of the saved vote `s`. -/
structure VoteCore (A : Vote NID → Prop) (F : EngineConfig NID × PendingResponds NID)
    (s : Vote NID) (e : Engine NID N D) : Prop where
  frame : e.frame = F
  queue : AllSteps voteStep (Command.VoteOK A e.config.mode e.config.id) s e.output.commands
  memory : e.state.voteRef = runOps voteStep s e.output.commands ∨
    e.state.voteRef = (runOps voteStep s e.output.commands).floor e.config.id
  admitted : A e.state.voteRef

/-- The invariant of elections for one engine, on top of the saved vote `s`. A leader has the
    committed vote of its election, a candidate its own uncommitted one. -/
structure VoteInv (A : Vote NID → Prop) (G : NID → LeaderId NID → Prop)
    (P : Membership NID N → Prop)
    (F : EngineConfig NID × PendingResponds NID) (s : Vote NID) (e : Engine NID N D) : Prop extends
    VoteCore A F s e where
  leader : ∀ V, e.leaderVote = some V → e.state.voteRef = ⟨V, true⟩ ∧ V.nodeId = e.config.id
  candidate : ∀ c, e.candidate = some c →
    c.VoteOK G P e.config.id ∧ c.vote.leaderId = e.state.voteRef.leaderId

variable {A : Vote NID → Prop} {G : NID → LeaderId NID → Prop}
variable {P : Membership NID N → Prop}
variable {F : EngineConfig NID × PendingResponds NID} {s : Vote NID} {e e' : Engine NID N D}

theorem VoteCore.run_of_committed (h : VoteCore A F s e) {V : LeaderId NID}
    (hv : e.state.voteRef = ⟨V, true⟩) (hV : V.nodeId = e.config.id) :
    runOps voteStep s e.output.commands = ⟨V, true⟩ := by
  rcases h.memory with hm | hm
  · rw [← hm, hv]
  · -- a floor of one's own is not committed
    have hl := congrArg Vote.leaderId hm
    rw [hv, Vote.floor_leaderId] at hl
    rw [hv, Vote.floor_of_own (by rw [← hl]; exact hV)] at hm
    cases hm

omit [LinearOrder NID] in
theorem voteStep_of_isPlain {id : NID} {lead : Option (LeaderId NID)} {c : Command NID N D}
    (h : c.IsPlain id lead) (v : Vote NID) : voteStep v c = v := by
  cases c <;> first | rfl | exact h.elim

omit [LinearOrder NID] in
theorem KeepsVote.frame (h : KeepsVote e e') : e'.frame = e.frame := by
  rw [Engine.frame, Engine.frame, h.config, h.pending]

/-- Handlers that have nothing to do with votes keep the invariant. -/
theorem VoteInv.keeps (h : VoteInv A G P F s e) (hk : KeepsVote e e') : VoteInv A G P F s e' := by
  obtain ⟨cs, hcs, hplain⟩ := hk.commands
  have hidle : ∀ c ∈ cs, ∀ v : Vote NID, voteStep v c = v := fun c hc v =>
    voteStep_of_isPlain (hplain c hc) v
  have hrun : runOps voteStep s e'.output.commands = runOps voteStep s e.output.commands := by
    rw [hcs, runOps_append, runOps_eq_of_idle hidle]
  refine ⟨⟨hk.frame.trans h.frame, ?_, ?_, ?_⟩, ?_, ?_⟩
  · rw [hcs, hk.config, allSteps_append]
    refine ⟨h.queue, allSteps_of_idle fun c hc => ⟨hidle c hc _, ?_⟩⟩
    have hc' := hplain c hc
    cases c with
    | rebuildReplicationStreams V targets closeOld =>
      obtain ⟨hv, hV⟩ := h.leader V hc'.1
      refine ⟨?_, hV, by rw [← hv]; exact h.admitted⟩
      rw [h.run_of_committed hv hV, Vote.floor_of_own hV]
      rfl
    | saveVote v => exact hc'.elim
    | respond w r => exact hc'.elim
    | sendVote p req => exact hc'.elim
    | _ => trivial
  · rw [hrun, hk.vote, hk.config]
    exact h.memory
  · rw [hk.vote]
    exact h.admitted
  · rw [hk.vote, hk.leader, hk.config]
    exact h.leader
  · rw [hk.vote, hk.candidate, hk.config]
    exact h.candidate

theorem VoteCore.push (h : VoteCore A F s e) {c : Command NID N D}
    (hidle : ∀ v : Vote NID, voteStep v c = v)
    (hok : c.VoteOK A e.config.mode e.config.id (runOps voteStep s e.output.commands)) :
    VoteCore A F s (e.pushCommand c) := by
  have hrun : runOps voteStep s (e.pushCommand c).output.commands =
      runOps voteStep s e.output.commands := by
    simp [pushCommand, runOps_append, hidle]
  refine ⟨h.frame, allSteps_append.2 ⟨h.queue, hok, trivial⟩, ?_, h.admitted⟩
  rw [hrun]
  exact h.memory

theorem VoteInv.push (h : VoteInv A G P F s e) {c : Command NID N D}
    (hidle : ∀ v : Vote NID, voteStep v c = v)
    (hok : c.VoteOK A e.config.mode e.config.id (runOps voteStep s e.output.commands)) :
    VoteInv A G P F s (e.pushCommand c) :=
  ⟨h.toVoteCore.push hidle hok, h.leader, h.candidate⟩

/-- A response may carry the current vote. -/
theorem VoteInv.pushRespond (h : VoteInv A G P F s e) (w : Option (Condition NID))
    {resp : Respond NID} (hr : ∀ v ∈ resp.vote?, v = e.state.voteRef) :
    VoteInv A G P F s (e.pushCommand (.respond w resp)) := by
  refine h.push (fun _ => rfl) fun v hv => ?_
  rw [hr v hv]
  exact ⟨h.memory, h.admitted⟩

/-! ### Taking over a vote -/

theorem ge_voteRef_cases {v : Vote NID} (hge : v.ge e.config.mode e.state.voteRef = true) :
    (v.gt e.config.mode e.state.voteRef = true ∧
      e.state.voteRef.rank e.config.mode < v.rank e.config.mode) ∨
    (v.gt e.config.mode e.state.voteRef = false ∧ e.state.voteRef = v) := by
  cases hgt : v.gt e.config.mode e.state.voteRef with
  | true => exact Or.inl ⟨rfl, Vote.gt_iff.1 hgt⟩
  | false =>
    refine Or.inr ⟨rfl, ?_⟩
    rcases Vote.ge_iff.1 hge with heq | hlt
    · exact heq.symm
    · rw [Vote.gt_iff.2 hlt] at hgt
      cases hgt

/-- After `adoptVote` the vote is the given one, and nothing else about votes changes. -/
theorem adoptVote_spec (now : Nat) {v : Vote NID}
    (hge : v.ge e.config.mode e.state.voteRef = true) :
    (e.adoptVote now v).state.voteRef = v ∧ (e.adoptVote now v).config = e.config ∧
      (e.adoptVote now v).leader = e.leader ∧ (e.adoptVote now v).candidate = e.candidate ∧
      (e.adoptVote now v).output.pendingResponds = e.output.pendingResponds := by
  rcases ge_voteRef_cases hge with ⟨hgt, -⟩ | ⟨hgt, heq⟩
  · unfold adoptVote
    rw [if_pos hgt]
    exact ⟨acceptLogIo_voteRef _ _ _, rfl, rfl, rfl, rfl⟩
  · unfold adoptVote
    rw [hgt]
    exact ⟨heq, rfl, rfl, rfl, rfl⟩

theorem VoteCore.adoptVote (h : VoteCore A F s e) (now : Nat) {v : Vote NID} (hA : A v)
    (hge : v.ge e.config.mode e.state.voteRef = true)
    (hown : v.leaderId.nodeId = e.config.id → v.committed = false ∨
      v.toNonCommitted.Le e.config.mode
        ((runOps voteStep s e.output.commands).floor e.config.id)) :
    VoteCore A F s (e.adoptVote now v) := by
  obtain ⟨hvote, hconfig, -, -, hpending⟩ := adoptVote_spec now hge
  have hframe : (e.adoptVote now v).frame = F := by
    rw [← h.frame, Engine.frame, Engine.frame, hconfig, hpending]
  rcases ge_voteRef_cases hge with ⟨hgt, hlt⟩ | ⟨hgt, heq⟩
  · have hcmds : (e.adoptVote now v).output.commands = e.output.commands ++ [.saveVote v] := by
      unfold Engine.adoptVote
      rw [if_pos hgt]
      rfl
    refine ⟨hframe, ?_, ?_, by rw [hvote]; exact hA⟩
    · rw [hcmds, hconfig, allSteps_append]
      exact ⟨h.queue, ⟨Vote.floor_le_floor h.memory hlt hown, hA⟩, trivial⟩
    · rw [hcmds, hvote, runOps_append]
      exact Or.inl rfl
  · have hcmds : (e.adoptVote now v).output.commands = e.output.commands := by
      unfold Engine.adoptVote
      rw [hgt]
      rfl
    refine ⟨hframe, ?_, ?_, by rw [hvote]; exact hA⟩
    · rw [hcmds, hconfig]
      exact h.queue
    · rw [hcmds, hconfig, hvote, ← heq]
      exact h.memory

/-- `update_internal_server_state` makes the roles fit the vote. Before it, a leader or a
    candidate has a vote of this node, and this is the current one unless that is foreign. -/
theorem VoteCore.updateInternalServerState (h : VoteCore A F s e) (now : Nat)
    (hl : ∀ V, e.leaderVote = some V → V.nodeId = e.config.id ∧
      (e.state.voteRef = ⟨V, true⟩ ∨ e.state.voteRef.leaderId.nodeId ≠ e.config.id))
    (hc : ∀ c, e.candidate = some c → c.VoteOK G P e.config.id ∧
      (c.vote.leaderId = e.state.voteRef.leaderId ∨
        e.state.voteRef.leaderId.nodeId ≠ e.config.id)) :
    VoteInv A G P F s (e.updateInternalServerState now) := by
  have hcand : e.state.voteRef.leaderId.nodeId = e.config.id → ∀ c, e.candidate = some c →
      c.VoteOK G P e.config.id ∧ c.vote.leaderId = e.state.voteRef.leaderId := fun hid c hce =>
    ⟨(hc c hce).1, (hc c hce).2.resolve_right (not_not.2 hid)⟩
  unfold Engine.updateInternalServerState
  split
  · rename_i hlead
    simp only [RaftState.isLeader, RaftState.isLeading, Bool.and_eq_true,
      decide_eq_true_eq] at hlead
    have hv : e.state.voteRef = ⟨e.state.voteRef.leaderId, true⟩ := by
      rw [← hlead.2]
    rcases becomeLeader_cases e now with ⟨hsame, heq⟩ | hk
    · rw [heq]
      refine ⟨h, ?_, hcand hlead.1.2⟩
      intro V hV
      obtain rfl : e.state.voteRef.leaderId = V := Option.some.inj (hsame.symm.trans hV)
      exact ⟨hv, hlead.1.2⟩
    · have hinst : VoteInv A G P F s (e.installLeader now) := by
        refine ⟨⟨h.frame, h.queue, h.memory, h.admitted⟩, ?_, hcand hlead.1.2⟩
        intro V hV
        obtain rfl : e.state.voteRef.leaderId = V := Option.some.inj hV
        exact ⟨hv, hlead.1.2⟩
      exact hinst.keeps hk
  · split
    · rename_i hnot hlead
      simp only [RaftState.isLeading, Bool.and_eq_true, decide_eq_true_eq] at hlead
      refine ⟨h, ?_, hcand hlead.2⟩
      intro V hV
      obtain ⟨hid, hv⟩ := hl V hV
      exact ⟨hv.resolve_right (not_not.2 hlead.2), hid⟩
    · unfold becomeFollowing
      dsimp only
      generalize hf : prependCommand _ _ = f
      have hfol : VoteInv A G P F s f := by
        subst hf
        exact ⟨⟨h.frame, ⟨trivial, h.queue⟩, h.memory, h.admitted⟩,
          by simp [leaderVote, prependCommand], by simp [prependCommand]⟩
      split
      · exact hfol.keeps (.push trivial)
      · exact hfol

/-- A vote of the node itself that is not below the current one, and no later than what the
    node has saved, has the leader id of the current vote. -/
theorem VoteCore.same_of_own (h : VoteCore A F s e) {v : Vote NID}
    (hge : v.ge e.config.mode e.state.voteRef = true)
    (hown : v.leaderId.nodeId = e.config.id → v.toNonCommitted.Le e.config.mode
      ((runOps voteStep s e.output.commands).floor e.config.id))
    (hid : v.leaderId.nodeId = e.config.id) : v.leaderId = e.state.voteRef.leaderId ∧
      (e.state.voteRef.committed = true → v = e.state.voteRef) := by
  have hle : v.toNonCommitted.Le e.config.mode e.state.voteRef := by
    refine (hown hid).trans ?_
    rcases h.memory with hm | hm
    · rw [← hm]
      exact Vote.floor_le _ _ _
    · rw [← hm]
      exact .refl _
  rcases hle with heq | hlt
  · refine ⟨by rw [← heq]; rfl, fun hc => ?_⟩
    rw [← heq] at hc
    cases hc
  · have hrank := Vote.rank_le_of_toNonCommitted_lt hlt
    rcases Vote.ge_iff.1 hge with heq | hlt'
    · exact ⟨by rw [heq], fun _ => heq⟩
    · exact absurd hlt' (not_lt.2 hrank)

/-- Taking over a vote that came in a message. One of the node itself is no later than what
    the node has saved. -/
theorem VoteInv.updateVote (h : VoteInv A G P F s e) (now : Nat) {v : Vote NID} (hA : A v)
    (hown : v.leaderId.nodeId = e.config.id → v.toNonCommitted.Le e.config.mode
      ((runOps voteStep s e.output.commands).floor e.config.id)) :
    VoteInv A G P F s (e.updateVote now v).1 ∧
      ((e.updateVote now v).2 = true → (e.updateVote now v).1.state.voteRef = v) := by
  unfold Engine.updateVote
  split
  · rename_i hge
    obtain ⟨hvote, hconfig, hleader, hcand, -⟩ := adoptVote_spec now hge
    have hcore := h.adoptVote now hA hge fun hid => Or.inr (hown hid)
    have hsame := h.toVoteCore.same_of_own hge hown
    refine ⟨hcore.updateInternalServerState now ?_ ?_, fun _ => ?_⟩
    · intro V hV
      rw [leaderVote, hleader] at hV
      obtain ⟨hv, hid⟩ := h.leader V hV
      rw [hvote, hconfig]
      refine ⟨hid, ?_⟩
      by_cases hid' : v.leaderId.nodeId = e.config.id
      · left
        rw [(hsame hid').2 (by rw [hv]), hv]
      · exact Or.inr hid'
    · intro c hc
      rw [hcand] at hc
      obtain ⟨hok, hid⟩ := h.candidate c hc
      rw [hvote, hconfig]
      refine ⟨hok, ?_⟩
      by_cases hid' : v.leaderId.nodeId = e.config.id
      · left
        rw [(hsame hid').1, hid]
      · exact Or.inr hid'
    · rw [(updateInternalServerState_spec _ _).1, hvote]
  · exact ⟨h, by simp⟩

/-- Taking over a vote of the node itself, for which the roles are set already. -/
theorem VoteCore.updateVote_own (h : VoteCore A F s e) (now : Nat) {V : LeaderId NID} {b : Bool}
    (hid : V.nodeId = e.config.id) (hA : A ⟨V, b⟩)
    (hge : Vote.ge e.config.mode ⟨V, b⟩ e.state.voteRef = true)
    (hown : b = false ∨ Vote.Le e.config.mode ⟨V, false⟩
      ((runOps voteStep s e.output.commands).floor e.config.id))
    (hl : ∀ V', e.leaderVote = some V' → V' = V ∧ b = true)
    (hc : ∀ c, e.candidate = some c → c.VoteOK G P e.config.id ∧ c.vote.leaderId = V) :
    VoteInv A G P F s (e.updateVote now ⟨V, b⟩).1 ∧
      (e.updateVote now ⟨V, b⟩).1.state.voteRef = ⟨V, b⟩ := by
  unfold Engine.updateVote
  rw [if_pos hge]
  obtain ⟨hvote, hconfig, hleader, hcand, -⟩ := adoptVote_spec now hge
  refine ⟨(h.adoptVote now hA hge fun _ => hown).updateInternalServerState now ?_ ?_, ?_⟩
  · intro V' hV'
    rw [leaderVote, hleader] at hV'
    obtain ⟨rfl, rfl⟩ := hl V' hV'
    rw [hvote, hconfig]
    exact ⟨hid, Or.inl rfl⟩
  · intro c hce
    rw [hcand] at hce
    rw [hvote, hconfig]
    exact ⟨(hc c hce).1, Or.inl (hc c hce).2⟩
  · rw [(updateInternalServerState_spec _ _).1, hvote]

/-! ### Elections -/

theorem newVote_ge (mode : LeaderIdMode) (v : Vote NID) (id : NID) :
    Vote.ge mode ⟨⟨v.leaderId.term + 1, id⟩, false⟩ v = true := by
  refine Vote.ge_iff.2 (Or.inr (Vote.rank_lt_iff.2 (Or.inl (CommittedLeaderId.lt_iff.2 ?_))))
  exact Or.inl (by simp)

theorem createCandidate_voteOK (l : LeaderId NID) (hid : l.nodeId = e.config.id)
    (hm : P e.state.membershipState.effective.membership) :
    (e.createCandidate ⟨l, false⟩).VoteOK G P e.config.id := by
  refine ⟨rfl, hid, hm, ?_, ?_⟩
  · refine VecProgress.new_sound ?_ (fun _ => rfl) fun _ => rfl
    rw [List.append_nil]
    exact nodup_sortedList _
  · intro item hitem htrue
    obtain ⟨k, -, rfl⟩ := List.mem_map.1 hitem
    cases htrue

theorem VoteInv.doElect (h : VoteInv A G P F s e) (now : Nat) (henv : OwnVotes A e.config.id)
    (hm : P e.state.membershipState.effective.membership) (transfer : Bool) :
    VoteInv A G P F s (e.doElect now transfer) := by
  unfold Engine.doElect
  dsimp only
  split
  · exact ⟨⟨h.frame, h.queue, h.memory, h.admitted⟩, h.leader, h.candidate⟩
  rename_i hleader
  have hnone : e.leader = none := by simpa using hleader
  generalize hV : (⟨e.state.voteRef.leaderId.term + 1, e.config.id⟩ : LeaderId NID) = V
  have hid : V.nodeId = e.config.id := by rw [← hV]
  have hge := newVote_ge e.config.mode e.state.voteRef e.config.id
  rw [hV] at hge
  have hup := VoteCore.updateVote_own (G := G) (P := P)
    (e := { e with
      preCandidate := none
      candidate := some (({ e with preCandidate := none } : Engine NID N D).createCandidate
        ⟨V, false⟩) })
    ⟨h.frame, h.queue, h.memory, h.admitted⟩ now hid (henv.own V hid) hge (Or.inl rfl)
    (by simp [leaderVote, hnone])
    (by rintro c ⟨⟩; exact ⟨createCandidate_voteOK V hid hm, rfl⟩)
  refine hup.1.push (fun _ => rfl) fun _ => ⟨?_, henv.own V hid, rfl⟩
  have hmem := hup.1.memory
  rw [hup.2] at hmem
  exact hmem

theorem VoteInv.preElect (h : VoteInv A G P F s e) (now : Nat) (henv : OwnVotes A e.config.id)
    (hm : P e.state.membershipState.effective.membership) :
    VoteInv A G P F s (e.preElect now) := by
  unfold Engine.preElect
  split
  · exact h
  · dsimp only
    have hpre : ∀ pc, VoteInv A G P F s ({ e with preCandidate := pc } : Engine NID N D) :=
      fun pc =>
      ⟨⟨h.frame, h.queue, h.memory, h.admitted⟩, h.leader, h.candidate⟩
    split
    · exact (hpre _).doElect now henv hm false
    · exact (hpre _).push (fun _ => rfl) nofun

theorem Candidate.grantBy_voteOK {c : Candidate NID N} {id target : NID}
    (h : c.VoteOK G P id) (hg : G target c.vote.leaderId) :
    (c.grantBy target).1.VoteOK G P id ∧ (c.grantBy target).1.vote = c.vote ∧
      ((c.grantBy target).2 = true → Elected G P c.vote.leaderId) := by
  unfold Candidate.grantBy
  split
  · rename_i progress hup
    obtain ⟨hsound, hset, -, hperm⟩ := VecProgress.updateEntryWith_spec
      (f := fun x => { x with progress := true }) h.sound (fun x hx => hx) hup
    have hgranted : ∀ item ∈ progress.entries, item.progress = true →
        G item.id c.vote.leaderId := by
      intro item hitem htrue
      rw [hperm.mem_iff, VecProgress.mapEntry] at hitem
      obtain ⟨x, hx, rfl⟩ := List.mem_map.1 hitem
      split
      · rename_i hxid
        rw [← hxid] at hg
        exact hg
      · rename_i hxid
        rw [if_neg hxid] at htrue
        exact h.granted x hx htrue
    have hm : P progress.quorumSet := by
      rw [hset]
      exact h.quorumSet
    refine ⟨⟨h.uncommitted, h.own, hm, hsound, hgranted⟩, rfl, ?_⟩
    intro hq
    have hq' : progress.quorumAccepted = true := hq
    rcases hsound.reached with hr | ⟨ids, hnd, hquorum, hids⟩
    · rw [hq'] at hr
      cases hr
    · refine ⟨progress.quorumSet, ids, hm, hnd, hquorum, ?_⟩
      intro k hk
      obtain ⟨item, hitem, rfl, hle⟩ := hids k hk
      rw [hq'] at hle
      exact hgranted item hitem (top_le_iff.1 hle)
  · exact ⟨h, rfl, nofun⟩

/-- A leader that a quorum has granted saves its vote. -/
theorem VoteCore.startLeading (h : VoteCore A F s e) (now : Nat) {l : Leader NID N}
    (hcand : e.candidate = none) (hV : l.committedVote = e.state.voteRef.leaderId)
    (hid : l.committedVote.nodeId = e.config.id) (hA : A ⟨l.committedVote, true⟩)
    (he : e.startLeading now l = some e') :
    VoteInv A G P F s e' := by
  have hfloor : (runOps voteStep s e.output.commands).floor e.config.id =
      ⟨l.committedVote, false⟩ := by
    have hlead : (runOps voteStep s e.output.commands).leaderId = l.committedVote := by
      rw [hV]
      rcases h.memory with hm | hm
      · rw [hm]
      · rw [hm, Vote.floor_leaderId]
    rw [Vote.floor_of_own (by rw [hlead]; exact hid), Vote.toNonCommitted, hlead]
  have hreb : VoteCore A F s (e.rebuildReplicationStreams l true) := by
    unfold rebuildReplicationStreams
    dsimp only
    refine VoteCore.push ?_ ?_ ?_
    · exact ⟨h.frame, h.queue, h.memory, h.admitted⟩
    · exact fun _ => rfl
    · exact ⟨hfloor, hid, hA⟩
  have hcmds : runOps voteStep s (e.rebuildReplicationStreams l true).output.commands =
      runOps voteStep s e.output.commands := by
    simp [rebuildReplicationStreams, pushCommand, runOps_append, voteStep]
  have hge : Vote.ge e.config.mode ⟨l.committedVote, true⟩ e.state.voteRef = true := by
    rw [hV]
    exact Vote.ge_iff.2 ((Vote.le_toCommitted _ _).imp Eq.symm id)
  have hup := hreb.updateVote_own (G := G) (P := P) now hid hA hge
    (Or.inr (by rw [hcmds]; exact Or.inl hfloor.symm))
    (by intro V' hV'; exact ⟨(Option.some.inj hV').symm, rfl⟩)
    (by intro c hc; cases hcand.symm.trans hc)
  unfold Engine.startLeading at he
  obtain ⟨l', hl', rfl⟩ := Option.map_eq_some_iff.1 he
  exact (hup.1.keeps (acceptLogIo_keepsVote _ _)).keeps (leaderAppendEntries_keepsVote hl' _)

theorem VoteInv.establishLeader (h : VoteInv A G P F s e) (now : Nat)
    {c : Candidate NID N} (hc : c.VoteOK G P e.config.id)
    (hV : c.vote.leaderId = e.state.voteRef.leaderId) (hA : A ⟨c.vote.leaderId, true⟩)
    (he : e.establishLeader now c = some e') : VoteInv A G P F s e' := by
  unfold Engine.establishLeader Engine.establish at he
  dsimp only at he
  by_cases hold : e.leader.any (fun l => !c.vote.gt e.config.mode ⟨l.committedVote, true⟩) = true
  · rw [if_pos hold] at he
    obtain rfl := Option.some.inj he
    exact ⟨⟨h.frame, h.queue, h.memory, h.admitted⟩, h.leader, nofun⟩
  · rw [if_neg hold] at he
    refine VoteCore.startLeading ?_ now ?_ ?_ ?_ ?_ he
    · exact ⟨h.frame, h.queue, h.memory, h.admitted⟩
    · rfl
    · exact hV
    · exact hc.own
    · exact hA

/-! ### Messages -/

/-- What the vote of a message has to fulfil to be taken over: it is admitted, and a vote of the
    node itself is no later than the saved one. -/
def Incoming (A : Vote NID → Prop) (s : Vote NID) (e : Engine NID N D) (v : Vote NID) : Prop :=
  A v ∧ (v.leaderId.nodeId = e.config.id → v.toNonCommitted.Le e.config.mode (s.floor e.config.id))

theorem VoteCore.floor_le_run (h : VoteCore A F s e) :
    (s.floor e.config.id).Le e.config.mode
      ((runOps voteStep s e.output.commands).floor e.config.id) := by
  refine AllSteps.runOps (P := fun v : Vote NID => (s.floor e.config.id).Le e.config.mode
    (v.floor e.config.id)) h.queue (.refl _) ?_
  intro v c hc hv
  cases c with
  | saveVote w => exact hv.trans hc.1
  | _ => exact hv

theorem VoteInv.updateVote_incoming (h : VoteInv A G P F s e) (now : Nat) {v : Vote NID}
    (hv : Incoming A s e v) : VoteInv A G P F s (e.updateVote now v).1 ∧
      ((e.updateVote now v).2 = true → (e.updateVote now v).1.state.voteRef = v) :=
  h.updateVote now hv.1 fun hid => (hv.2 hid).trans h.floor_le_run

theorem VoteInv.handleVoteReq (h : VoteInv A G P F s e) (now : Nat) {req : VoteRequest NID}
    (hv : Incoming A s e req.vote) : VoteInv A G P F s (e.handleVoteReq now req).1 ∧
      (e.handleVoteReq now req).2.vote = (e.handleVoteReq now req).1.state.voteRef := by
  unfold Engine.handleVoteReq
  split
  · exact ⟨h, rfl⟩
  · exact ⟨(h.updateVote_incoming now hv).1, rfl⟩

theorem VoteInv.handleRejectedVoteResp (h : VoteInv A G P F s e) (now : Nat)
    (henv : OwnVotes A e.config.id) {resp : VoteResponse NID} (isPreVote : Bool)
    (hv : Incoming A s e resp.vote) :
    VoteInv A G P F s (e.handleRejectedVoteResp now resp isPreVote) := by
  unfold Engine.handleRejectedVoteResp
  dsimp only
  generalize hg : (if e.state.lastLogId < resp.lastLogId then
    ({ e with seenGreaterLog := true } : Engine NID N D) else e) = e1
  have h1 : VoteInv A G P F s e1 ∧ e1.config = e.config := by
    subst hg
    split
    · exact ⟨⟨⟨h.frame, h.queue, h.memory, h.admitted⟩, h.leader, h.candidate⟩, rfl⟩
    · exact ⟨h, rfl⟩
  have hin : Incoming A s e1 resp.vote.toNonCommitted := by
    refine ⟨henv.nonCommitted _ hv.1, ?_⟩
    rw [h1.2]
    exact hv.2
  split
  · exact (h1.1.updateVote_incoming now hin).1
  · exact h1.1

/-- A response that gives a candidate its quorum. -/
structure Wins (e : Engine NID N D) (target : NID) (resp : VoteResponse NID)
    (c : Candidate NID N) : Prop where
  candidate : e.candidate = some c
  granted : resp.voteGranted = true
  vote : resp.vote = c.vote
  quorum : (c.grantBy target).2 = true

theorem VoteInv.handleVoteResp (h : VoteInv A G P F s e) (now : Nat)
    (henv : OwnVotes A e.config.id) {target : NID} {resp : VoteResponse NID}
    (hv : Incoming A s e resp.vote)
    (hg : resp.voteGranted = true → resp.vote.committed = false → G target resp.vote.leaderId)
    (hwin : ∀ c, e.Wins target resp c → Elected G P c.vote.leaderId → A ⟨c.vote.leaderId, true⟩)
    (he : e.handleVoteResp now target resp = some e') : VoteInv A G P F s e' := by
  unfold Engine.handleVoteResp at he
  split at he
  · obtain rfl := Option.some.inj he
    exact h
  · rename_i c hc
    obtain ⟨hok, hV⟩ := h.candidate c hc
    split at he
    · rename_i hgr
      rw [Bool.and_eq_true, decide_eq_true_eq] at hgr
      have hg' : G target c.vote.leaderId := by
        rw [← hgr.2]
        exact hg hgr.1 (by rw [hgr.2]; exact hok.uncommitted)
      obtain ⟨hok', hvote, hel⟩ := Candidate.grantBy_voteOK hok hg'
      dsimp only at he
      split at he
      · rename_i hq
        refine h.establishLeader now hok' ?_ ?_ he
        · rw [hvote, hV]
        · rw [hvote]
          exact hwin c ⟨hc, hgr.1, hgr.2, hq⟩ (hel hq)
      · obtain rfl := Option.some.inj he
        refine ⟨⟨h.frame, h.queue, h.memory, h.admitted⟩, h.leader, ?_⟩
        rintro c' ⟨⟩
        exact ⟨hok', by rw [hvote, hV]⟩
    · obtain rfl := Option.some.inj he
      exact h.handleRejectedVoteResp now henv false hv

theorem VoteInv.handlePreVoteResp (h : VoteInv A G P F s e) (now : Nat)
    (henv : OwnVotes A e.config.id) (hm : P e.state.membershipState.effective.membership)
    (target : NID) {resp : VoteResponse NID} (hv : Incoming A s e resp.vote) :
    VoteInv A G P F s (e.handlePreVoteResp now target resp) := by
  unfold Engine.handlePreVoteResp
  split
  · exact h
  · split
    · dsimp only
      have hpre : ∀ pc, VoteInv A G P F s ({ e with preCandidate := pc } : Engine NID N D) :=
        fun pc => ⟨⟨h.frame, h.queue, h.memory, h.admitted⟩, h.leader, h.candidate⟩
      split
      · exact (hpre _).doElect now henv hm false
      · exact hpre _
    · exact h.handleRejectedVoteResp now henv true hv

theorem VoteInv.handleAppendEntries (h : VoteInv A G P F s e) (now : Nat) (ctx : StreamCtx NID)
    {v : Vote NID} (hv : Incoming A s e v) (prev : Option (LogId NID))
    (entries : List (Entry NID N D)) :
    VoteInv A G P F s (e.handleAppendEntries now ctx v prev entries) := by
  have hup := (h.updateVote_incoming now hv).1
  unfold Engine.handleAppendEntries Engine.appendEntries
  dsimp only
  generalize e.updateVote now v = r at hup ⊢
  obtain ⟨e1, _ | _⟩ := r
  · exact hup.pushRespond _ (by rintro w ⟨⟩; rfl)
  · have hens := hup.keeps (ensureLogConsecutive_keepsVote e1 prev)
    have herr : ∀ err, (e1.ensureLogConsecutive prev).2 = some err →
        ∃ p, prev = some p ∧ err = .conflict p := fun err => ensureLogConsecutive_error
    dsimp only
    generalize e1.ensureLogConsecutive prev = r at hens herr ⊢
    obtain ⟨e2, _ | err⟩ := r
    · exact (hens.keeps (followingAppendEntries_keepsVote _ _ _)).pushRespond _ nofun
    · obtain ⟨p, -, rfl⟩ := herr err rfl
      exact hens.pushRespond _ nofun

theorem VoteInv.handleInstallFullSnapshot (h : VoteInv A G P F s e) (now : Nat)
    {ctx : StreamCtx NID} {v : Vote NID} (hv : Incoming A s e v) {snapshot : Snapshot NID N D}
    (he : e.handleInstallFullSnapshot now ctx v snapshot = some e') : VoteInv A G P F s e' := by
  have hup := (h.updateVote_incoming now hv).1
  unfold Engine.handleInstallFullSnapshot at he
  dsimp only at he
  generalize e.updateVote now v = r at hup he
  obtain ⟨e1, _ | _⟩ := r
  · obtain rfl := Option.some.inj he
    exact hup.pushRespond _ (by rintro w ⟨⟩; rfl)
  · obtain ⟨⟨e2, cond⟩, hinst, rfl⟩ := Option.map_eq_some_iff.1 he
    have hkeep := hup.keeps (installFullSnapshot_keepsVote hinst)
    exact hkeep.pushRespond _ (by rintro w ⟨⟩; rfl)

/-- A node starts with the vote it has saved, or with what `Vote.floor` leaves of it. -/
theorem voteInv_startup (config : EngineConfig NID) (state : RaftState NID N) (now : Nat)
    (henv : OwnVotes A config.id) (hA : A state.voteRef) :
    VoteInv (D := D) A G P (config, ⟨[], []⟩) state.voteRef
      ((Engine.new state config).startup now) := by
  have hcore : VoteCore (D := D) A (config, ⟨[], []⟩) state.voteRef (Engine.new state config) :=
    ⟨rfl, trivial, Or.inl rfl, hA⟩
  unfold Engine.startup
  split
  · rename_i hlead
    split
    · exact hcore.updateInternalServerState now nofun nofun
    · refine ⟨⟨rfl, trivial, Or.inr ?_, henv.nonCommitted _ hA⟩, nofun, nofun⟩
      simp only [RaftState.isLeader, RaftState.isLeading, Bool.and_eq_true,
        decide_eq_true_eq] at hlead
      exact (Vote.floor_of_own hlead.1.2).symm
  · exact ⟨hcore, nofun, nofun⟩

end Engine

end ZenohRaft
