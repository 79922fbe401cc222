/-
  Votes that rise.

  `update_vote` saves a vote that is greater than the one in memory. After a restart without leader
  restore the one in memory may be smaller than the stored one: of a committed vote of the node
  itself only the uncommitted vote is left (`Vote.floor`). So that a vote is greater than the one in
  memory does not make it greater than the stored one. What is missing is that a vote which comes in
  is not the stored vote itself, nor a committed vote of another leader of the same rank.

  * A node does not hear of its own committed vote: candidates ask for uncommitted votes, and no
    replication stream goes to the node it belongs to (`Message.Outward`).
  * A candidate has saved its vote in this incarnation (`Engine.Rising.candidate`), so the committed
    vote of an election that is won is greater than what is saved then.

  `Engine.Rising` and `Node.Rising` say that the votes which a node is going to save rise, and
  `Node.Rising.perform` that every event keeps this, if the committed votes that the node may adopt
  are one for each rank (`Engine.OnePerRank`).
-/
import ZenohRaft.Election.Roles

namespace ZenohRaft

open Lib

variable {NID N D : Type} [LinearOrder NID]

/-! ## Commands -/

/-- What has to hold of a command that will find the vote `r` saved: a vote is saved over a smaller
    one, and streams go to other nodes. -/
def Command.SavesGreater (mode : LeaderIdMode) (id : NID) (r : Vote NID) :
    Command NID N D → Prop
  | .saveVote v => r.rank mode < v.rank mode
  | .rebuildReplicationStreams _ targets _ => ∀ t ∈ targets, t.1 ≠ id
  | _ => True

/-- Commands that save no vote, with streams to other nodes. -/
def Command.SavesNone (id : NID) : Command NID N D → Prop
  | .saveVote _ => False
  | .rebuildReplicationStreams _ targets _ => ∀ t ∈ targets, t.1 ≠ id
  | _ => True

namespace Command

variable {id : NID} {c : Command NID N D}

omit [LinearOrder NID] in
theorem SavesNone.voteStep (h : c.SavesNone id) (v : Vote NID) : voteStep v c = v := by
  cases c with
  | saveVote w => exact h.elim
  | _ => rfl

theorem SavesNone.savesGreater (h : c.SavesNone id) (mode : LeaderIdMode) (r : Vote NID) :
    c.SavesGreater mode id r := by
  cases c with
  | saveVote w => exact h.elim
  | rebuildReplicationStreams V targets closeOld => exact h
  | _ => trivial

omit [LinearOrder NID] in
theorem IsPlain.savesNone {lead : Option (LeaderId NID)} (h : c.IsPlain id lead) :
    c.SavesNone id := by
  cases c with
  | saveVote w => exact h.elim
  | rebuildReplicationStreams V targets closeOld => exact h.2
  | _ => trivial

/-- The vote that a command passes to `save_vote`. -/
def savedVote? : Command NID N D → Option (Vote NID)
  | .saveVote v => some v
  | _ => none

omit [LinearOrder NID] in
theorem eq_of_savedVote? {v : Vote NID} (h : c.savedVote? = some v) : c = .saveVote v := by
  cases c with
  | saveVote w =>
    obtain rfl := Option.some.inj h
    rfl
  | _ => cases h

theorem SavesGreater.savesNone {mode : LeaderIdMode} {r : Vote NID} (h : c.SavesGreater mode id r)
    (hc : c.savedVote? = none) : c.SavesNone id := by
  cases c with
  | saveVote w => cases hc
  | rebuildReplicationStreams V targets closeOld => exact h
  | _ => trivial

end Command

namespace Engine

variable {e e' e'' : Engine NID N D} {s : Vote NID}

/-- A handler that saves no vote and makes no candidate. -/
structure SavesNone (e e' : Engine NID N D) : Prop where
  config : e'.config = e.config
  commands : ∃ pre cs, e'.output.commands = pre ++ (e.output.commands ++ cs) ∧
    (∀ c ∈ pre, c.SavesNone e.config.id) ∧ ∀ c ∈ cs, c.SavesNone e.config.id
  candidate : ∀ c', e'.candidate = some c' → ∃ c, e.candidate = some c ∧ c'.vote = c.vote

namespace SavesNone

section

omit [LinearOrder NID]

theorem of_eq (hconfig : e'.config = e.config) (hout : e'.output.commands = e.output.commands)
    (hcand : e'.candidate = e.candidate ∨ e'.candidate = none) : SavesNone e e' := by
  refine ⟨hconfig, ⟨[], [], by simp [hout], by simp, by simp⟩, fun c hc => ?_⟩
  rcases hcand with heq | hnone
  · exact ⟨c, heq ▸ hc, rfl⟩
  · cases hnone.symm.trans hc

theorem refl (e : Engine NID N D) : SavesNone e e := .of_eq rfl rfl (Or.inl rfl)

theorem trans (h : SavesNone e e') (h' : SavesNone e' e'') : SavesNone e e'' := by
  obtain ⟨pre, cs, hcs, hpre, hnone⟩ := h.commands
  obtain ⟨pre', cs', hcs', hpre', hnone'⟩ := h'.commands
  rw [h.config] at hpre' hnone'
  refine ⟨h'.config.trans h.config, ⟨pre' ++ pre, cs ++ cs', ?_, ?_, ?_⟩, ?_⟩
  · rw [hcs', hcs]
    simp only [List.append_assoc]
  · intro c hc
    exact (List.mem_append.1 hc).elim (hpre' c) (hpre c)
  · intro c hc
    exact (List.mem_append.1 hc).elim (hnone c) (hnone' c)
  · intro c'' hc''
    obtain ⟨c', hc', hvote'⟩ := h'.candidate c'' hc''
    obtain ⟨c, hc, hvote⟩ := h.candidate c' hc'
    exact ⟨c, hc, hvote'.trans hvote⟩

theorem of_keepsVote (hk : KeepsVote e e') : SavesNone e e' := by
  obtain ⟨cs, hcs, hplain⟩ := hk.commands
  exact ⟨hk.config, ⟨[], cs, hcs, by simp, fun c hc => (hplain c hc).savesNone⟩,
    fun c hc => ⟨c, hk.candidate ▸ hc, rfl⟩⟩

theorem push {c : Command NID N D} (hc : c.SavesNone e.config.id) :
    SavesNone e (e.pushCommand c) :=
  ⟨rfl, ⟨[], [c], rfl, by simp, by simpa using hc⟩, fun c hc => ⟨c, hc, rfl⟩⟩

end

end SavesNone

omit [LinearOrder NID] in
theorem becomeFollowing_savesNone (e : Engine NID N D) : SavesNone e e.becomeFollowing := by
  have hnone := e.becomeFollowing_candidate
  refine ⟨(becomeFollowing_spec e).2.1, ?_, fun c hc => by cases hnone.symm.trans hc⟩
  unfold becomeFollowing
  dsimp only
  split
  · exact ⟨[.failPendingReads], [.closeReplicationStreams], rfl,
      by simp [Command.SavesNone], by simp [Command.SavesNone]⟩
  · exact ⟨[.failPendingReads], [], by simp [prependCommand], by simp [Command.SavesNone],
      by simp⟩

theorem updateInternalServerState_savesNone (e : Engine NID N D) (now : Nat) :
    SavesNone e (e.updateInternalServerState now) := by
  unfold updateInternalServerState
  split
  · rcases becomeLeader_cases e now with ⟨-, heq⟩ | hk
    · rw [heq]
      exact .refl e
    · have hinstall : SavesNone e (e.installLeader now) := .of_eq rfl rfl (Or.inl rfl)
      exact hinstall.trans (.of_keepsVote hk)
  · split
    · exact .refl e
    · exact becomeFollowing_savesNone e

/-! ## The engine -/

/-- The votes that are going to be saved, on top of the saved vote `s`, rise. -/
def QueueRises (s : Vote NID) (e : Engine NID N D) : Prop :=
  AllSteps voteStep (Command.SavesGreater e.config.mode e.config.id) s e.output.commands

/-- The votes of the queue rise, and the last of them is the vote of the candidate. -/
structure Rising (s : Vote NID) (e : Engine NID N D) : Prop where
  queue : QueueRises s e
  candidate : ∀ c, e.candidate = some c →
    runOps voteStep s e.output.commands = c.vote ∧ c.vote.leaderId.term ≠ 0

omit [LinearOrder NID] in
theorem runOps_savesNone {cs : List (Command NID N D)} {id : NID}
    (h : ∀ c ∈ cs, c.SavesNone id) (v : Vote NID) : runOps voteStep v cs = v :=
  runOps_eq_of_idle fun c hc => (h c hc).voteStep

theorem allSteps_savesNone {cs : List (Command NID N D)} {id : NID}
    (h : ∀ c ∈ cs, c.SavesNone id) (mode : LeaderIdMode) (v : Vote NID) :
    AllSteps voteStep (Command.SavesGreater mode id) v cs :=
  allSteps_of_idle fun c hc => ⟨(h c hc).voteStep v, (h c hc).savesGreater mode v⟩

omit [LinearOrder NID] in
theorem SavesNone.run (hk : SavesNone e e') (s : Vote NID) :
    runOps voteStep s e'.output.commands = runOps voteStep s e.output.commands := by
  obtain ⟨pre, cs, hcs, hpre, hnone⟩ := hk.commands
  rw [hcs, runOps_append, runOps_append, runOps_savesNone hpre, runOps_savesNone hnone]

theorem QueueRises.savesNone (h : QueueRises s e) (hk : SavesNone e e') : QueueRises s e' := by
  obtain ⟨pre, cs, hcs, hpre, hnone⟩ := hk.commands
  unfold QueueRises
  rw [hcs, hk.config, allSteps_append, allSteps_append, runOps_savesNone hpre]
  exact ⟨allSteps_savesNone hpre _ _, h, allSteps_savesNone hnone _ _⟩

theorem Rising.savesNone (h : Rising s e) (hk : SavesNone e e') : Rising s e' := by
  refine ⟨h.queue.savesNone hk, ?_⟩
  intro c' hc'
  obtain ⟨c, hc, hvote⟩ := hk.candidate c' hc'
  rw [hk.run, hvote]
  exact h.candidate c hc

/-! ### Taking over a vote -/

/-- A vote that is not greater than the current one is not saved. -/
theorem updateVote_savesNone {v : Vote NID} (hgt : v.gt e.config.mode e.state.voteRef = false)
    (now : Nat) : SavesNone e (e.updateVote now v).1 := by
  unfold updateVote
  split
  · have hadopt : SavesNone e (e.adoptVote now v) := by
      unfold adoptVote
      rw [hgt]
      exact .of_eq rfl rfl (Or.inl rfl)
    exact hadopt.trans (updateInternalServerState_savesNone _ now)
  · exact .refl e

/-- A vote that is greater than the current one is saved. -/
theorem updateVote_saves {v : Vote NID} (hgt : v.gt e.config.mode e.state.voteRef = true)
    (now : Nat) : SavesNone (e.adoptVote now v) (e.updateVote now v).1 ∧
      (e.adoptVote now v).output.commands = e.output.commands ++ [.saveVote v] := by
  constructor
  · unfold updateVote
    rw [if_pos (Vote.ge_iff.2 (Or.inr (Vote.gt_iff.1 hgt)))]
    exact updateInternalServerState_savesNone _ now
  · unfold adoptVote
    rw [if_pos hgt]
    rfl

theorem updateVote_run {v : Vote NID} (hgt : v.gt e.config.mode e.state.voteRef = true)
    (now : Nat) (s : Vote NID) :
    runOps voteStep s (e.updateVote now v).1.output.commands = v := by
  obtain ⟨hk, hcs⟩ := updateVote_saves hgt now
  rw [hk.run, hcs, runOps_append]
  rfl

/-- Taking over a vote that is greater than what will be saved before. -/
theorem QueueRises.updateVote (h : QueueRises s e) (now : Nat) {v : Vote NID}
    (hlt : v.gt e.config.mode e.state.voteRef = true →
      (runOps voteStep s e.output.commands).rank e.config.mode < v.rank e.config.mode) :
    QueueRises s (e.updateVote now v).1 := by
  cases hgt : v.gt e.config.mode e.state.voteRef with
  | false => exact h.savesNone (updateVote_savesNone hgt now)
  | true =>
    obtain ⟨hk, hcs⟩ := updateVote_saves hgt now
    have hge := Vote.ge_iff.2 (Or.inr (Vote.gt_iff.1 hgt))
    refine QueueRises.savesNone ?_ hk
    unfold QueueRises
    rw [hcs, (adoptVote_spec now hge).2.1, allSteps_append]
    exact ⟨h, hlt hgt, trivial⟩

/-- A greater vote of another node ends the candidacy. -/
theorem updateVote_candidate_none {v : Vote NID}
    (hgt : v.gt e.config.mode e.state.voteRef = true) (hid : v.leaderId.nodeId ≠ e.config.id)
    (now : Nat) : (e.updateVote now v).1.candidate = none := by
  have hge := Vote.ge_iff.2 (Or.inr (Vote.gt_iff.1 hgt))
  obtain ⟨hvote, hconfig, -⟩ := adoptVote_spec now hge
  unfold updateVote
  rw [if_pos hge, updateInternalServerState_of_other (by rw [hvote, hconfig]; exact hid) now]
  exact becomeFollowing_candidate _

theorem Rising.updateVote (h : Rising s e) (now : Nat) {v : Vote NID}
    (hlt : v.gt e.config.mode e.state.voteRef = true →
      (runOps voteStep s e.output.commands).rank e.config.mode < v.rank e.config.mode)
    (hcand : v.gt e.config.mode e.state.voteRef = true →
      e.candidate = none ∨ v.leaderId.nodeId ≠ e.config.id) :
    Rising s (e.updateVote now v).1 := by
  cases hgt : v.gt e.config.mode e.state.voteRef with
  | false => exact h.savesNone (updateVote_savesNone hgt now)
  | true =>
    refine ⟨h.queue.updateVote now hlt, fun c' hc' => ?_⟩
    rcases hcand hgt with hnone | hid
    · obtain ⟨c, hc, -⟩ := (updateVote_saves hgt now).1.candidate c' hc'
      have hge := Vote.ge_iff.2 (Or.inr (Vote.gt_iff.1 hgt))
      rw [(adoptVote_spec now hge).2.2.2.1] at hc
      cases hnone.symm.trans hc
    · cases (updateVote_candidate_none hgt hid now).symm.trans hc'

/-! ### Votes of messages and elections -/

variable {A : Vote NID → Prop} {G : NID → LeaderId NID → Prop} {P : Membership NID N → Prop}
variable {F : EngineConfig NID × PendingResponds NID}

/-- Admitted committed votes of one rank are the same. -/
def OnePerRank (mode : LeaderIdMode) (A : Vote NID → Prop) : Prop :=
  ∀ l l' : LeaderId NID, A ⟨l, true⟩ → A ⟨l', true⟩ → l.toCommitted mode = l'.toCommitted mode →
    l = l'

theorem VoteCore.run_leaderId (h : VoteCore A F s e) :
    (runOps voteStep s e.output.commands).leaderId = e.state.voteRef.leaderId := by
  rcases h.memory with hm | hm
  · rw [hm]
  · rw [hm, Vote.floor_leaderId]

theorem VoteCore.run_admitted (h : VoteCore A F s e) (hs : A s) :
    A (runOps voteStep s e.output.commands) := by
  refine AllSteps.runOps (P := A) h.queue hs ?_
  intro v c hc hv
  cases c with
  | saveVote w => exact hc.2
  | _ => exact hv

/-- A vote of a message that is greater than the one in memory is greater than what will be saved:
    where the two differ, there is a committed vote of the node itself, and the message does not
    bring it back. -/
theorem VoteCore.run_lt (h : VoteCore A F s e) (hs : A s) (hu : OnePerRank e.config.mode A)
    {v : Vote NID} (hA : A v) (hown : v.leaderId.nodeId = e.config.id → v.committed = false)
    (hlt : e.state.voteRef.rank e.config.mode < v.rank e.config.mode) :
    (runOps voteStep s e.output.commands).rank e.config.mode < v.rank e.config.mode := by
  have hadmitted := h.run_admitted hs
  rcases h.memory with hm | hm
  · rw [← hm]
    exact hlt
  rw [hm] at hlt
  generalize runOps voteStep s e.output.commands = r at hadmitted hlt
  by_cases hid : r.leaderId.nodeId = e.config.id
  · rw [Vote.floor_of_own hid] at hlt
    refine lt_of_le_of_ne (Vote.rank_le_of_toNonCommitted_lt hlt) fun heq => ?_
    obtain ⟨l, b⟩ := r
    obtain ⟨l', b'⟩ := v
    obtain ⟨hrank, rfl⟩ : l.toCommitted e.config.mode = l'.toCommitted e.config.mode ∧ b = b' :=
      ⟨congrArg (fun r => (ofLex r).1) heq, congrArg (fun r => (ofLex r).2) heq⟩
    cases b with
    | false => exact absurd heq hlt.ne
    | true =>
      obtain rfl := hu l l' hadmitted hA hrank
      cases hown hid
  · rw [Vote.floor_of_foreign hid] at hlt
    exact hlt

theorem Rising.voteRef_of_candidate (h : Rising s e) (hinv : VoteInv A G P F s e)
    {c : Candidate NID N} (hc : e.candidate = some c) : e.state.voteRef = c.vote := by
  obtain ⟨hok, -⟩ := hinv.candidate c hc
  have hrun := (h.candidate c hc).1
  rcases hinv.memory with hm | hm
  · rw [hm, hrun]
  · rw [hm, hrun, Vote.floor_of_not_committed hok.uncommitted]

/-- There is no candidate beside a leader. -/
theorem Rising.candidate_none (h : Rising s e) (hinv : VoteInv A G P F s e) {l : Leader NID N}
    (hl : e.leader = some l) : e.candidate = none := by
  cases hc : e.candidate with
  | none => rfl
  | some c =>
    have hcom := (hinv.candidate c hc).1.uncommitted
    rw [← h.voteRef_of_candidate hinv hc, (hinv.leader _ (leaderVote_eq hl)).1] at hcom
    cases hcom

/-- A vote of a message. -/
theorem Rising.updateVote_incoming (h : Rising s e) (hinv : VoteInv A G P F s e) (hs : A s)
    (hu : OnePerRank e.config.mode A) (now : Nat) {v : Vote NID} (hv : Incoming A s e v)
    (hown : v.leaderId.nodeId = e.config.id → v.committed = false) :
    Rising s (e.updateVote now v).1 := by
  refine h.updateVote now (fun hgt => hinv.run_lt hs hu hv.1 hown (Vote.gt_iff.1 hgt)) fun hgt => ?_
  cases hc : e.candidate with
  | none => exact Or.inl rfl
  | some c =>
    -- a vote of the node itself is the vote of the candidate, so not greater
    refine Or.inr fun hid => ?_
    have hge := Vote.ge_iff.2 (Or.inr (Vote.gt_iff.1 hgt))
    have hsame := (hinv.toVoteCore.same_of_own hge
      (fun hid => (hv.2 hid).trans hinv.floor_le_run) hid).1
    have hvote := h.voteRef_of_candidate hinv hc
    have hcom := (hinv.candidate c hc).1.uncommitted
    have heq : v = e.state.voteRef := by
      obtain ⟨l, b⟩ := v
      obtain rfl : b = false := hown hid
      have hl : l = e.state.voteRef.leaderId := hsame
      rw [← hvote] at hcom
      rw [hl, ← hcom]
    have hlt := Vote.gt_iff.1 hgt
    rw [heq] at hlt
    exact lt_irrefl _ hlt

/-- A vote that a leader hears of. -/
theorem Rising.updateVote_leading (h : Rising s e) (hinv : VoteInv A G P F s e) {l : Leader NID N}
    (hl : e.leader = some l) (now : Nat) (v : Vote NID) : Rising s (e.updateVote now v).1 := by
  refine h.updateVote now (fun hgt => ?_) fun _ => Or.inl (h.candidate_none hinv hl)
  obtain ⟨hv, hid⟩ := hinv.leader _ (leaderVote_eq hl)
  rw [hinv.run_of_committed hv hid, ← hv]
  exact Vote.gt_iff.1 hgt

theorem Rising.doElect (h : Rising s e) (hinv : VoteCore A F s e) (now : Nat) (transfer : Bool) :
    Rising s (e.doElect now transfer) := by
  unfold Engine.doElect
  dsimp only
  split
  · exact h.savesNone (.of_eq rfl rfl (Or.inl rfl))
  refine Rising.savesNone ?_ (.push trivial)
  generalize hc : Engine.createCandidate ({ e with preCandidate := none } : Engine NID N D) _ = cand
  have hvote : cand.vote = ⟨⟨e.state.voteRef.leaderId.term + 1, e.config.id⟩, false⟩ := by
    rw [← hc]
    rfl
  generalize hv : (⟨⟨e.state.voteRef.leaderId.term + 1, e.config.id⟩, false⟩ : Vote NID) = v
  rw [hv] at hvote
  have hgt : v.gt e.config.mode e.state.voteRef = true := by
    rw [← hv]
    exact newVote_gt e.config.mode rfl e.config.id
  have hlt : (runOps voteStep s e.output.commands).rank e.config.mode < v.rank e.config.mode := by
    rw [← hv]
    exact Vote.gt_iff.1 (newVote_gt e.config.mode (by rw [hinv.run_leaderId]) e.config.id)
  generalize he : ({ e with preCandidate := none, candidate := some cand } : Engine NID N D) = e1
  have hgt1 : v.gt e1.config.mode e1.state.voteRef = true := by
    rw [← he]
    exact hgt
  have hq : QueueRises s e1 := by
    rw [← he]
    exact h.queue
  have hlt1 : (runOps voteStep s e1.output.commands).rank e1.config.mode <
      v.rank e1.config.mode := by
    rw [← he]
    exact hlt
  refine ⟨hq.updateVote now fun _ => hlt1, fun c' hc' => ?_⟩
  obtain ⟨c, hc, hsame⟩ := (updateVote_saves hgt1 now).1.candidate c' hc'
  rw [(adoptVote_spec now (Vote.ge_iff.2 (Or.inr (Vote.gt_iff.1 hgt1)))).2.2.2.1, ← he] at hc
  obtain rfl : cand = c := Option.some.inj hc
  rw [updateVote_run hgt1, hsame, hvote]
  refine ⟨rfl, ?_⟩
  rw [← hv]
  exact Nat.succ_ne_zero _

theorem Rising.preElect (h : Rising s e) (hinv : VoteCore A F s e) (now : Nat) :
    Rising s (e.preElect now) := by
  unfold Engine.preElect
  split
  · exact h
  dsimp only
  generalize hpre : ({ e with preCandidate := some _ } : Engine NID N D) = e1
  have h1 : Rising s e1 := by
    rw [← hpre]
    exact h.savesNone (.of_eq rfl rfl (Or.inl rfl))
  have hinv1 : VoteCore A F s e1 := by
    rw [← hpre]
    exact ⟨hinv.frame, hinv.queue, hinv.memory, hinv.admitted⟩
  split
  · exact h1.doElect hinv1 now false
  · exact h1.savesNone (.push trivial)

/-- A new leader takes over its committed vote. -/
theorem startLeading_leader {l : Leader NID N} (hl : e.leader = some l) {now : Nat}
    (hge : Vote.ge e.config.mode ⟨l.committedVote, true⟩ e.state.voteRef = true)
    (he : e.startLeading now l = some e') :
    e'.leader.isSome = true ∧ e'.state.voteRef = ⟨l.committedVote, true⟩ := by
  unfold startLeading at he
  dsimp only at he
  obtain ⟨l', hl', rfl⟩ := Option.map_eq_some_iff.1 he
  have hk1 := rebuildReplicationStreams_keepsVote hl true
  rw [← hk1.config, ← hk1.vote] at hge
  have hk3 := leaderAppendEntries_keepsVote hl' [(.blank : Payload NID N D)]
  obtain ⟨l'', hl'', -⟩ := hk3.leader_some hl'
  refine ⟨by rw [hl'']; rfl, ?_⟩
  rw [hk3.vote, (acceptLogIo_keepsVote _ _).vote]
  unfold updateVote
  rw [if_pos hge, (updateInternalServerState_spec _ _).1, (adoptVote_spec now hge).1]

theorem Rising.startLeading (h : Rising s e) {l : Leader NID N} (hl : e.leader = some l)
    (hcand : e.candidate = none) {now : Nat}
    (hlt : (runOps voteStep s e.output.commands).rank e.config.mode <
      Vote.rank e.config.mode ⟨l.committedVote, true⟩) (he : e.startLeading now l = some e') :
    Rising s e' := by
  unfold Engine.startLeading at he
  dsimp only at he
  obtain ⟨l', hl', rfl⟩ := Option.map_eq_some_iff.1 he
  have hk := rebuildReplicationStreams_keepsVote hl true
  have hnone := SavesNone.of_keepsVote hk
  have hup : Rising s
      ((e.rebuildReplicationStreams l true).updateVote now ⟨l.committedVote, true⟩).1 := by
    refine (h.savesNone hnone).updateVote now (fun _ => ?_) fun _ => Or.inl ?_
    · rw [hnone.run, hnone.config]
      exact hlt
    · rw [hk.candidate, hcand]
  exact (hup.savesNone (.of_keepsVote (acceptLogIo_keepsVote _ _))).savesNone
    (.of_keepsVote (leaderAppendEntries_keepsVote hl' _))

/-- A candidate that gets its quorum. -/
theorem Rising.establishLeader (h : Rising s e) (hinv : VoteInv A G P F s e)
    {c c' : Candidate NID N} (hc : e.candidate = some c) (hvote : c'.vote = c.vote) {now : Nat}
    (he : e.establishLeader now c' = some e') :
    Rising s e' ∧ e'.leader.isSome = true ∧ e'.state.voteRef = ⟨c.vote.leaderId, true⟩ := by
  have hleader : e.leader = none := by
    cases hl : e.leader with
    | none => rfl
    | some l => cases (h.candidate_none hinv hl).symm.trans hc
  have hnone : SavesNone e { e with candidate := none } := .of_eq rfl rfl (Or.inr rfl)
  have hcom := (hinv.candidate c hc).1.uncommitted
  have hlt : c.vote.rank e.config.mode < Vote.rank e.config.mode ⟨c.vote.leaderId, true⟩ := by
    refine Vote.rank_lt_iff.2 (Or.inr ⟨rfl, ?_⟩)
    rw [hcom]
    rfl
  unfold Engine.establishLeader establish at he
  dsimp only at he
  rw [hleader] at he
  simp only [Option.any_none, Bool.false_eq_true, if_false] at he
  rw [← hvote] at hlt ⊢
  refine ⟨Rising.startLeading ?_ rfl rfl ?_ he, startLeading_leader rfl ?_ he⟩
  · exact (h.savesNone hnone).savesNone (.of_eq rfl rfl (Or.inl rfl))
  · show (runOps voteStep s e.output.commands).rank e.config.mode < _
    rw [(h.candidate c hc).1, ← hvote]
    exact hlt
  · show Vote.ge e.config.mode _ e.state.voteRef = true
    rw [h.voteRef_of_candidate hinv hc, ← hvote]
    exact Vote.ge_iff.2 (Or.inr hlt)

/-! ### Messages -/

section Messages

variable (h : Rising s e) (hinv : VoteInv A G P F s e) (hs : A s) (hu : OnePerRank e.config.mode A)

include h hinv hs hu

theorem Rising.handleRejectedVoteResp (henv : OwnVotes A e.config.id) (now : Nat)
    {resp : VoteResponse NID} (isPreVote : Bool) (hv : Incoming A s e resp.vote) :
    Rising s (e.handleRejectedVoteResp now resp isPreVote) := by
  unfold Engine.handleRejectedVoteResp
  dsimp only
  generalize hg : (if e.state.lastLogId < resp.lastLogId then
    ({ e with seenGreaterLog := true } : Engine NID N D) else e) = e1
  have h1 : Rising s e1 ∧ VoteInv A G P F s e1 ∧ e1.config = e.config := by
    rw [← hg]
    split
    · exact ⟨h.savesNone (.of_eq rfl rfl (Or.inl rfl)),
        ⟨⟨hinv.frame, hinv.queue, hinv.memory, hinv.admitted⟩, hinv.leader, hinv.candidate⟩, rfl⟩
    · exact ⟨h, hinv, rfl⟩
  obtain ⟨hrise, hinv1, hconfig⟩ := h1
  have hin : Incoming A s e1 resp.vote.toNonCommitted := by
    refine ⟨henv.nonCommitted _ hv.1, ?_⟩
    rw [hconfig]
    exact hv.2
  split
  · exact hrise.updateVote_incoming hinv1 hs (by rw [hconfig]; exact hu) now hin fun _ => rfl
  · exact hrise

/-- A response to a vote request. After the one that gives a candidate its quorum the node leads. -/
theorem Rising.handleVoteResp (henv : OwnVotes A e.config.id) {now : Nat} {target : NID}
    {resp : VoteResponse NID} (hv : Incoming A s e resp.vote)
    (he : e.handleVoteResp now target resp = some e') :
    Rising s e' ∧ ∀ c, e.Wins target resp c →
      e'.leader.isSome = true ∧ e'.state.voteRef = ⟨c.vote.leaderId, true⟩ := by
  unfold Engine.handleVoteResp at he
  split at he
  · rename_i hnone
    obtain rfl := Option.some.inj he
    exact ⟨h, fun c hw => by cases hnone.symm.trans hw.candidate⟩
  rename_i c hc
  have hsame : ∀ c', e.Wins target resp c' → c' = c := fun c' hw =>
    Option.some.inj (hw.candidate.symm.trans hc)
  split at he
  · dsimp only at he
    obtain ⟨hvote, -⟩ := grantBy_same c target
    split at he
    · obtain ⟨hrise, hleads⟩ := h.establishLeader hinv hc hvote he
      refine ⟨hrise, fun c' hw => ?_⟩
      rw [hsame c' hw]
      exact hleads
    · rename_i hq
      obtain rfl := Option.some.inj he
      refine ⟨h.savesNone ⟨rfl, ⟨[], [], by simp, by simp, by simp⟩, ?_⟩, fun c' hw => ?_⟩
      · intro c' hc'
        obtain rfl := Option.some.inj hc'
        exact ⟨c, hc, hvote⟩
      · have hwon := hw.quorum
        rw [hsame c' hw] at hwon
        exact absurd hwon hq
  · rename_i hgr
    obtain rfl := Option.some.inj he
    refine ⟨h.handleRejectedVoteResp hinv hs hu henv now false hv, fun c' hw => ?_⟩
    have hg := hw.granted
    have hvote := hw.vote
    rw [hsame c' hw] at hvote
    rw [hg, hvote] at hgr
    simp at hgr

theorem Rising.handlePreVoteResp (henv : OwnVotes A e.config.id) (now : Nat) (target : NID)
    {resp : VoteResponse NID} (hv : Incoming A s e resp.vote) :
    Rising s (e.handlePreVoteResp now target resp) := by
  unfold Engine.handlePreVoteResp
  split
  · exact h
  split
  · dsimp only
    have hpre : ∀ pc, Rising s ({ e with preCandidate := pc } : Engine NID N D) := fun pc =>
      h.savesNone (.of_eq rfl rfl (Or.inl rfl))
    have hinv' : ∀ pc, VoteCore A F s ({ e with preCandidate := pc } : Engine NID N D) :=
      fun pc => ⟨hinv.frame, hinv.queue, hinv.memory, hinv.admitted⟩
    split
    · exact (hpre _).doElect (hinv' _) now false
    · exact hpre _
  · exact h.handleRejectedVoteResp hinv hs hu henv now true hv

theorem Rising.handleVoteReq (now : Nat) {req : VoteRequest NID} (hv : Incoming A s e req.vote)
    (hreq : req.vote.committed = false) : Rising s (e.handleVoteReq now req).1 := by
  unfold Engine.handleVoteReq
  split
  · exact h
  · exact h.updateVote_incoming hinv hs hu now hv fun _ => hreq

theorem Rising.handleAppendEntries (now : Nat) (ctx : StreamCtx NID) {v : Vote NID}
    (hv : Incoming A s e v) (hid : v.leaderId.nodeId ≠ e.config.id) (prev : Option (LogId NID))
    (entries : List (Entry NID N D)) :
    Rising s (e.handleAppendEntries now ctx v prev entries) := by
  have hup := h.updateVote_incoming hinv hs hu now hv fun hown => absurd hown hid
  unfold Engine.handleAppendEntries Engine.appendEntries
  dsimp only
  generalize e.updateVote now v = r at hup ⊢
  obtain ⟨e1, _ | _⟩ := r
  · exact hup.savesNone (.push trivial)
  · have hens := hup.savesNone (.of_keepsVote (ensureLogConsecutive_keepsVote e1 prev))
    dsimp only
    generalize e1.ensureLogConsecutive prev = r at hens ⊢
    obtain ⟨e2, _ | err⟩ := r
    · exact (hens.savesNone (.of_keepsVote (followingAppendEntries_keepsVote _ _ _))).savesNone
        (.push trivial)
    · exact hens.savesNone (.push trivial)

theorem Rising.handleInstallFullSnapshot {now : Nat} {ctx : StreamCtx NID} {v : Vote NID}
    (hv : Incoming A s e v) (hid : v.leaderId.nodeId ≠ e.config.id)
    {snapshot : Snapshot NID N D} (he : e.handleInstallFullSnapshot now ctx v snapshot = some e') :
    Rising s e' := by
  have hup := h.updateVote_incoming hinv hs hu now hv fun hown => absurd hown hid
  unfold Engine.handleInstallFullSnapshot at he
  dsimp only at he
  generalize e.updateVote now v = r at hup he
  obtain ⟨e1, _ | _⟩ := r
  · obtain rfl := Option.some.inj he
    exact hup.savesNone (.push trivial)
  · obtain ⟨⟨e2, cond⟩, hinst, rfl⟩ := Option.map_eq_some_iff.1 he
    exact (hup.savesNone (.of_keepsVote (installFullSnapshot_keepsVote hinst))).savesNone
      (.push trivial)

end Messages

/-- A node that starts has nothing to save. -/
theorem startup_rising (state : RaftState NID N) (config : EngineConfig NID) (now : Nat)
    (s : Vote NID) : Rising s ((Engine.new state config).startup now : Engine NID N D) := by
  have hnew : Rising s (Engine.new state config : Engine NID N D) :=
    ⟨trivial, fun c hc => by cases hc⟩
  refine hnew.savesNone ?_
  unfold Engine.startup
  split
  · split
    · exact updateInternalServerState_savesNone _ now
    · exact .of_eq rfl rfl (Or.inl rfl)
  · exact .refl _

end Engine

/-! ## The node -/

/-- Candidates ask for uncommitted votes, and the requests of a leader go to other nodes. -/
def Message.Outward : Message NID N D → Prop
  | .vote false _ _ req => req.vote.committed = false
  | .appendEntries ctx req => req.vote.leaderId.nodeId ≠ ctx.target
  | .installFullSnapshot ctx v _ => v.leaderId.nodeId ≠ ctx.target
  | _ => True

omit [LinearOrder NID] in
theorem Respond.outward (r : Respond NID) (src : NID) :
    (r.toMessage src : Message NID N D).Outward := by
  cases r <;> trivial

namespace Node

variable {n n' n'' : Node NID N D} {e' : Engine NID N D}
variable {A : Vote NID → Prop} {G : NID → LeaderId NID → Prop} {P : Membership NID N → Prop}

/-- The votes that a node saves rise, and what it sends is outward. -/
structure Rising (n : Node NID N D) : Prop where
  engine : n.engine.Rising n.savedVote
  streams : ∀ V ts, n.streams = some (V, ts) → ∀ t ∈ ts, t.1 ≠ n.id
  sent : ∀ msg ∈ n.sent, msg.Outward

/-- An event that saves no vote and makes no candidate. -/
structure SavesNone (n n' : Node NID N D) : Prop where
  engine : n.engine.SavesNone n'.engine
  vote : n'.store.vote = n.store.vote
  streams : ∀ V ts, n'.streams = some (V, ts) →
    n.streams = some (V, ts) ∨ ∀ t ∈ ts, t.1 ≠ n.id
  sent : ∀ msg ∈ n'.sent, msg ∈ n.sent ∨ msg.Outward

namespace SavesNone

section

omit [LinearOrder NID]

theorem trans (h : SavesNone n n') (h' : SavesNone n' n'') : SavesNone n n'' := by
  refine ⟨h.engine.trans h'.engine, h'.vote.trans h.vote, fun V ts hV => ?_, fun msg hmsg => ?_⟩
  · rcases h'.streams V ts hV with hold | hnew
    · exact h.streams V ts hold
    · rw [Node.id, h.engine.config] at hnew
      exact Or.inr hnew
  · exact (h'.sent msg hmsg).elim (h.sent msg) Or.inr

/-- Changes outside of the engine that concern neither votes nor messages. -/
theorem outside (he : n'.engine = n.engine) (hv : n'.store.vote = n.store.vote)
    (hst : n'.streams = n.streams ∨ n'.streams = none) (hs : n'.sent = n.sent) :
    SavesNone n n' := by
  refine ⟨he ▸ .refl _, hv, fun V ts hV => ?_, fun msg hmsg => Or.inl (hs ▸ hmsg)⟩
  rcases hst with heq | hnone
  · exact Or.inl (heq.symm.trans hV)
  · cases hnone.symm.trans hV

theorem refl (n : Node NID N D) : SavesNone n n := .outside rfl rfl (Or.inl rfl) rfl

theorem withEngine (h : n.engine.SavesNone e') : SavesNone n (n.withEngine e') :=
  ⟨h, rfl, fun _ _ hV => Or.inl hV, fun _ hmsg => Or.inl hmsg⟩

theorem keeps (h : n.engine.KeepsVote e') : SavesNone n (n.withEngine e') :=
  .withEngine (.of_keepsVote h)

theorem afterEngine {r : Option (Engine NID N D)}
    (h : ∀ e', r = some e' → n.engine.KeepsVote e') : SavesNone n (n.afterEngine r) := by
  cases r with
  | none => exact .outside rfl rfl (Or.inl rfl) rfl
  | some e' => exact .keeps (h e' rfl)

/-- Changes of the cursors of the engine, and outside of the engine. -/
theorem cursors (h : n.engine.KeepsVote n'.engine) (hv : n'.store.vote = n.store.vote)
    (hst : n'.streams = n.streams ∨ n'.streams = none) (hs : n'.sent = n.sent) : SavesNone n n' :=
  (keeps h).trans (.outside rfl hv hst hs)

theorem send (h : SavesNone n n') {ms : List (Message NID N D)} (hms : ∀ msg ∈ ms, msg.Outward) :
    SavesNone n (n'.send ms) := by
  refine ⟨h.engine, h.vote, h.streams, fun msg hmsg => ?_⟩
  rcases List.mem_append.1 hmsg with hold | hnew
  · exact h.sent msg hold
  · exact Or.inr (hms msg hnew)

end

end SavesNone

theorem Rising.savesNone (h : n.Rising) (hk : SavesNone n n') : n'.Rising := by
  have hid : n'.id = n.id := congrArg EngineConfig.id hk.engine.config
  refine ⟨?_, fun V ts hV => ?_, fun msg hmsg => (hk.sent msg hmsg).elim (h.sent msg) fun hs => hs⟩
  · rw [savedVote, hk.vote, hid]
    exact h.engine.savesNone hk.engine
  · rw [hid]
    rcases hk.streams V ts hV with hold | hnew
    · exact h.streams V ts hold
    · exact hnew

/-! ### Commands -/

omit [LinearOrder NID] in
theorem runSaveCommittedAndApply_savesNone (n : Node NID N D)
    (alreadyApplied : Option (LogId NID)) (upto : LogId NID) :
    SavesNone n (n.runSaveCommittedAndApply alreadyApplied upto) := by
  unfold runSaveCommittedAndApply
  dsimp only
  split
  · exact .cursors (.ofState _ rfl) rfl (Or.inl rfl) rfl
  · exact .cursors (.ofState _ rfl) rfl (Or.inl rfl) rfl

omit [LinearOrder NID] in
theorem runStateMachine_savesNone (n : Node NID N D) (command : SmCommand NID N D) :
    SavesNone n (n.runStateMachine command) := by
  unfold runStateMachine
  dsimp only
  split
  · split
    · exact .cursors (.ofState _ rfl) rfl (Or.inl rfl) rfl
    · exact .cursors (.ofState _ rfl) rfl (Or.inl rfl) rfl
  · exact .outside rfl rfl (Or.inl rfl) rfl

theorem execCommand_savesNone {c : Command NID N D} (hc : c.SavesNone n.id)
    (hreq : ∀ req, c = .sendVote false req → req.vote.committed = false)
    (he : n.execCommand c = some n') : SavesNone n n' := by
  cases c with
  | updateIOProgress _ io =>
    obtain rfl := Option.some.inj he
    exact .cursors (.ofState _ rfl) rfl (Or.inl rfl) rfl
  | appendEntries V entries =>
    obtain rfl := Option.some.inj he
    exact .cursors (.ofState _ rfl) rfl (Or.inl rfl) rfl
  | replicateCommitted committed =>
    obtain rfl := Option.some.inj he
    exact .outside rfl rfl (Or.inl rfl) rfl
  | saveCommittedAndApply alreadyApplied upto =>
    obtain rfl := Option.some.inj he
    exact n.runSaveCommittedAndApply_savesNone alreadyApplied upto
  | replicate target inflight =>
    obtain rfl := Option.some.inj he
    exact .refl n
  | replicateSnapshot V target id =>
    obtain rfl := Option.some.inj he
    exact .refl n
  | broadcastTransferLeader V target last =>
    obtain rfl := Option.some.inj he
    refine (SavesNone.refl n).send fun msg hmsg => ?_
    obtain ⟨t, -, rfl⟩ := List.mem_map.1 hmsg
    trivial
  | closeReplicationStreams =>
    obtain rfl := Option.some.inj he
    exact .outside rfl rfl (Or.inr rfl) rfl
  | failPendingReads =>
    obtain rfl := Option.some.inj he
    exact .refl n
  | rebuildReplicationStreams V targets closeOld =>
    obtain rfl := Option.some.inj he
    refine ⟨.refl _, rfl, fun V' ts hV => Or.inr ?_, fun _ hmsg => Or.inl hmsg⟩
    cases hV
    exact hc
  | saveVote v => exact hc.elim
  | sendVote isPreVote req =>
    obtain rfl := Option.some.inj he
    refine (SavesNone.refl n).send fun msg hmsg => ?_
    obtain ⟨t, -, rfl⟩ := List.mem_map.1 hmsg
    cases isPreVote with
    | true => trivial
    | false => exact hreq req rfl
  | purgeLog upto =>
    obtain ⟨-, heq⟩ := Option.ite_none_right_eq_some.1 he
    obtain rfl := Option.some.inj heq
    exact .cursors (.ofState _ rfl) rfl (Or.inl rfl) rfl
  | truncateLog after =>
    obtain ⟨-, heq⟩ := Option.ite_none_right_eq_some.1 he
    obtain rfl := Option.some.inj heq
    exact .outside rfl rfl (Or.inl rfl) rfl
  | stateMachine command =>
    obtain rfl := Option.some.inj he
    exact n.runStateMachine_savesNone command
  | respond _ resp =>
    obtain rfl := Option.some.inj he
    refine (SavesNone.refl n).send fun msg hmsg => ?_
    obtain rfl := List.mem_singleton.1 hmsg
    exact resp.outward n.id

/-- The vote that the command at the head of the queue saves. -/
def headVote (n : Node NID N D) : Option (Vote NID) :=
  n.engine.output.commands.head?.bind Command.savedVote?

/-- The vote that an event passes to `save_vote`. -/
def savesVote (n : Node NID N D) : Event NID N D → Option (Vote NID)
  | .runCommand => n.headVote
  | _ => none

omit [LinearOrder NID] in
theorem headVote_cons {c : Command NID N D} {cs : List (Command NID N D)}
    (hc : n.engine.output.commands = c :: cs) : n.headVote = c.savedVote? := by
  unfold headVote
  rw [hc]
  rfl

/-- What is at the head of the queue is saved over a smaller vote. -/
theorem Rising.head (h : n.Rising) {c : Command NID N D} {cs : List (Command NID N D)}
    (hc : n.engine.output.commands = c :: cs) :
    c.SavesGreater n.engine.config.mode n.id n.savedVote := by
  have hqueue := h.engine.queue
  unfold Engine.QueueRises at hqueue
  rw [hc] at hqueue
  exact hqueue.1

theorem Rising.pop (h : n.Rising) {c : Command NID N D} {cs : List (Command NID N D)}
    (hc : n.engine.output.commands = c :: cs) :
    (n.withCommands cs).engine.Rising (voteStep n.savedVote c) := by
  obtain ⟨hqueue, hcand⟩ := h.engine
  unfold Engine.QueueRises at hqueue
  rw [hc] at hqueue hcand
  exact ⟨hqueue.2, hcand⟩

theorem Rising.withCommands (h : n.Rising) {c : Command NID N D} {cs : List (Command NID N D)}
    (hc : n.engine.output.commands = c :: cs) (hnone : c.SavesNone n.id) :
    (n.withCommands cs).Rising := by
  have hpop := h.pop hc
  rw [hnone.voteStep] at hpop
  exact ⟨hpop, h.streams, h.sent⟩

theorem Rising.runSaveVote (h : n.Rising) {v : Vote NID} {cs : List (Command NID N D)}
    (hc : n.engine.output.commands = .saveVote v :: cs) :
    ((n.withCommands cs).runSaveVote v).Rising ∧
      ((n.withCommands cs).runSaveVote v).store.vote = some v := by
  have hsaved : Rising { (n.withCommands cs).submitLog (.new v) with
      store := { n.store with vote := some v }
      ioDone := n.ioDone ++ [.new v] } :=
    ⟨(h.pop hc).savesNone (.of_eq rfl rfl (Or.inl rfl)), h.streams, h.sent⟩
  unfold Node.runSaveVote
  dsimp only
  split
  · exact ⟨hsaved, rfl⟩
  · refine ⟨hsaved.savesNone ((SavesNone.refl _).send fun msg hmsg => ?_), rfl⟩
    obtain rfl := List.mem_singleton.1 hmsg
    trivial

theorem Rising.runCommand (h : n.Rising) (hinv : n.VoteInv A G P) (he : n.runCommand = some n') :
    n'.Rising ∧ n'.store.vote = n.headVote.or n.store.vote := by
  unfold Node.runCommand at he
  split at he
  · cases he
  rename_i c cs hc
  rw [headVote_cons hc]
  cases hsave : c.savedVote? with
  | some v =>
    obtain rfl := Command.eq_of_savedVote? hsave
    rw [if_pos (by rfl)] at he
    obtain ⟨-, heq⟩ := Option.ite_none_right_eq_some.1 he
    obtain rfl := Option.some.inj heq
    exact h.runSaveVote hc
  | none =>
    have hnone := (h.head hc).savesNone hsave
    have hpop := h.withCommands hc hnone
    split at he
    · have hk := execCommand_savesNone (n := n.withCommands cs) hnone (fun req hreq => by
        have hok := hinv.head hc
        rw [hreq] at hok
        exact (hok rfl).2.2) he
      exact ⟨hpop.savesNone hk, hk.vote⟩
    · split at he
      · obtain rfl := Option.some.inj he
        exact ⟨hpop.savesNone (.withEngine (.of_eq rfl rfl (Or.inl rfl))), rfl⟩
      · cases he

theorem runProgressDrivenCommand_savesNone (he : n.runProgressDrivenCommand = some n') :
    SavesNone n n' := by
  unfold runProgressDrivenCommand at he
  obtain ⟨-, he⟩ := Option.ite_none_right_eq_some.1 he
  obtain ⟨c, hc, he⟩ := Option.bind_eq_some_iff.1 he
  have hplain := nextProgressDrivenCommand_isPlain hc n.id
  refine execCommand_savesNone hplain.savesNone (fun req hreq => ?_) he
  rw [hreq] at hplain
  exact hplain.elim

theorem sendSatisfiedOnLogIo_savesNone (he : n.sendSatisfiedOnLogIo = some n') :
    SavesNone n n' := by
  unfold sendSatisfiedOnLogIo at he
  dsimp only at he
  split at he
  · cases he
  · rename_i io resp rest hpending
    obtain ⟨-, heq⟩ := Option.ite_none_right_eq_some.1 he
    obtain rfl := Option.some.inj heq
    apply SavesNone.send
    · exact .withEngine (.of_eq rfl rfl (Or.inl rfl))
    · intro msg hmsg
      obtain rfl := List.mem_singleton.1 hmsg
      exact resp.outward n.id

theorem sendSatisfiedOnSnapshot_savesNone (he : n.sendSatisfiedOnSnapshot = some n') :
    SavesNone n n' := by
  unfold sendSatisfiedOnSnapshot at he
  dsimp only at he
  split at he
  · cases he
  · rename_i logId resp rest hpending
    obtain ⟨-, heq⟩ := Option.ite_none_right_eq_some.1 he
    obtain rfl := Option.some.inj heq
    apply SavesNone.send
    · exact .withEngine (.of_eq rfl rfl (Or.inl rfl))
    · intro msg hmsg
      obtain rfl := List.mem_singleton.1 hmsg
      exact resp.outward n.id

/-! ### Storage and replication -/

omit [LinearOrder NID] in
theorem flush_savesNone (he : n.flush = some n') : SavesNone n n' := by
  unfold flush at he
  split at he
  · cases he
  · obtain rfl := Option.some.inj he
    exact .outside rfl rfl (Or.inl rfl) rfl

omit [LinearOrder NID] in
theorem workerLoop_savesNone (he : n.workerLoop = some n') : SavesNone n n' := by
  unfold workerLoop at he
  repeat' split at he
  · cases he
  all_goals
    obtain rfl := Option.some.inj he
    exact .outside rfl rfl (Or.inl rfl) rfl

theorem handleLocalIo_savesNone (n : Node NID N D) (io : IOId NID) :
    SavesNone n (n.handleLocalIo io) := by
  have hmap : SavesNone n (n.mapIo fun s => { s with
      logProgress := s.logProgress.tryFlush (IOId.gt n.engine.config.mode) io }) :=
    .keeps (.ofState _ rfl)
  unfold handleLocalIo
  dsimp only
  split
  · rename_i logIo l hl
    split
    · exact hmap.trans (.afterEngine fun e' he' => Engine.updateLocalProgress_keepsVote hl he')
    · exact hmap
  · exact hmap

theorem handleStateMachineResult_savesNone (n : Node NID N D) (r : SmResponse NID N) :
    SavesNone n (n.handleStateMachineResult r) := by
  cases r with
  | buildSnapshotDone sm => exact .keeps (Engine.onBuildingSnapshotDone_keepsVote _ _)
  | installSnapshot io sm =>
    unfold handleStateMachineResult
    dsimp only
    split
    · exact .cursors (.ofState _ rfl) rfl (Or.inl rfl) rfl
    · exact .cursors (.ofState _ rfl) rfl (Or.inl rfl) rfl
  | apply last => exact .cursors (.ofState _ rfl) rfl (Or.inl rfl) rfl

theorem handleReplicationProgress_savesNone (n : Node NID N D) (ctx : StreamCtx NID)
    (result : Engine.ReplicationResult NID) :
    SavesNone n (n.handleReplicationProgress ctx result) := by
  unfold handleReplicationProgress
  split
  · rename_i l hl
    exact .afterEngine fun e' he' => Engine.updateProgress_keepsVote hl he'
  · exact .refl n

theorem writeEntries_savesNone (n : Node NID N D) (now : Nat)
    (payloads : List (Payload NID N D)) : SavesNone n (n.writeEntries now payloads) := by
  unfold writeEntries
  split
  · rename_i l hl
    have hlead := ensureLeaderHandler_some (Option.filter_eq_some_iff.1 hl).1
    exact .keeps (Engine.leaderAppendEntries_keepsVote hlead _)
  · exact .refl n

theorem changeMembership_savesNone (n : Node NID N D) (now : Nat) (changes : ChangeMembers NID N)
    (retain : Bool) : SavesNone n (n.changeMembership now changes retain) := by
  unfold changeMembership
  repeat' split
  · exact .refl n
  · exact .outside rfl rfl (Or.inl rfl) rfl
  · exact .refl n
  · exact n.writeEntries_savesNone now _

theorem appendMembership_savesNone [DecidableEq N] (n : Node NID N D) (now : Nat)
    (membership : Membership NID N) : SavesNone n (n.appendMembership now membership) := by
  unfold appendMembership
  repeat' split
  · exact .refl n
  · exact .refl n
  · exact .refl n
  · exact n.writeEntries_savesNone now _

theorem receiveClock_savesNone {msg : Message NID N D} (he : n.receiveClock msg = some n') :
    SavesNone n n' := by
  have hclock : ∀ ctx, SavesNone n (n.handleHeartbeatProgress ctx) := fun ctx =>
    .keeps (Engine.withLeader_keepsVote fun _ hl => Engine.tryUpdateLeaderClock_keepsVote hl _ _ _)
  unfold receiveClock at he
  repeat' split at he
  all_goals cases he
  all_goals exact hclock _

/-- A stream goes to another node than the one its leader is at. -/
theorem Rising.stream_outward (h : n.Rising) (hinv : n.VoteInv A G P) {V : LeaderId NID}
    {ts : List (NID × Nat)} (hst : n.streams = some (V, ts)) {target : NID} {streamId : Nat}
    (ht : ts.lookup target = some streamId) : V.nodeId ≠ target := by
  obtain ⟨before, behind, heq, -⟩ := List.lookup_eq_some_iff.1 ht
  have hmem : (target, streamId) ∈ ts := by
    rw [heq]
    exact List.mem_append_right _ List.mem_cons_self
  rw [(hinv.streams V ts hst).1]
  exact (h.streams V ts hst _ hmem).symm

theorem Rising.sendOnStream (h : n.Rising) (hinv : n.VoteInv A G P) (hsend : n.SendsOnStream n') :
    SavesNone n n' := by
  cases hsend with
  | appendEntries hst ht | snapshot hst ht =>
    refine (SavesNone.refl n).send fun msg hmsg => ?_
    obtain rfl := List.mem_singleton.1 hmsg
    exact h.stream_outward hinv hst ht

/-! ### Events -/

/-- An event that saves no vote, but may push one. -/
def Rises (n n' : Node NID N D) : Prop := n'.Rising ∧ n'.store.vote = n.store.vote

theorem Rising.rises (h : n.Rising) (hk : SavesNone n n') : Rises n n' := ⟨h.savesNone hk, hk.vote⟩

/-- A handler of the engine. -/
theorem Rising.ofEngine (h : n.Rising) (he : e'.Rising n.savedVote)
    (hconfig : e'.config = n.engine.config) : Rises n (n.withEngine e') := by
  have hid : (n.withEngine e').id = n.id := congrArg EngineConfig.id hconfig
  refine ⟨⟨?_, ?_, h.sent⟩, rfl⟩
  · unfold savedVote
    rw [hid]
    exact he
  · rw [hid]
    exact h.streams

theorem Rising.afterEngine (h : n.Rising) {r : Option (Engine NID N D)}
    (hr : ∀ e', r = some e' → e'.Rising n.savedVote)
    (hconfig : (n.afterEngine r).engine.config = n.engine.config) : Rises n (n.afterEngine r) := by
  cases r with
  | none => exact h.rises (.outside rfl rfl (Or.inl rfl) rfl)
  | some e' => exact h.ofEngine (hr e' rfl) hconfig

/-- What a message that arrives has to fulfil. -/
structure Heeds (A : Vote NID → Prop) (n : Node NID N D) (msg : Message NID N D) : Prop where
  incoming : ∀ v ∈ msg.vote?, n.engine.Incoming A n.savedVote v
  outward : msg.Outward
  dst : msg.dst = n.id

section Messages

variable (h : n.Rising) (hinv : n.VoteInv A G P) (hu : Engine.OnePerRank n.engine.config.mode A)

include h hinv hu

theorem Rising.handleVoteResponse (henv : OwnVotes A n.id) {now : Nat} {isPreVote : Bool}
    {src : NID} {candidateVote : LeaderId NID} {resp : VoteResponse NID}
    (hv : n.engine.Incoming A n.savedVote resp.vote)
    (he : n.handleVoteResponse now isPreVote src candidateVote resp = n')
    (hconfig : n'.engine.config = n.engine.config) : Rises n n' := by
  unfold Node.handleVoteResponse at he
  cases isPreVote with
  | true =>
    simp only [if_true] at he
    split at he
    · subst he
      exact h.ofEngine (h.engine.handlePreVoteResp hinv.engine hinv.saved hu henv now src hv)
        hconfig
    · subst he
      exact h.rises (.refl n)
  | false =>
    simp only [Bool.false_eq_true, if_false] at he
    split at he
    · subst he
      refine h.afterEngine (fun e' he' => ?_) hconfig
      exact (h.engine.handleVoteResp hinv.engine hinv.saved hu henv hv he').1
    · subst he
      exact h.rises (.refl n)

section

omit hu

theorem Rising.handleHigherVote {now : Nat} {leaderVote : LeaderId NID} {higher : Vote NID}
    (he : n.handleHigherVote now leaderVote higher = n')
    (hconfig : n'.engine.config = n.engine.config) : Rises n n' := by
  unfold Node.handleHigherVote at he
  split at he
  · rename_i hl
    obtain ⟨l, hl, -⟩ := Option.map_eq_some_iff.1 hl
    subst he
    exact h.ofEngine (h.engine.updateVote_leading hinv.engine hl now higher) hconfig
  · subst he
    exact h.rises (.refl n)

theorem Rising.handleAppendEntriesResponse {now : Nat} {ctx : StreamCtx NID}
    {result : Except (StreamAppendError NID) (Option (LogId NID))}
    (he : n.handleAppendEntriesResponse now ctx result = n')
    (hconfig : n'.engine.config = n.engine.config) : Rises n n' := by
  unfold Node.handleAppendEntriesResponse at he
  split at he
  · subst he
    exact h.rises (.refl n)
  · split at he
    · subst he
      exact h.rises (.refl n)
    · subst he
      exact h.rises (n.handleReplicationProgress_savesNone ctx _)
  · subst he
    exact h.rises (n.handleReplicationProgress_savesNone ctx _)
  · exact h.handleHigherVote hinv he hconfig

theorem Rising.handleInstallSnapshotResponse {now : Nat} {ctx : StreamCtx NID}
    {lastLogId : Option (LogId NID)} {v : Vote NID}
    (he : n.handleInstallSnapshotResponse now ctx lastLogId v = n')
    (hconfig : n'.engine.config = n.engine.config) : Rises n n' := by
  unfold Node.handleInstallSnapshotResponse at he
  split at he
  · exact h.handleHigherVote hinv he hconfig
  · subst he
    exact h.rises (n.handleReplicationProgress_savesNone ctx _)

theorem Rising.handleTransferLeader {now : Nat} {V : LeaderId NID} {target : NID}
    {lastLogId : Option (LogId NID)} (he : n.handleTransferLeader now V target lastLogId = n')
    (hconfig : n'.engine.config = n.engine.config) : Rises n n' := by
  unfold Node.handleTransferLeader at he
  dsimp only at he
  split at he
  · have hlease : n.engine.KeepsVote { n.engine with
        state := { n.engine.state with vote := n.engine.state.vote.disableLease } } :=
        .ofState _ rfl
    split at he
    · subst he
      exact h.ofEngine ((h.engine.savesNone (.of_keepsVote hlease)).doElect
        (hinv.engine.keeps hlease).toVoteCore now true) hconfig
    · subst he
      exact h.rises (.keeps hlease)
  · subst he
    exact h.rises (.refl n)

end

theorem Rising.receive (henv : OwnVotes A n.id) {now : Nat} {msg : Message NID N D}
    (hmsg : Heeds A n msg) (he : n.receive now msg = some n')
    (hconfig : n'.engine.config = n.engine.config) : Rises n n' := by
  cases msg with
  | vote isPreVote src dst req =>
    cases isPreVote with
    | true =>
      obtain rfl := Option.some.inj he
      exact h.rises (.withEngine (.push trivial))
    | false =>
      obtain rfl := Option.some.inj he
      have hreq := h.engine.handleVoteReq hinv.engine hinv.saved hu now (hmsg.incoming _ rfl)
        hmsg.outward
      exact h.ofEngine (hreq.savesNone (.push trivial)) hconfig
  | voteResp isPreVote src dst candidateVote resp =>
    exact h.handleVoteResponse hinv hu henv (hmsg.incoming _ rfl) (Option.some.inj he) hconfig
  | appendEntries ctx req =>
    obtain rfl := Option.some.inj he
    have hid : req.vote.leaderId.nodeId ≠ n.id := fun hown =>
      hmsg.outward (hown.trans hmsg.dst.symm)
    have hreq := h.engine.handleAppendEntries hinv.engine hinv.saved hu now ctx
      (hmsg.incoming _ rfl) hid req.prevLogId req.entries
    refine h.ofEngine (hreq.savesNone (.of_keepsVote (.ofState _ ?_))) hconfig
    exact Engine.updateCommitted_voteRef _ _ _
  | appendEntriesResp ctx result =>
    obtain ⟨-, heq⟩ := Option.ite_none_right_eq_some.1 he
    exact h.handleAppendEntriesResponse hinv (Option.some.inj heq) hconfig
  | installFullSnapshot ctx v snapshot =>
    obtain rfl := Option.some.inj he
    have hid : v.leaderId.nodeId ≠ n.id := fun hown => hmsg.outward (hown.trans hmsg.dst.symm)
    refine h.afterEngine (fun e' he' => ?_) hconfig
    exact h.engine.handleInstallFullSnapshot hinv.engine hinv.saved hu (hmsg.incoming _ rfl) hid
      he'
  | installFullSnapshotResp ctx lastLogId v =>
    obtain ⟨-, heq⟩ := Option.ite_none_right_eq_some.1 he
    exact h.handleInstallSnapshotResponse hinv (Option.some.inj heq) hconfig
  | transferLeader dst V target lastLogId =>
    exact h.handleTransferLeader hinv (Option.some.inj he) hconfig
  | initializeResp node error => exact absurd he (by simp [Node.receive])

end Messages

/-- A node that starts, with or without leader restore, has nothing to save. -/
theorem start_rising {config : EngineConfig NID} {incarnation : Nat}
    {sent : List (Message NID N D)} {now : Nat} {store : LogStore NID N D}
    {sm : StateMachine NID N D} (hsent : ∀ msg ∈ sent, msg.Outward)
    (h : Node.start config incarnation sent now store sm = some n) :
    n.Rising ∧ n.store.vote = store.vote := by
  obtain ⟨⟨state, store', sm'⟩, hinit, rfl⟩ := Option.map_eq_some_iff.1 h
  refine ⟨⟨Engine.startup_rising _ _ _ _, fun V ts hV => ?_, hsent⟩, (getInitialState_vote hinit).2⟩
  cases hV

theorem Rising.restart (h : n.Rising) (now keep appliedKeep : Nat) :
    Rises n (n.restart now keep appliedKeep) := by
  unfold Node.restart
  dsimp only
  generalize hs : Node.start n.engine.config (n.incarnation + 1) n.sent now
    (n.store.crash keep) _ = r
  cases r with
  | none => exact h.rises (.outside rfl rfl (Or.inl rfl) rfl)
  | some n' =>
    obtain ⟨hrise, hvote⟩ := start_rising h.sent hs
    exact ⟨hrise, hvote⟩

/-- Every event keeps the votes rising, and changes the stored vote to the one that it saves. -/
theorem Rising.perform [DecidableEq N] (h : n.Rising) (hinv : n.VoteInv A G P)
    (hu : Engine.OnePerRank n.engine.config.mode A) (henv : OwnVotes A n.id) {now : Nat}
    {ev : Event NID N D} (hmsg : ∀ msg, ev = .receive msg → Heeds A n msg)
    (he : n.perform now ev = some n') (hconfig : n'.engine.config = n.engine.config) :
    n'.Rising ∧ n'.store.vote = (n.savesVote ev).or n.store.vote := by
  cases ev with
  | receive msg => exact h.receive hinv hu henv (hmsg msg rfl) he hconfig
  | receiveClock msg => exact h.rises (receiveClock_savesNone he)
  | runCommand => exact h.runCommand hinv he
  | runProgressDrivenCommand => exact h.rises (runProgressDrivenCommand_savesNone he)
  | sendSatisfiedOnLogIo => exact h.rises (sendSatisfiedOnLogIo_savesNone he)
  | sendSatisfiedOnSnapshot => exact h.rises (sendSatisfiedOnSnapshot_savesNone he)
  | flush => exact h.rises (flush_savesNone he)
  | workerLoop => exact h.rises (workerLoop_savesNone he)
  | localIo io =>
    obtain ⟨-, heq⟩ := Option.ite_none_right_eq_some.1 he
    obtain rfl := Option.some.inj heq
    exact h.rises (n.handleLocalIo_savesNone io)
  | stateMachineResult =>
    unfold Node.perform at he
    dsimp only at he
    split at he
    · cases he
    · rename_i r rest hdone
      obtain rfl := Option.some.inj he
      have hrest : SavesNone n { n with smDone := rest } := .outside rfl rfl (Or.inl rfl) rfl
      exact h.rises (hrest.trans (handleStateMachineResult_savesNone _ r))
  | elect =>
    obtain rfl := Option.some.inj he
    exact h.ofEngine (h.engine.doElect hinv.engine.toVoteCore now false) hconfig
  | preElect =>
    obtain rfl := Option.some.inj he
    exact h.ofEngine (h.engine.preElect hinv.engine.toVoteCore now) hconfig
  | triggerSnapshot =>
    obtain rfl := Option.some.inj he
    exact h.rises (.keeps (Engine.triggerSnapshot_keepsVote _))
  | purgeLog index =>
    obtain rfl := Option.some.inj he
    exact h.rises (.afterEngine fun e' he' => Engine.triggerPurgeLog_keepsVote he')
  | triggerTransferLeader target =>
    obtain rfl := Option.some.inj he
    exact h.rises (.keeps (Engine.withLeader_keepsVote fun _ hl =>
      Engine.transferLeader_keepsVote hl target))
  | refreshServerState =>
    obtain rfl := Option.some.inj he
    exact h.rises (.withEngine (Engine.updateInternalServerState_savesNone _ now))
  | initiateReplication =>
    obtain rfl := Option.some.inj he
    exact h.rises (.keeps (Engine.withLeader_keepsVote fun _ hl =>
      Engine.initiateReplication_keepsVote hl))
  | replicationError target streamId inflightId =>
    obtain ⟨l, hl, rfl⟩ := Option.map_eq_some_iff.1 he
    exact h.rises (.afterEngine fun e' he' => Engine.updateProgress_keepsVote hl he')
  | write data =>
    obtain rfl := Option.some.inj he
    exact h.rises (n.writeEntries_savesNone now _)
  | changeMembership changes retain =>
    obtain rfl := Option.some.inj he
    exact h.rises (n.changeMembership_savesNone now changes retain)
  | appendMembership membership =>
    obtain rfl := Option.some.inj he
    exact h.rises (n.appendMembership_savesNone now membership)
  | sendAppendEntries target prev count inflightId =>
    exact h.rises (h.sendOnStream hinv (sendAppendEntries_sends he))
  | sendHeartbeat target => exact h.rises (h.sendOnStream hinv (sendHeartbeat_sends he))
  | sendSnapshot target inflightId =>
    exact h.rises (h.sendOnStream hinv (sendSnapshot_sends he))
  | restart keep appliedKeep =>
    obtain rfl := Option.some.inj he
    exact h.restart now keep appliedKeep

/-- A vote that is saved is greater than the stored one. -/
theorem Rising.gt_of_savesVote (h : n.Rising) {ev : Event NID N D} {v w : Vote NID}
    (hv : n.savesVote ev = some v) (hw : n.store.vote = some w) :
    v.gt n.engine.config.mode w = true := by
  have hsaved : n.savedVote = w := by
    unfold savedVote
    rw [hw]
    rfl
  cases ev with
  | runCommand =>
    obtain ⟨c, hc, hcv⟩ := Option.bind_eq_some_iff.1 (show n.headVote = some v from hv)
    obtain ⟨cs, hcs⟩ := List.head?_eq_some_iff.1 hc
    have hhead := h.head hcs
    rw [Command.eq_of_savedVote? hcv, hsaved] at hhead
    exact Vote.gt_iff.2 hhead
  | _ => cases hv

/-- After the message that gives a candidate its quorum the node leads, or it has stopped. -/
theorem Rising.receive_of_wins (h : n.Rising) (hinv : n.VoteInv A G P)
    (hu : Engine.OnePerRank n.engine.config.mode A) (henv : OwnVotes A n.id) {now : Nat}
    {msg : Message NID N D} (hmsg : Heeds A n msg) {c : Candidate NID N} (hw : n.Wins c msg)
    (he : n.receive now msg = some n') :
    n' = { n with stopped := true } ∨
      n'.engine.leader.isSome = true ∧ n'.engine.state.voteRef = ⟨c.vote.leaderId, true⟩ := by
  rcases msg with _ | ⟨_ | _, src, dst, candidateVote, resp⟩ | _ | _ | _ | _ | _ | _
  · exact hw.elim
  · obtain ⟨rfl, hw⟩ := hw
    obtain rfl := Option.some.inj he
    unfold Node.handleVoteResponse
    rw [if_neg Bool.false_ne_true, if_neg Bool.false_ne_true, if_pos (by rw [hw.candidate]; rfl)]
    cases hresp : n.engine.handleVoteResp now src resp with
    | none => exact Or.inl rfl
    | some e' =>
      exact Or.inr ((h.engine.handleVoteResp hinv.engine hinv.saved hu henv
        (hmsg.incoming _ rfl) hresp).2 c hw)
  all_goals exact hw.elim

theorem Rising.handleInitialize (h : n.Rising) (hinv : n.VoteInv A G P)
    (hA : ∀ V, A ⟨V, true⟩ → V.term ≠ 0) {now : Nat} {memberNodes : NodeMap NID N}
    (hconfig : (n.handleInitialize now memberNodes).engine.config = n.engine.config) :
    Rises n (n.handleInitialize now memberNodes) := by
  have hcand : ∀ c, n.engine.candidate = some c → c.vote.leaderId.term ≠ 0 := fun c hc =>
    (h.engine.candidate c hc).2
  rcases handleInitialize_cases hinv hcand hA now memberNodes with ⟨err, heq⟩ | ⟨-, -, w, heq⟩
  · rw [heq]
    exact h.rises (.withEngine (.push trivial))
  · rw [heq] at hconfig ⊢
    have hk := Engine.appendFirst_keepsVote n.engine (.ofNodes memberNodes)
    have hfirst := (h.engine.savesNone (.of_keepsVote hk)).savesNone
      (.push (c := .respond w (.initialized none)) trivial)
    have hcore : Engine.VoteInv A G P n.engine.frame n.savedVote
        ((n.engine.appendFirst (.ofNodes memberNodes)).pushCommand
          (.respond w (.initialized none))) :=
      (hinv.engine.keeps hk).pushRespond w fun v hv => by cases hv
    exact h.ofEngine (hfirst.doElect hcore.toVoteCore now false) hconfig

end Node

end ZenohRaft
