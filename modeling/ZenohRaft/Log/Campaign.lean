/-
  Elections keep the memory and the log of an engine in agreement.

  A vote that another node has seen is in order (`Engine.SeenOK`) if a committed one is the vote of
  a leader, and if it is not a vote of this node that the node itself has not reached.

  * `doElect_keeps`, `preElect_keeps`: an election of the node itself, which asks for votes with the
    end of its log.
  * `handleVoteReq_keeps`: the vote of another candidate; a vote that is granted is answered with
    the vote that the node has accepted, and its log is not ahead of that of the candidate.
  * `establishLeader_keeps`, `handleVoteResp_keeps`: the candidate that wins opens its streams,
    saves its vote and proposes a blank entry, which the history has as the next one of its log.
-/
import ZenohRaft.Election.Engine
import ZenohRaft.Log.Leading

namespace ZenohRaft

open Lib

variable {NID N D : Type} [LinearOrder NID]

omit [LinearOrder NID] in
/-- A log of the history is determined by its end. -/
theorem History.IsLog.eq_upTo {h : History NID N D} {l : List (Entry NID N D)} (hl : h.IsLog l) :
    l = h.upTo (tipId l) := by
  cases hx : tipId l with
  | none => exact tipId_eq_none.1 hx
  | some x =>
    obtain ⟨hxl, hlen⟩ := (tipId_eq_some hl.2).1 hx
    rw [← hl.take_eq_upTo hxl, List.take_of_length_le (by omega)]

/-- The log of a node is what the history has up to its last log id. -/
theorem LogMem.full_eq {mode : LeaderIdMode} {h : History NID N D} {id : NID} {X : View NID N D}
    {s : RaftState NID N} (hm : LogMem mode h id X s) : X.full h = h.upTo s.lastLogId := by
  rw [hm.lastLogId_eq]
  exact hm.ok.log.eq_upTo

namespace Engine

variable {h : History NID N D} {X X' : View NID N D} {e e' : Engine NID N D} {V : LeaderId NID}
variable {l : Leader NID N} {v : Vote NID}

/-! ## Votes of other nodes -/

/-- A vote that another node has seen. -/
structure SeenOK (h : History NID N D) (e : Engine NID N D) (v : Vote NID) : Prop where
  led : v.committed = true → h.leader v.leaderId
  own : v.leaderId.nodeId = e.config.id → v.gt e.config.mode e.state.voteRef = false

theorem stays_of_touch (hm : e.Mem h X) (now lease : Nat) : Stays h X e X
    { e with state := { e.state with vote := e.state.vote.touch now lease } } :=
  .of_mem (LogMem.of_sameLog hm ⟨rfl, rfl, rfl, rfl, rfl, rfl⟩) rfl rfl (.of_eq rfl) rfl rfl
    rfl rfl

/-- `update_vote` with any vote that was seen. -/
theorem updateVote_seen (hs : h.Sound e.config.mode) (hm : e.Mem h X) (hr : e.Role h X)
    (hv : SeenOK h e v) (now : Nat) :
    ∃ X', Keeps h X e X' (e.updateVote now v).1 ∧ X'.full h = X.full h := by
  by_cases hother : v.leaderId.nodeId = e.config.id
  · -- the vote of the node itself is not above the one that it holds
    unfold updateVote
    split
    · unfold adoptVote
      dsimp only
      rw [if_neg (by rw [hv.own hother]; exact Bool.false_ne_true)]
      have hst := stays_of_touch hm now (if v.committed then e.config.leaderLease else 0)
      obtain ⟨X', hk, hfull, -⟩ := updateInternalServerState_keeps (by exact hs) hst.mem
        (hr.of_stays hst) now
      exact ⟨X', (Keeps.of_stays hr hst).trans hk, hfull⟩
    · exact ⟨X, .refl hm hr, rfl⟩
  · obtain ⟨X', hk, hfull, -⟩ := updateVote_keeps hs hm hr hv.led hother now
    exact ⟨X', hk, hfull⟩

/-! ## Campaigns -/

theorem stays_of_preCandidate (hm : e.Mem h X) (pc : Option (Candidate NID N)) :
    Stays h X e X { e with preCandidate := pc } :=
  .of_mem hm rfl rfl (.refl _) rfl rfl rfl rfl

theorem createCandidate_granted (e : Engine NID N D) (v : Vote NID) :
    ∀ x ∈ (e.createCandidate v).progress.entries, x.progress = true →
      h.granted x.id (e.createCandidate v).vote.leaderId := by
  intro x hx htrue
  obtain ⟨k, -, rfl⟩ := List.mem_map.1 hx
  cases htrue

theorem campaignVote_gt (mode : LeaderIdMode) (v : Vote NID) (id : NID) :
    Vote.gt mode ⟨⟨v.leaderId.term + 1, id⟩, false⟩ v = true := by
  refine Vote.gt_iff.2 (Vote.rank_lt_iff.2 (Or.inl (CommittedLeaderId.lt_iff.2 ?_)))
  exact Or.inl (by simp)

/-- What `do_elect` leads to before the vote requests are sent. -/
theorem updateVote_campaign (hs : h.Sound e.config.mode) (hm : e.Mem h X)
    (hleader : e.leader = none) (hstreams : X.streams = none) {c : Candidate NID N}
    (hc : e.candidate = some c) (hV : v = ⟨⟨e.state.voteRef.leaderId.term + 1, e.config.id⟩, false⟩)
    (hcv : c.vote = v) (hlast : c.lastLogId = tipId (X.full h))
    (hgranted : ∀ x ∈ c.progress.entries, x.progress = true → h.granted x.id c.vote.leaderId)
    (now : Nat) :
    ∃ X', Keeps h X e X' (e.updateVote now v).1 ∧ X'.full h = X.full h ∧ X'.vote = v := by
  have hgt : v.gt e.config.mode e.state.voteRef = true := by
    rw [hV]
    exact campaignVote_gt _ _ _
  have hge : v.ge e.config.mode e.state.voteRef = true := Vote.ge_iff.2 (Or.inr (Vote.gt_iff.1 hgt))
  have hunc : v.committed = false := by rw [hV]
  have hvac : v.committed ≠ true := by
    rw [hunc]
    exact Bool.false_ne_true
  obtain ⟨X1, ha⟩ := adoptVote_adopts hs hm (v := v)
    ⟨fun hcom => absurd hcom hvac, fun hcom => absurd hcom hvac⟩ hge now
  unfold updateVote
  rw [if_pos hge]
  have hcfg := ha.moves.config
  generalize e.adoptVote now v = e1 at *
  have hX1 : X1.vote = v := by
    rcases ha.vote with ⟨-, hX⟩ | ⟨heq, -⟩
    · exact hX
    · rw [← heq, Vote.gt_iff] at hgt
      exact absurd hgt (lt_irrefl _)
  have hnot : e1.state.isLeader e1.config.id = false := by
    unfold RaftState.isLeader
    rw [ha.voteRef, hunc]
    simp
  have hstreams1 : X1.streams = none := ha.streams.trans hstreams
  have hleader1 : e1.leader = none := ha.leader.trans hleader
  have hleading1 : e1.leading = none := by
    unfold leading
    rw [hleader1]
    rfl
  unfold updateInternalServerState
  dsimp only
  rw [if_neg (by rw [hnot]; exact Bool.false_ne_true)]
  split
  · refine ⟨X1, ⟨ha.moves, ha.mem, ?_, fun _ => ⟨hstreams1, hnot⟩, ?_⟩, ha.full, hX1⟩
    · intro c' hl
      rw [hleading1] at hl
      cases hl
    · intro c' hc'
      rw [ha.candidate, hc] at hc'
      obtain rfl := Option.some.inj hc'
      refine ⟨hcv.trans ha.voteRef.symm, hcv.trans hX1.symm, ?_, ?_, ?_, hgranted⟩
      · rw [hcv, hV, hcfg]
      · rw [hcv]
        exact hunc
      · rw [ha.full]
        exact hlast
  · obtain ⟨X2, hmoves, hmem, hfull, hvote2, hstreams2⟩ := becomeFollowing_mem
      (by rw [hcfg]; exact hs) ha.mem fun _ => hstreams1
    exact ⟨X2, ⟨ha.moves.trans hmoves, hmem, becomeFollowing_role hstreams2 hnot⟩,
      hfull.trans ha.full, hvote2.trans hX1⟩

/-- `Engine::do_elect`. -/
theorem doElect_keeps (hs : h.Sound e.config.mode) (hm : e.Mem h X) (hr : e.Role h X)
    (now : Nat) (transfer : Bool) : ∃ X', Keeps h X e X' (e.doElect now transfer) := by
  have hst := stays_of_preCandidate hm none
  unfold doElect
  dsimp only
  split
  · exact ⟨X, .of_stays hr hst⟩
  · rename_i hnone
    have hnone : e.leader = none := by simpa using hnone
    obtain ⟨V, hV⟩ : ∃ V : LeaderId NID, V = ⟨e.state.voteRef.leaderId.term + 1, e.config.id⟩ :=
      ⟨_, rfl⟩
    rw [← hV]
    obtain ⟨c, hc⟩ : ∃ c, c = ({ e with preCandidate := none } : Engine NID N D).createCandidate
      ⟨V, false⟩ := ⟨_, rfl⟩
    rw [← hc]
    have hlast : c.lastLogId = tipId (X.full h) := by
      rw [hc, ← hm.lastLogId_eq]
      rfl
    have hleading : e.leading = none := by
      unfold leading
      rw [hnone]
      rfl
    obtain ⟨e1, he1⟩ : ∃ e1 : Engine NID N D,
      e1 = { e with preCandidate := none, candidate := some c } := ⟨_, rfl⟩
    have hm1 : e1.Mem h X := by
      rw [he1]
      exact hm
    have hcfg : e1.config = e.config := by rw [he1]
    obtain ⟨X', hk, hfull, hvote⟩ := updateVote_campaign (e := e1) (v := ⟨V, false⟩) (c := c)
      (by rw [hcfg]; exact hs) hm1 (by rw [he1]; exact hnone) (hr.follower hleading).1
      (by rw [he1]) (by rw [he1, hV]) (by rw [hc]; rfl) hlast
      (by rw [hc]; exact createCandidate_granted _ _) now
    have hmoves : Moves h X e X e1 := by
      rw [he1]
      exact .of_output rfl rfl (.refl _)
    rw [← he1]
    have hpush := Stays.push (e := (e1.updateVote now ⟨V, false⟩).1)
      (.sendVote false ⟨⟨V, false⟩, c.lastLogId, transfer⟩) hk.mem (by
        refine ⟨rfl, ?_, ?_, hvote.symm, ?_⟩
        · rw [hk.config, hcfg, hV]
        · rw [hV]
          exact Nat.succ_ne_zero _
        · rw [hlast, hfull]) rfl
    exact ⟨X', hmoves.trans (hk.moves.trans hpush.moves), hpush.mem, hk.role.of_stays hpush⟩

/-- `Engine::pre_elect`. -/
theorem preElect_keeps (hs : h.Sound e.config.mode) (hm : e.Mem h X) (hr : e.Role h X)
    (now : Nat) : ∃ X', Keeps h X e X' (e.preElect now) := by
  unfold preElect
  split
  · exact ⟨X, .refl hm hr⟩
  · dsimp only
    generalize (e.createCandidate _).grantBy e.config.id = r
    have hst := stays_of_preCandidate hm (some r.1)
    have hr1 := hr.of_stays hst
    split
    · obtain ⟨X', hk⟩ := doElect_keeps (e := { e with preCandidate := some r.1 }) hs hst.mem hr1
        now false
      exact ⟨X', (Keeps.of_stays hr hst).trans hk⟩
    · have hpush := Stays.push (e := { e with preCandidate := some r.1 })
        (.sendVote true ⟨⟨⟨e.state.voteRef.leaderId.term + 1, e.config.id⟩, false⟩, r.1.lastLogId,
          false⟩) hst.mem (by trivial) rfl
      exact ⟨X, (Keeps.of_stays hr hst).trans (.of_stays hr1 hpush)⟩

/-! ## Votes for others -/

/-- The answer to a vote request, as `handle_vote_request` pushes it. -/
def answerVote (e : Engine NID N D) (src : NID) (req : VoteRequest NID) (resp : VoteResponse NID) :
    Engine NID N D :=
  e.pushCommand (.respond (some (.ioFlushed (.new e.state.voteRef)))
    (.vote false src req.vote.leaderId resp))

/-- `Engine::handle_vote_req`, for the request of another node. -/
theorem handleVoteReq_keeps (hs : h.Sound e.config.mode) (hm : e.Mem h X) (hr : e.Role h X)
    {req : VoteRequest NID} (hother : req.vote.leaderId.nodeId ≠ e.config.id)
    (hunc : req.vote.committed = false) (hasked : h.asked req.vote.leaderId req.lastLogId)
    (now : Nat) (src : NID) : ∃ X', Keeps h X e X'
      ((e.handleVoteReq now req).1.answerVote src req (e.handleVoteReq now req).2) := by
  have hrefuse : ∀ X (e : Engine NID N D) last, e.Mem h X → e.Role h X →
      Keeps h X e X (e.answerVote src req ⟨e.state.voteRef, false, last⟩) := by
    intro X e last hm hr
    exact .of_stays hr (.push _ hm (fun hgranted => by cases hgranted) rfl)
  unfold handleVoteReq
  split
  · exact ⟨X, hrefuse X e _ hm hr⟩
  · rename_i hnot
    have hle : e.state.lastLogId ≤ req.lastLogId := by
      rw [Bool.or_eq_true, not_or, decide_eq_true_eq] at hnot
      exact not_lt.1 hnot.2
    obtain ⟨X1, hk, hfull, hacc, hrej⟩ := updateVote_keeps hs hm hr (v := req.vote)
      (fun hcom => by rw [hunc] at hcom; cases hcom) hother now
    generalize e.updateVote now req.vote = r at *
    obtain ⟨e1, ok⟩ := r
    dsimp only at *
    cases ok with
    | false => exact ⟨X1, hk.trans (hrefuse X1 e1 _ hk.mem hk.role)⟩
    | true =>
      obtain ⟨hvr, hXv, -, -⟩ := hacc rfl
      have hok : X1.RespondOK e1.config.mode h e1.config.id
          (some (.ioFlushed (.new e1.state.voteRef)))
          (.vote false src req.vote.leaderId ⟨e1.state.voteRef, true, e1.state.lastLogId⟩) := by
        intro _
        refine ⟨hvr.trans hXv.symm, ?_, ?_, req.lastLogId, ?_, ?_⟩
        · rw [hXv]
          exact hunc
        · rw [hvr, hXv]
        · rw [hXv]
          exact hasked
        · rw [hfull, ← hm.lastLogId_eq]
          exact hle
      exact ⟨X1, hk.trans (.of_stays hk.role (.push _ hk.mem hok rfl))⟩

/-! ## Winning -/

/-- The candidate that one more node has granted. -/
theorem grantBy_granted {c : Candidate NID N} {target : NID}
    (hc : ∀ x ∈ c.progress.entries, x.progress = true → h.granted x.id c.vote.leaderId)
    (hg : h.granted target c.vote.leaderId) :
    (c.grantBy target).1.vote = c.vote ∧ (c.grantBy target).1.lastLogId = c.lastLogId ∧
      ∀ x ∈ (c.grantBy target).1.progress.entries, x.progress = true →
        h.granted x.id c.vote.leaderId := by
  unfold Candidate.grantBy
  split
  · rename_i progress hu
    refine ⟨rfl, rfl, ?_⟩
    have heach : c.progress.Each (fun x => x.progress = true → h.granted x.id c.vote.leaderId)
        fun _ => True := ⟨hc, trivial⟩
    have hnew := heach.updateEntryWith (fun _ _ => trivial) (by
      intro x hget _ _
      show h.granted x.id _
      rw [VecProgress.tryGet_id hget]
      exact hg) hu
    exact hnew.entries
  · exact ⟨rfl, rfl, hc⟩

/-- A new leader knows of no progress. -/
theorem intoLeader_fresh (mode : LeaderIdMode) (now : Nat) (c : Candidate NID N) (gen : Nat)
    {I : NID → Option (LogId NID) → Prop} (hI : ∀ id, I id none) {R : Option (LogId NID) → Prop}
    (hR : R none) : (c.intoLeader mode now gen).progress.Each (fun x => I x.id x.progress) R := by
  refine ⟨?_, hR⟩
  intro x hx
  obtain ⟨k, -, rfl⟩ := List.mem_map.1 hx
  exact hI k

theorem intoLeader_lastLogId (mode : LeaderIdMode) (now : Nat) (c : Candidate NID N) (gen : Nat) :
    (c.intoLeader mode now gen).lastLogId = c.lastLogId := by
  unfold Candidate.intoLeader Leader.new
  cases c.lastLogId with
  | none => rfl
  | some x => rfl

/-- The new leader saves its vote. If it is no voter, it is no leader any more. -/
theorem updateVote_won (hs : h.Sound e.config.mode) (hm : e.Mem h X) (hl : e.leader = some l)
    (hcand : e.candidate = none) (hvr : e.state.voteRef = ⟨l.committedVote, false⟩)
    (hXV : X.vote = ⟨l.committedVote, false⟩) (hown : l.committedVote.nodeId = e.config.id)
    (hlast : l.lastLogId = tipId (X.full h)) (hstreams : X.streams = some l.committedVote)
    (hprogress : l.progress.Each
      (fun x => AckOK h X e.config.mode l.committedVote x.id x.progress) (Holds (X.full h)))
    (hled : h.leader l.committedVote)
    (hlog : X.full h <+: h.log (l.committedVote.toCommitted e.config.mode)) (now : Nat)
    {l' : Leader NID N} (hl' : (e.updateVote now ⟨l.committedVote, true⟩).1.leader = some l') :
    ∃ X', Keeps h X e X' (e.updateVote now ⟨l.committedVote, true⟩).1 ∧
      X'.full h = X.full h ∧ l' = l := by
  have hgt : Vote.gt e.config.mode ⟨l.committedVote, true⟩ e.state.voteRef = true := by
    rw [hvr, Vote.gt_iff, Vote.rank_lt_iff]
    exact Or.inr ⟨rfl, rfl⟩
  have hge : Vote.ge e.config.mode ⟨l.committedVote, true⟩ e.state.voteRef = true :=
    Vote.ge_iff.2 (Or.inr (Vote.gt_iff.1 hgt))
  obtain ⟨X1, ha⟩ := adoptVote_adopts hs hm (v := ⟨l.committedVote, true⟩)
    ⟨fun _ => hled, fun _ _ => ⟨hvr.trans hXV.symm, hlog⟩⟩ hge now
  unfold updateVote at hl' ⊢
  rw [if_pos hge] at hl' ⊢
  have hcfg := ha.moves.config
  dsimp only at hl' ⊢
  generalize e.adoptVote now ⟨l.committedVote, true⟩ = e1 at *
  have hl1 : e1.leader = some l := ha.leader.trans hl
  unfold updateInternalServerState at hl' ⊢
  by_cases hlead : e1.state.isLeader e1.config.id = true
  · rw [if_pos hlead] at hl' ⊢
    have hV : e1.leaderVote = some e1.state.voteRef.leaderId := by
      rw [leaderVote_eq hl1, ha.voteRef]
    rw [becomeLeader_of_leading hV] at hl' ⊢
    rw [hl1] at hl'
    refine ⟨X1, ⟨ha.moves, ha.mem, role_of_leader hl1 ⟨ha.voteRef, ?_, ?_, ?_, ?_⟩
      (ha.candidate.trans hcand)⟩, ha.full, (Option.some.inj hl').symm⟩
    · rw [hcfg]
      exact hown
    · rw [ha.full]
      exact hlast
    · rw [ha.streams]
      exact hstreams
    · rw [hcfg]
      unfold AckOK at hprogress ⊢
      rw [ha.full]
      exact hprogress
  · -- the leader of a node that is no voter is dropped
    have hfol : e1.updateInternalServerState now = e1.becomeFollowing := by
      unfold updateInternalServerState
      rw [if_neg hlead, if_neg]
      intro hleading
      refine hlead ?_
      unfold RaftState.isLeader
      rw [hleading, ha.voteRef]
      rfl
    unfold updateInternalServerState at hfol
    rw [hfol] at hl'
    have hnone := leader_eq_none (becomeFollowing_fields e1).2.1
    rw [hnone] at hl'
    cases hl'

/-- `rebuild_replication_streams` of a leader keeps what is known about the progress. -/
theorem rebuildReplicationStreams_each (e : Engine NID N D) (l : Leader NID N) (closeOld : Bool)
    {I : NID → Option (LogId NID) → Prop} {R : Option (LogId NID) → Prop}
    (hI : l.progress.Each (fun x => I x.id x.progress) R) :
    ∃ (l1 : Leader NID N) (targets : List (NID × Nat)), e.rebuildReplicationStreams l closeOld =
        ({ e with leader := some l1 } : Engine NID N D).pushCommand
          (.rebuildReplicationStreams l.committedVote targets closeOld) ∧
      l1.committedVote = l.committedVote ∧ l1.lastLogId = l.lastLogId ∧
      (∀ t ∈ targets, t.1 ≠ e.config.id) ∧ l1.progress.Each (fun x => I x.id x.progress) R := by
  refine ⟨_, _, rfl, rfl, rfl, rebuildReplicationStreams_targets _ _, ?_, hI.accepted⟩
  intro x hx
  obtain ⟨y, hy, rfl⟩ := List.mem_map.1 hx
  have hy := hI.entries y hy
  split <;> exact hy

/-- The entry that a leader which goes on after `last` proposes first. -/
def firstProposal (mode : LeaderIdMode) (V : LeaderId NID) (last : Option (LogId NID)) :
    Entry NID N D :=
  ⟨⟨V.toCommitted mode, nextIndex last⟩, .blank⟩

/-- The history has `V` as a leader that goes on after the log that ends at `last`. -/
structure WonIn (h : History NID N D) (mode : LeaderIdMode) (V : LeaderId NID)
    (last : Option (LogId NID)) : Prop where
  leader : h.leader V
  log : h.upTo last ++ [firstProposal mode V last] <+: h.log (V.toCommitted mode)

omit [LinearOrder NID] in
theorem proposals_blank (e : Engine NID N D) (l : Leader NID N) :
    e.proposals l [.blank] = [firstProposal e.config.mode l.committedVote l.lastLogId] := by
  simp [proposals, firstProposal]

/-- The first entry of a leader whose vote is saved. -/
theorem startProposing_keeps (hs : h.Sound e.config.mode) (hm : e.Mem h X) (hr : e.Role h X)
    (hl : e.leader = some l) (hwon : WonIn h e.config.mode l.committedVote e.state.lastLogId) :
    ∃ X', Keeps h X e X' ((e.acceptLogIo
      (.newLogIo l.committedVote l.lastLogId)).leaderAppendEntries l [.blank]) := by
  have hlead := hr.leads hl
  have hfull := hm.full_eq
  have hlast : l.lastLogId = e.state.lastLogId := hlead.last.trans hm.lastLogId_eq.symm
  have hle : X.full h <+: h.log (l.committedVote.toCommitted e.config.mode) := by
    rw [hfull]
    exact (List.prefix_append _ _).trans hwon.log
  have htip : Holds (X.full h) l.lastLogId := by
    rw [hlead.last]
    exact holds_tipId hm.ok.log.2
  have hmem := acceptLogIo_mem hm (hlead.vote hm) htip (htip.mono hle)
  obtain ⟨e1, he1⟩ : ∃ e1, e1 = e.acceptLogIo (.newLogIo l.committedVote l.lastLogId) := ⟨_, rfl⟩
  have heq := RaftState.acceptLogIo_eq e.config.mode e.state
    (.newLogIo l.committedVote l.lastLogId)
  have hst : Stays h X e X e1 := by
    rw [he1]
    refine .of_mem hmem rfl rfl (.acceptLogIo _ _ _) (acceptLogIo_voteRef _ _ _) ?_ rfl rfl
    show (RaftState.acceptLogIo _ _ _).membershipState.effective = _
    rw [heq]
  have hcfg := hst.config
  have hl1 : e1.leader = some l := by
    rw [he1]
    exact hl
  have hk : Keeps h X e1 _ (e1.leaderAppendEntries l [.blank]) :=
    leaderAppendEntries_keeps (by rw [hcfg]; exact hs) hst.mem (hr.of_stays hst) hl1 (by simp)
      (by rw [proposals_blank]; exact Nat.zero_le _) (by
        rw [proposals_blank, hcfg, hlast, hfull]
        exact hwon.log)
  rw [← he1]
  exact ⟨_, (Keeps.of_stays hr hst).trans hk⟩

/-- `rebuild_replication_streams` of a candidate that has won, before its vote is saved. -/
theorem openStreams_won (hs : h.Sound e.config.mode) (hm : e.Mem h X)
    (hXV : X.vote = ⟨l.committedVote, false⟩) (hown : l.committedVote.nodeId = e.config.id)
    (hwon : WonIn h e.config.mode l.committedVote e.state.lastLogId)
    (hprogress : l.progress.Each
      (fun x => AckOK h X e.config.mode l.committedVote x.id x.progress) (Holds (X.full h))) :
    ∃ X1 l1, Moves h X e X1 (e.rebuildReplicationStreams l true) ∧
      (e.rebuildReplicationStreams l true).Mem h X1 ∧ X1.full h = X.full h ∧ X1.vote = X.vote ∧
      X1.streams = some l.committedVote ∧
      (e.rebuildReplicationStreams l true).leader = some l1 ∧
      (e.rebuildReplicationStreams l true).candidate = e.candidate ∧
      (e.rebuildReplicationStreams l true).state = e.state ∧
      l1.committedVote = l.committedVote ∧ l1.lastLogId = l.lastLogId ∧
      l1.progress.Each (fun x => AckOK h X1 e.config.mode l.committedVote x.id x.progress)
        (Holds (X1.full h)) := by
  obtain ⟨l1, targets, hreb, hl1V, hl1last, htargets, heach1⟩ :=
    rebuildReplicationStreams_each e l true
    (I := fun id p => AckOK h X e.config.mode l.committedVote id p) hprogress
  have hok : (Command.rebuildReplicationStreams l.committedVote targets true :
      Command NID N D).LogOK e.config.mode h e.config.id X := by
    refine ⟨⟨hwon.leader, ?_, ?_⟩, hown, htargets⟩
    · rw [hm.full_eq]
      exact (List.prefix_append _ _).trans hwon.log
    · have hlt : Vote.rank e.config.mode ⟨l.committedVote, false⟩ <
          Vote.rank e.config.mode ⟨l.committedVote, true⟩ :=
        Vote.rank_lt_iff.2 (Or.inr ⟨rfl, rfl⟩)
      rw [hXV]
      exact hlt.le
  rw [hreb]
  refine ⟨X.step (.rebuildReplicationStreams l.committedVote targets true), l1,
    .push_of_output _ rfl rfl (.refl _) hok, ?_, rfl, rfl, rfl, rfl, rfl, rfl, hl1V, hl1last,
    heach1⟩
  exact LogMem.of_view hm (hm.ok.step hs e.config.id hok) rfl rfl rfl rfl rfl

/-- The second part of `establish_leader`. -/
theorem startLeading_keeps (hs : h.Sound e.config.mode) (hm : e.Mem h X)
    (hcand : e.candidate = none) (hvr : e.state.voteRef = ⟨l.committedVote, false⟩)
    (hXV : X.vote = ⟨l.committedVote, false⟩) (hown : l.committedVote.nodeId = e.config.id)
    (hlast : l.lastLogId = tipId (X.full h))
    (hwon : WonIn h e.config.mode l.committedVote e.state.lastLogId)
    (hprogress : l.progress.Each
      (fun x => AckOK h X e.config.mode l.committedVote x.id x.progress) (Holds (X.full h)))
    {now : Nat} (he : e.startLeading now l = some e') : ∃ X', Keeps h X e X' e' := by
  obtain ⟨X1, l1, hmoves1, hm1, hfull1, hvote1, hstreams1, hleader1, hcand1, hstate1, hV1, hlast1,
    heach1⟩ := openStreams_won hs hm hXV hown hwon hprogress
  unfold startLeading at he
  dsimp only at he
  have hcfg1 := hmoves1.config
  generalize e.rebuildReplicationStreams l true = e1 at *
  obtain ⟨l2, hl2, rfl⟩ := Option.map_eq_some_iff.1 he
  rw [← hV1] at hl2 ⊢
  have hl2 : (e1.updateVote now ⟨l1.committedVote, true⟩).1.leader = some l2 := hl2
  obtain ⟨X2, hk2, hfull2, rfl⟩ := updateVote_won (by rw [hcfg1]; exact hs) hm1 hleader1
    (hcand1.trans hcand) (by rw [hstate1, hV1]; exact hvr) (by rw [hvote1, hV1]; exact hXV)
    (by rw [hcfg1, hV1]; exact hown) (by rw [hlast1, hfull1]; exact hlast)
    (by rw [hV1]; exact hstreams1) (by rw [hcfg1, hV1]; exact heach1)
    (by rw [hV1]; exact hwon.leader)
    (by
      rw [hcfg1, hV1, hfull1, hm.full_eq]
      exact (List.prefix_append _ _).trans hwon.log) now hl2
  have hend : (e1.updateVote now ⟨l2.committedVote, true⟩).1.state.lastLogId =
      e.state.lastLogId := by
    rw [hk2.mem.lastLogId_eq, hfull2, hfull1, ← hm.lastLogId_eq]
  obtain ⟨X3, hk3⟩ := startProposing_keeps (by rw [hk2.config, hcfg1]; exact hs) hk2.mem hk2.role
    hl2 (by rw [hk2.config, hcfg1, hend, hV1]; exact hwon)
  rw [← hlast1]
  exact ⟨X3, hmoves1.trans (hk2.moves.trans hk3.moves), hk3.mem, hk3.role⟩

/-- `Engine::establish_leader`, for the candidate `c` that a quorum has granted. -/
theorem establishLeader_keeps (hs : h.Sound e.config.mode) (hm : e.Mem h X) (hr : e.Role h X)
    {c c' : Candidate NID N} (hc : e.candidate = some c) (hvote : c'.vote = c.vote)
    (hlast : c'.lastLogId = c.lastLogId)
    (hwon : WonIn h e.config.mode c.vote.leaderId e.state.lastLogId) {now : Nat}
    (he : e.establishLeader now c' = some e') : ∃ X', Keeps h X e X' e' := by
  have hcand := hr.candidate c hc
  have hnone := hr.leader_of_candidate hc
  have hV : c.vote = ⟨c.vote.leaderId, false⟩ := by
    rw [← hcand.committed]
  unfold establishLeader establish at he
  rw [hnone] at he
  dsimp only [Option.any_none] at he
  rw [if_neg Bool.false_ne_true] at he
  dsimp only at he
  obtain ⟨l, hldef⟩ : ∃ l, l = c'.intoLeader e.config.mode now e.state.progressIdGen := ⟨_, rfl⟩
  generalize e.state.progressIdGen + Leader.freshCount c'.quorumSet c'.learnerIds = gen at he
  rw [← hldef] at he
  have hlV : l.committedVote = c.vote.leaderId := by
    rw [hldef, ← hvote]
    rfl
  obtain ⟨e0, he0⟩ : ∃ e0 : Engine NID N D, e0 = { e with
    candidate := none
    leader := some l
    preCandidate := none
    state := { e.state with progressIdGen := gen } } := ⟨_, rfl⟩
  have hm0 : e0.Mem h X := by
    rw [he0]
    exact LogMem.of_sameLog hm ⟨rfl, rfl, rfl, rfl, rfl, rfl⟩
  have hmoves0 : Moves h X e X e0 := by
    rw [he0]
    exact .of_output rfl rfl (.of_eq rfl)
  have hcfg := hmoves0.config
  rw [← he0] at he
  obtain ⟨X', hk⟩ := startLeading_keeps (e := e0) (by rw [hcfg]; exact hs) hm0
    (by rw [he0]) (by rw [he0, hlV, ← hV]; exact hcand.voteRef.symm)
    (by rw [hlV, ← hV]; exact hcand.vote.symm) (by rw [hlV, hcfg]; exact hcand.own)
    (by rw [hldef, intoLeader_lastLogId, hlast, hcand.last])
    (by rw [hlV, hcfg, he0]; exact hwon)
    (by
      rw [hldef]
      exact intoLeader_fresh _ _ _ _ (fun _ _ hy => by cases hy) holds_none) he
  exact ⟨X', hmoves0.trans hk.moves, hk.mem, hk.role⟩

/-- What the history has to say about an answer to a vote request. -/
structure VoteRespOK (h : History NID N D) (e : Engine NID N D) (target : NID)
    (resp : VoteResponse NID) : Prop where
  granted : ∀ c, e.candidate = some c → resp.voteGranted = true → resp.vote = c.vote →
    h.granted target c.vote.leaderId ∧ ((c.grantBy target).2 = true →
      WonIn h e.config.mode c.vote.leaderId e.state.lastLogId)
  seen : resp.vote.leaderId.nodeId = e.config.id →
    resp.vote.toNonCommitted.gt e.config.mode e.state.voteRef = false

theorem stays_of_seenGreaterLog (hm : e.Mem h X) (b : Bool) :
    Stays h X e X { e with seenGreaterLog := b } :=
  .of_mem hm rfl rfl (.refl _) rfl rfl rfl rfl

/-- `Engine::handle_rejected_vote_resp`. -/
theorem handleRejectedVoteResp_keeps (hs : h.Sound e.config.mode) (hm : e.Mem h X)
    (hr : e.Role h X) {resp : VoteResponse NID}
    (hseen : resp.vote.leaderId.nodeId = e.config.id →
      resp.vote.toNonCommitted.gt e.config.mode e.state.voteRef = false) (now : Nat)
    (isPreVote : Bool) : ∃ X', Keeps h X e X' (e.handleRejectedVoteResp now resp isPreVote) := by
  unfold handleRejectedVoteResp
  have hst : ∃ b, Stays h X e X { e with seenGreaterLog := b } ∧
      (if e.state.lastLogId < resp.lastLogId then { e with seenGreaterLog := true } else e) =
        { e with seenGreaterLog := b } := by
    split
    · exact ⟨true, stays_of_seenGreaterLog hm true, rfl⟩
    · exact ⟨e.seenGreaterLog, stays_of_seenGreaterLog hm _, rfl⟩
  obtain ⟨b, hst, heq⟩ := hst
  dsimp only
  rw [heq]
  have hr1 := hr.of_stays hst
  split
  · obtain ⟨X', hk, -⟩ := updateVote_seen (e := { e with seenGreaterLog := b })
      (v := resp.vote.toNonCommitted) hs hst.mem hr1
      ⟨fun hcom => (by cases hcom), hseen⟩ now
    exact ⟨X', (Keeps.of_stays hr hst).trans hk⟩
  · exact ⟨X, .of_stays hr hst⟩

/-- `Engine::handle_vote_resp`. -/
theorem handleVoteResp_keeps (hs : h.Sound e.config.mode) (hm : e.Mem h X) (hr : e.Role h X)
    {target : NID} {resp : VoteResponse NID} (hresp : VoteRespOK h e target resp) {now : Nat}
    (he : e.handleVoteResp now target resp = some e') : ∃ X', Keeps h X e X' e' := by
  unfold handleVoteResp at he
  cases hc : e.candidate with
  | none =>
    rw [hc] at he
    obtain rfl := Option.some.inj he
    exact ⟨X, .refl hm hr⟩
  | some c =>
    rw [hc] at he
    dsimp only at he
    have hcand := hr.candidate c hc
    split at he
    · rename_i hgr
      rw [Bool.and_eq_true, decide_eq_true_eq] at hgr
      obtain ⟨hg, hwon⟩ := hresp.granted c hc hgr.1 hgr.2
      obtain ⟨hvote, hlast, hgranted⟩ := grantBy_granted hcand.granted hg
      generalize c.grantBy target = r at *
      obtain ⟨c', quorumGranted⟩ := r
      dsimp only at *
      split at he
      · rename_i hquorum
        exact establishLeader_keeps hs hm hr hc hvote hlast (hwon hquorum) he
      · obtain rfl := Option.some.inj he
        refine ⟨X, .of_output rfl rfl (.refl _), hm, ?_, hr.follower, ?_⟩
        · intro c1 hl1
          have hl : e.leading = some c1 := hl1
          have hlead := hr.leader c1 hl
          exact ⟨hlead.voteRef, hlead.own, hlead.last, hlead.streams, hlead.progress⟩
        · intro c1 hc1
          obtain rfl := Option.some.inj hc1
          refine ⟨?_, ?_, ?_, ?_, hlast.trans hcand.last, ?_⟩
          · rw [hvote]
            exact hcand.voteRef
          · rw [hvote]
            exact hcand.vote
          · rw [hvote]
            exact hcand.own
          · rw [hvote]
            exact hcand.committed
          · rw [hvote]
            exact hgranted
    · obtain rfl := Option.some.inj he
      exact handleRejectedVoteResp_keeps hs hm hr hresp.seen now false

/-- `Engine::handle_pre_vote_resp`. -/
theorem handlePreVoteResp_keeps (hs : h.Sound e.config.mode) (hm : e.Mem h X) (hr : e.Role h X)
    {target : NID} {resp : VoteResponse NID}
    (hseen : resp.vote.leaderId.nodeId = e.config.id →
      resp.vote.toNonCommitted.gt e.config.mode e.state.voteRef = false)
    (now : Nat) : ∃ X', Keeps h X e X' (e.handlePreVoteResp now target resp) := by
  unfold handlePreVoteResp
  split
  · exact ⟨X, .refl hm hr⟩
  · rename_i c hc
    split
    · generalize c.grantBy target = r
      have hst := stays_of_preCandidate hm (some r.1)
      have hr1 := hr.of_stays hst
      dsimp only
      split
      · obtain ⟨X', hk⟩ := doElect_keeps (e := { e with preCandidate := some r.1 }) hs hst.mem hr1
          now false
        exact ⟨X', (Keeps.of_stays hr hst).trans hk⟩
      · exact ⟨X, .of_stays hr hst⟩
    · exact handleRejectedVoteResp_keeps hs hm hr hseen now true

end Engine

end ZenohRaft
