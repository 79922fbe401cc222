/-
  The handlers of the engine keep its memory and its log in agreement.

  `Engine.Mem h X e` is the agreement, `Engine.Role h X e` says what a leader or a candidate is by
  its log: the log of a leader is the one the history has for it, and a candidate asks for votes
  with the end of its log. The lemmas are grouped by what a handler does to the log:

  * `Stays`: the log, the vote and the role stay; purges, commits, progress of replication.
  * following: `followingAppendEntries_mem`, `installFullSnapshot_mem`.
  * votes and elections: `updateVote_mem`, `doElect_mem`, `establishLeader_mem`.
  * leading: `leaderAppendEntries_mem`.
-/
import ZenohRaft.Log.Memory

namespace ZenohRaft

open Lib

variable {NID N D : Type} [LinearOrder NID]

/-! ## Roles -/

/-- What a leader is by its log: the data of its streams and the clocks are left out. -/
structure Leading (NID N : Type) where
  vote : LeaderId NID
  lastLogId : Option (LogId NID)
  noopLogId : LogId NID
  progress : VecProgress NID (Membership NID N) (Option (LogId NID)) Unit

/-- The part of a leader that its log determines. -/
def Leader.core (l : Leader NID N) : Leading NID N :=
  ⟨l.committedVote, l.lastLogId, l.noopLogId, l.progress.strip⟩

namespace Engine

variable {h : History NID N D} {X X' X'' : View NID N D} {e e' e'' : Engine NID N D}

/-- The leader of the engine by its log. -/
def leading (e : Engine NID N D) : Option (Leading NID N) := e.leader.map Leader.core

/-- A leader has the log that the history has for it, and what its progress says is acknowledged. -/
structure LeaderOK (h : History NID N D) (X : View NID N D) (e : Engine NID N D)
    (c : Leading NID N) : Prop where
  voteRef : e.state.voteRef = ⟨c.vote, true⟩
  own : c.vote.nodeId = e.config.id
  last : c.lastLogId = tipId (X.full h)
  streams : X.streams = some c.vote
  progress : c.progress.Each
    (fun x => ∀ y, x.progress = some y → HasId (X.full h) y ∧ h.Acked e.config.mode x.id c.vote y)
    (Holds (X.full h))

/-- A candidate asks for votes with the end of its log. -/
structure CandidateOK (h : History NID N D) (X : View NID N D) (e : Engine NID N D)
    (c : Candidate NID N) : Prop where
  voteRef : c.vote = e.state.voteRef
  vote : c.vote = X.vote
  own : c.vote.leaderId.nodeId = e.config.id
  committed : c.vote.committed = false
  last : c.lastLogId = tipId (X.full h)
  granted : ∀ x ∈ c.progress.entries, x.progress = true → h.granted x.id c.vote.leaderId

/-- The role of an engine fits its vote and its log. -/
structure Role (h : History NID N D) (X : View NID N D) (e : Engine NID N D) : Prop where
  leader : ∀ c, e.leading = some c → e.LeaderOK h X c
  follower : e.leading = none → X.streams = none ∧ e.state.isLeader e.config.id = false
  candidate : ∀ c, e.candidate = some c → e.CandidateOK h X c

/-- The log, the vote and the role stay. -/
structure Stays (h : History NID N D) (X : View NID N D) (e : Engine NID N D) (X' : View NID N D)
    (e' : Engine NID N D) : Prop where
  moves : Moves h X e X' e'
  mem : e'.Mem h X'
  full : X'.full h = X.full h
  vote : X'.vote = X.vote
  streams : X'.streams = X.streams
  voteRef : e'.state.voteRef = e.state.voteRef
  effective : e'.state.membershipState.effective = e.state.membershipState.effective
  leading : e'.leading = e.leading
  candidate : e'.candidate = e.candidate

namespace Stays

theorem refl (hm : e.Mem h X) : Stays h X e X e :=
  ⟨.refl X e, hm, rfl, rfl, rfl, rfl, rfl, rfl, rfl⟩

theorem trans (hst : Stays h X e X' e') (hst' : Stays h X' e' X'' e'') : Stays h X e X'' e'' :=
  ⟨hst.moves.trans hst'.moves, hst'.mem, hst'.full.trans hst.full, hst'.vote.trans hst.vote,
    hst'.streams.trans hst.streams, hst'.voteRef.trans hst.voteRef,
    hst'.effective.trans hst.effective, hst'.leading.trans hst.leading,
    hst'.candidate.trans hst.candidate⟩

/-- The state has changed outside of the log. -/
theorem of_mem (hm : e'.Mem h X) (hc : e'.config = e.config) (ho : e'.output = e.output)
    (hg : RaftState.Grows e.state e'.state) (hv : e'.state.voteRef = e.state.voteRef)
    (heff : e'.state.membershipState.effective = e.state.membershipState.effective)
    (hl : e'.leading = e.leading) (hr : e'.candidate = e.candidate) : Stays h X e X e' :=
  ⟨.of_output hc ho hg, hm, rfl, rfl, rfl, hv, heff, hl, hr⟩

/-- A command that leaves the view alone. -/
theorem push (c : Command NID N D) (hm : e.Mem h X)
    (hc : c.LogOK e.config.mode h e.config.id X) (hstep : X.step c = X) :
    Stays h X e X (e.pushCommand c) := by
  refine ⟨?_, hm, rfl, rfl, rfl, rfl, rfl, rfl, rfl⟩
  have hmoves := Moves.push (e := e) c hc
  rw [hstep] at hmoves
  exact hmoves

theorem config (hst : Stays h X e X' e') : e'.config = e.config := hst.moves.config

end Stays

theorem Role.of_stays (hr : e.Role h X) (hst : Stays h X e X' e') : e'.Role h X' := by
  refine ⟨?_, ?_, ?_⟩
  · intro c hl
    rw [hst.leading] at hl
    have hc := hr.leader c hl
    constructor
    · rw [hst.voteRef]
      exact hc.voteRef
    · rw [hst.config]
      exact hc.own
    · rw [hst.full]
      exact hc.last
    · rw [hst.streams]
      exact hc.streams
    · rw [hst.full, hst.config]
      exact hc.progress
  · intro hl
    rw [hst.leading] at hl
    rw [hst.streams, hst.config]
    obtain ⟨hstreams, hnot⟩ := hr.follower hl
    refine ⟨hstreams, ?_⟩
    unfold RaftState.isLeader RaftState.isLeading at hnot ⊢
    rw [hst.effective, hst.voteRef]
    exact hnot
  · intro c hcand
    rw [hst.candidate] at hcand
    have hc := hr.candidate c hcand
    constructor
    · rw [hst.voteRef]
      exact hc.voteRef
    · rw [hst.vote]
      exact hc.vote
    · rw [hst.config]
      exact hc.own
    · exact hc.committed
    · rw [hst.full]
      exact hc.last
    · exact hc.granted

/-! ## Purges -/

theorem purgeLog_stays (hs : h.Sound e.config.mode) (hm : e.Mem h X) :
    ∃ X', Stays h X e X' e.purgeLog := by
  unfold purgeLog
  cases hupto : e.state.purgeUpto with
  | none => exact ⟨X, .refl hm⟩
  | some upto =>
    have hx := hm.purgeUpto upto hupto
    have hpurged : e.state.logIds.purged = X.purged := by
      rw [hm.logIds]
    dsimp only
    split
    · exact ⟨X, .refl hm⟩
    · rename_i hnot
      rw [hpurged, hs.le_iff_nextIndex hm.ok.log (holds_some.2 hx) (LogMem.holds_purged hm.ok),
        nextIndex_some] at hnot
      have hlt : nextIndex X.purged ≤ upto.index := by omega
      refine ⟨X.step (.purgeLog upto), .push_of_output (.purgeLog upto) rfl rfl
        (.of_eq rfl) ⟨⟨hlt, Or.inl hx⟩, hm.com_purgeUpto hs hupto⟩,
        LogMem.purge hs hm hupto hlt, View.full_purge hm.ok hlt hx, rfl, rfl, rfl, rfl, rfl, rfl⟩

theorem tryPurgeLog_stays (hs : h.Sound e.config.mode) (hm : e.Mem h X) :
    ∃ X', Stays h X e X' e.tryPurgeLog := by
  unfold tryPurgeLog
  split
  · unfold tryPurgeLogLeader
    split
    · exact ⟨X, .refl hm⟩
    split
    · exact ⟨X, .refl hm⟩
    split
    · exact ⟨X, .refl hm⟩
    · exact purgeLog_stays hs hm
  · exact purgeLog_stays hs hm

theorem updatePurgeUpto_stays (hm : e.Mem h X) {upto : LogId NID} (hx : HasId (X.full h) upto)
    (hle : nextIndex X.purged ≤ upto.index + 1)
    (hsnap : upto.index + 1 ≤ nextIndex e.state.snapshotMeta.lastLogId) :
    Stays h X e X (e.updatePurgeUpto upto) := by
  refine .of_mem ?_ rfl rfl (.of_eq rfl) rfl rfl rfl rfl
  exact ⟨hm.vote, hm.logIds, hm.ok, hm.accepted, hm.committed, hm.com, hm.cluster, hm.snapshot,
    hm.snapshot_le, holds_some.2 hx, hsnap, hle, hm.membership, hm.membership_com, hm.building⟩

theorem calcPurgeUpto_spec (hm : e.Mem h X) {upto : LogId NID}
    (hupto : e.calcPurgeUpto = some upto) : HasId (X.full h) upto ∧
      nextIndex X.purged ≤ upto.index + 1 ∧
      upto.index + 1 ≤ nextIndex e.state.snapshotMeta.lastLogId := by
  have hpurged : e.state.logIds.purged = X.purged := by
    rw [hm.logIds]
  unfold calcPurgeUpto at hupto
  dsimp only at hupto
  split at hupto
  · cases hupto
  split at hupto
  · cases hupto
  · rename_i hbatch hzero
    rw [hpurged] at hbatch
    obtain ⟨hidx, hx, -⟩ := hm.getLogId_eq_some.1 hupto
    exact ⟨hx, by omega, by omega⟩

theorem schedulePolicyBasedPurge_stays (hm : e.Mem h X) :
    Stays h X e X e.schedulePolicyBasedPurge := by
  unfold schedulePolicyBasedPurge
  cases hupto : e.calcPurgeUpto with
  | none => exact .refl hm
  | some upto =>
    obtain ⟨hx, hle, hsnap⟩ := calcPurgeUpto_spec hm hupto
    exact updatePurgeUpto_stays hm hx hle hsnap

/-- A snapshot that was built ends at a log id that was applied. -/
structure BuiltOK (h : History NID N D) (X : View NID N D) (s : RaftState NID N)
    (last : Option (LogId NID)) : Prop where
  holds : Holds (X.full h) last
  le_committed : nextIndex last ≤ nextIndex s.localCommitted

/-- The state when a snapshot is built: the newer one of this and the last one counts. -/
theorem updateSnapshot_stays (hs : h.Sound e.config.mode) (hm : e.Mem h X)
    {m : SnapshotMeta NID N} (hb : BuiltOK h X e.state m.lastLogId) {p : IOProgress (LogId NID)}
    (hp : p = ⟨max e.state.ioState.snapshot.accepted m.lastLogId,
      max e.state.ioState.snapshot.submitted m.lastLogId,
      max e.state.ioState.snapshot.flushed m.lastLogId⟩) :
    Stays h X e X ((e.snapshotBuilt p).updateSnapshot m).1 := by
  have hbuild : p.accepted ≤ e.state.localCommitted := by
    rw [hp]
    exact max_le hm.building
      ((hs.le_iff_nextIndex hm.ok.log hb.holds hm.committed).2 hb.le_committed)
  unfold updateSnapshot
  split
  · refine .of_mem ?_ rfl rfl ⟨le_rfl⟩ rfl rfl rfl rfl
    exact ⟨hm.vote, hm.logIds, hm.ok, hm.accepted, hm.committed, hm.com, hm.cluster, hm.snapshot,
      hm.snapshot_le, hm.purgeUpto, hm.purgeUpto_le, hm.purged_le, hm.membership,
      hm.membership_com, hbuild⟩
  · rename_i hnot
    have hle := (hs.le_iff_nextIndex hm.ok.log hm.snapshot hb.holds).1 (not_le.1 hnot).le
    refine .of_mem ?_ rfl rfl ⟨le_rfl⟩ rfl rfl rfl rfl
    exact ⟨hm.vote, hm.logIds, hm.ok, hm.accepted, hm.committed, hm.com, hm.cluster,
      hb.holds, hb.le_committed, hm.purgeUpto, hm.purgeUpto_le.trans hle, hm.purged_le,
      hm.membership, hm.membership_com, hbuild⟩

theorem onBuildingSnapshotDone_stays (hs : h.Sound e.config.mode) (hm : e.Mem h X)
    {m : SnapshotMeta NID N} (hb : BuiltOK h X e.state m.lastLogId) :
    ∃ X', Stays h X e X' (e.onBuildingSnapshotDone m) := by
  obtain ⟨p, hp, heq⟩ := onBuildingSnapshotDone_eq e m
  have hst := updateSnapshot_stays hs hm hb hp
  rw [heq]
  generalize (e.snapshotBuilt p).updateSnapshot m = r at *
  split
  · exact ⟨X, hst⟩
  · have hst' := schedulePolicyBasedPurge_stays hst.mem
    obtain ⟨X', hst''⟩ := tryPurgeLog_stays (by rw [hst'.config, hst.config]; exact hs) hst'.mem
    exact ⟨X', hst.trans (hst'.trans hst'')⟩

theorem triggerPurgeLog_stays (hs : h.Sound e.config.mode) (hm : e.Mem h X) {index : Nat}
    (he : e.triggerPurgeLog index = some e') : ∃ X', Stays h X e X' e' := by
  unfold triggerPurgeLog at he
  split at he
  · obtain rfl := Option.some.inj he
    exact ⟨X, .refl hm⟩
  · rename_i last hlast
    split at he
    · obtain rfl := Option.some.inj he
      exact ⟨X, .refl hm⟩
    · rename_i hupto
      split at he
      · cases he
      · rename_i logId hid
        obtain rfl := Option.some.inj he
        obtain ⟨hidx, hx, hle⟩ := hm.getLogId_eq_some.1 hid
        have hst := updatePurgeUpto_stays hm hx (by omega) (by
          rw [hlast]
          show _ ≤ last.index + 1
          omega)
        obtain ⟨X', hst'⟩ := tryPurgeLog_stays (by rw [hst.config]; exact hs) hst.mem
        exact ⟨X', hst.trans hst'⟩

theorem triggerSnapshot_stays (hm : e.Mem h X) : Stays h X e X e.triggerSnapshot := by
  unfold triggerSnapshot
  split
  · exact .refl hm
  · have hm1 : Mem h X { e with state := { e.state with
        ioState := { e.state.ioState with buildingSnapshot := true } } } :=
      ⟨hm.vote, hm.logIds, hm.ok, hm.accepted, hm.committed, hm.com, hm.cluster, hm.snapshot,
        hm.snapshot_le, hm.purgeUpto, hm.purgeUpto_le, hm.purged_le, hm.membership,
        hm.membership_com, hm.building⟩
    have hst1 : Stays h X e X _ := .of_mem hm1 rfl rfl ⟨le_rfl⟩ rfl rfl rfl rfl
    exact hst1.trans (.push (.stateMachine .buildSnapshot) hm1 trivial rfl)

/-! ## Commits -/

theorem updateCommitted_effective (mode : LeaderIdMode) (s : RaftState NID N) (io : LogIOId NID) :
    (s.updateCommitted mode io).membershipState.effective = s.membershipState.effective := by
  unfold RaftState.updateCommitted RaftState.updateLocalCommitted
  dsimp only
  split
  · rfl
  split
  · show (MembershipState.commit _ _).effective = _
    unfold MembershipState.commit
    split <;> rfl
  · rfl

theorem updateLocalCommitted_voteRef (s : RaftState NID N) (c : Option (LogId NID)) :
    (s.updateLocalCommitted c).voteRef = s.voteRef := by
  unfold RaftState.updateLocalCommitted
  split
  · rfl
  split <;> rfl

theorem updateLocalCommitted_effective (s : RaftState NID N) (c : Option (LogId NID)) :
    (s.updateLocalCommitted c).membershipState.effective = s.membershipState.effective := by
  unfold RaftState.updateLocalCommitted
  split
  · rfl
  split
  · show (MembershipState.commit _ _).effective = _
    unfold MembershipState.commit
    split <;> rfl
  · rfl

/-- The commit update that follows every request of a leader. -/
theorem updateCommitted_stays (hs : h.Sound e.config.mode) (hm : e.Mem h X) (io : LogIOId NID)
    (hrank : Vote.rank e.config.mode ⟨io.committedVote, true⟩ ≤ X.vote.rank e.config.mode)
    (hcom : ∀ c, io.logId = some c → h.leader io.committedVote ∧
      h.com (io.committedVote.toCommitted e.config.mode) c) :
    Stays h X e X { e with state := e.state.updateCommitted e.config.mode io } :=
  .of_mem (LogMem.updateCommitted hs hm hrank hcom) rfl rfl (.updateCommitted _ _ _)
    (updateCommitted_voteRef _ _ _) (updateCommitted_effective _ _ _) rfl rfl

/-- A leader commits what a quorum has, if it is of its own epoch. -/
theorem tryCommitQuorumAccepted_stays (hs : h.Sound e.config.mode) (hm : e.Mem h X)
    {V : LeaderId NID} (hv : e.state.voteRef = ⟨V, true⟩) (hXV : X.vote = ⟨V, true⟩)
    (hstreams : X.streams = some V) {granted : Option (LogId NID)}
    (hgr : ∀ c, granted = some c → c.leaderId = V.toCommitted e.config.mode →
      HasId (X.full h) c ∧ h.com (V.toCommitted e.config.mode) c) :
    ∃ X', Stays h X e X' (e.tryCommitQuorumAccepted granted) := by
  unfold tryCommitQuorumAccepted
  dsimp only
  split
  · exact ⟨X, .refl hm⟩
  · rename_i hown
    have hV : h.leader V := (hm.ok.streams V hstreams).1
    have hgr' : ∀ c, granted = some c → HasId (X.full h) c ∧
        h.com (V.toCommitted e.config.mode) c := by
      intro c hc
      refine hgr c hc ?_
      by_contra hne
      rw [hc, hv] at hown
      exact hown (decide_eq_true fun heq => hne heq.symm)
    obtain ⟨st, hst⟩ : ∃ st, st = { e.state with ioState :=
        (e.state.ioState.tryUpdateClusterCommitted e.config.mode
          ⟨e.state.voteRef.leaderId, granted⟩) }.updateLocalCommitted granted := ⟨_, rfl⟩
    rw [← hst]
    have hm1 : Mem h X { e with state := st } := by
      have hm0 := LogMem.tryUpdateClusterCommitted hm ⟨e.state.voteRef.leaderId, granted⟩
        (by rw [hXV, hv]) (by
          intro c hc
          rw [hv]
          exact ⟨hV, (hgr' c hc).2⟩)
      rw [hst]
      refine LogMem.updateLocalCommitted hs hm0 ?_
      intro c hc
      refine ⟨(hgr' c hc).1, V, hV, (hgr' c hc).2, ?_⟩
      rw [hXV]
    have hg : RaftState.Grows e.state st := by
      rw [hst]
      exact RaftState.Grows.trans (.tryUpdateClusterCommitted _ _ _) (.updateLocalCommitted _ _)
    have hst1 : Stays h X e X { e with state := st } :=
      .of_mem hm1 rfl rfl hg (by rw [hst]; exact updateLocalCommitted_voteRef _ _)
        (by rw [hst]; exact updateLocalCommitted_effective _ _) rfl rfl
    split
    · have hok : (Command.replicateCommitted st.clusterCommitted : Command NID N D).LogOK
          e.config.mode h e.config.id X := by
        refine ⟨V, hXV, hstreams, ?_⟩
        intro x hx
        obtain ⟨io, hio, hx⟩ := Option.bind_eq_some_iff.1 hx
        obtain ⟨hrank, hcom⟩ := hm1.cluster io hio
        obtain ⟨hW, hcomW⟩ := hcom x hx
        rw [hXV] at hrank
        exact hs.com_leader ⟨io.committedVote, hW, hcomW, hrank⟩ hV
      refine ⟨X.step (.replicateCommitted st.clusterCommitted), hst1.trans ?_⟩
      have hm2 : Mem h (X.step (.replicateCommitted st.clusterCommitted)) { e with state := st } :=
        LogMem.of_view hm1 (hm.ok.step hs e.config.id hok) rfl rfl rfl rfl rfl
      exact ⟨.push _ hok, hm2, rfl, rfl, rfl, rfl, rfl, rfl, rfl⟩
    · exact ⟨X, hst1⟩

/-! ## Votes -/

/-- A vote that the node may adopt. -/
structure VoteOK (h : History NID N D) (X : View NID N D) (e : Engine NID N D) (v : Vote NID) :
    Prop where
  led : v.committed = true → h.leader v.leaderId
  own : v.committed = true → v.leaderId.nodeId = e.config.id → e.state.voteRef = X.vote ∧
    X.full h <+: h.log (v.leaderId.toCommitted e.config.mode)

/-- A vote above the one that a node holds is above the one that it has accepted. -/
theorem VoteOK.rank_lt (hs : h.Sound e.config.mode) (hm : e.Mem h X) {v : Vote NID}
    (hv : VoteOK h X e v) (hgt : v.gt e.config.mode e.state.voteRef = true) :
    X.vote.rank e.config.mode < v.rank e.config.mode := by
  have hgt := Vote.gt_iff.1 hgt
  rcases hm.vote with hheld | ⟨hheld, hid⟩
  · rw [hheld] at hgt
    exact hgt
  · -- the node has gone back to its vote before it was granted
    by_cases hc : X.vote.committed = true
    · rw [hheld, Vote.rank_lt_iff] at hgt
      rcases hgt with hlt | ⟨heq, hlt⟩
      · exact Vote.rank_lt_iff.2 (Or.inl hlt)
      · have hvc : v.committed = true := by
          rcases hb : v.committed with _ | _
          · rw [hb] at hlt
            exact absurd hlt (lt_irrefl _)
          · rfl
        have hsame := hs.unique _ _ (hm.ok.led hc) (hv.led hvc) heq
        have hown := (hv.own hvc (hsame ▸ hid)).1
        rw [hheld] at hown
        have := congrArg Vote.committed hown
        rw [hc] at this
        cases this
    · rw [hheld, Vote.toNonCommitted_eq (Bool.eq_false_iff.2 hc)] at hgt
      exact hgt

theorem accepted_new {mode : LeaderIdMode} {id : NID} {s s' : RaftState NID N}
    (hm : LogMem mode h id X s) {v : Vote NID} (hlt : X.vote.rank mode < v.rank mode)
    (hacc : s'.acceptedLogIo = s.acceptedLogIo) :
    (s'.acceptLogIo mode (.new v)).acceptedLogIo = some (.new v) := by
  obtain ⟨a, ha, hav, -⟩ := hm.accepted
  have hex : IOProgress.exceeds (IOId.gt mode) (.new v) s'.acceptedLogIo = true := by
    rw [hacc, ha]
    show IOId.gt mode (.new v) a = true
    rw [IOId.gt_iff, IOId.toVote_new, hav]
    exact Or.inl hlt
  rw [RaftState.acceptLogIo_eq]
  show RaftState.nextAccepted mode s' (.new v) = _
  unfold RaftState.nextAccepted
  rw [if_pos hex]

/-- The first part of `update_vote`: a greater vote is saved. -/
structure Adopts (h : History NID N D) (X : View NID N D) (e : Engine NID N D) (v : Vote NID)
    (X' : View NID N D) (e' : Engine NID N D) : Prop where
  moves : Moves h X e X' e'
  mem : e'.Mem h X'
  full : X'.full h = X.full h
  streams : X'.streams = X.streams
  voteRef : e'.state.voteRef = v
  vote : v.gt e.config.mode e.state.voteRef = true ∧ X'.vote = v ∨
    v = e.state.voteRef ∧ X'.vote = X.vote
  leader : e'.leader = e.leader
  candidate : e'.candidate = e.candidate

theorem adoptVote_adopts (hs : h.Sound e.config.mode) (hm : e.Mem h X) {v : Vote NID}
    (hv : VoteOK h X e v) (hge : v.ge e.config.mode e.state.voteRef = true) (now : Nat) :
    ∃ X', Adopts h X e v X' (e.adoptVote now v) := by
  unfold adoptVote
  dsimp only
  by_cases hgt : v.gt e.config.mode e.state.voteRef = true
  · rw [if_pos hgt]
    have hlt := hv.rank_lt hs hm hgt
    have hmem : LogMem e.config.mode h e.config.id (X.step (.saveVote v))
        (RaftState.acceptLogIo e.config.mode { e.state with
          vote := e.state.vote.update now (if v.committed then e.config.leaderLease else 0) v }
          (.new v)) := LogMem.saveVote hm hlt.le hv.led
      (by rw [acceptLogIo_voteRef]; rfl) (by rw [RaftState.acceptLogIo_eq])
      (by rw [RaftState.acceptLogIo_eq]) (by rw [RaftState.acceptLogIo_eq])
      (by rw [RaftState.acceptLogIo_eq]) (by rw [RaftState.acceptLogIo_eq]; rfl)
      (by rw [RaftState.acceptLogIo_eq]) (by rw [RaftState.acceptLogIo_eq])
      (accepted_new hm hlt rfl)
    have hg : RaftState.Grows e.state (RaftState.acceptLogIo e.config.mode { e.state with
        vote := e.state.vote.update now (if v.committed then e.config.leaderLease else 0) v }
        (.new v)) := by
      refine RaftState.Grows.trans ?_ (.acceptLogIo _ _ _)
      exact .of_eq rfl
    refine ⟨X.step (.saveVote v), .push_of_output (.saveVote v) rfl rfl hg
      ⟨hlt, hv.led, fun hc hid => (hv.own hc hid).2⟩, hmem, rfl, rfl, ?_, Or.inl ⟨hgt, rfl⟩,
      rfl, rfl⟩
    show (RaftState.acceptLogIo _ _ _).voteRef = v
    rw [acceptLogIo_voteRef]
    rfl
  · rw [if_neg hgt]
    have heq : v = e.state.voteRef := by
      rcases Vote.ge_iff.1 hge with heq | hlt
      · exact heq
      · exact absurd (Vote.gt_iff.2 hlt) hgt
    refine ⟨X, .of_output rfl rfl (.of_eq rfl), LogMem.of_sameLog hm ⟨rfl, rfl, rfl, rfl, rfl, rfl⟩,
      rfl, rfl, heq.symm, Or.inr ⟨heq, rfl⟩, rfl, rfl⟩

/-- A handler after which the memory and the role of the engine agree with the view `X'`. -/
structure Keeps (h : History NID N D) (X : View NID N D) (e : Engine NID N D) (X' : View NID N D)
    (e' : Engine NID N D) : Prop where
  moves : Moves h X e X' e'
  mem : e'.Mem h X'
  role : e'.Role h X'

namespace Keeps

theorem refl (hm : e.Mem h X) (hr : e.Role h X) : Keeps h X e X e := ⟨.refl X e, hm, hr⟩

theorem trans (hk : Keeps h X e X' e') (hk' : Keeps h X' e' X'' e'') : Keeps h X e X'' e'' :=
  ⟨hk.moves.trans hk'.moves, hk'.mem, hk'.role⟩

theorem of_stays (hr : e.Role h X) (hst : Stays h X e X' e') : Keeps h X e X' e' :=
  ⟨hst.moves, hst.mem, hr.of_stays hst⟩

theorem config (hk : Keeps h X e X' e') : e'.config = e.config := hk.moves.config

end Keeps

/-- Stepping down closes the streams. -/
theorem becomeFollowing_mem (hs : h.Sound e.config.mode) (hm : e.Mem h X)
    (hstreams : e.leading = none → X.streams = none) :
    ∃ X', Moves h X e X' e.becomeFollowing ∧ e.becomeFollowing.Mem h X' ∧
      X'.full h = X.full h ∧ X'.vote = X.vote ∧ X'.streams = none := by
  unfold becomeFollowing
  dsimp only
  by_cases hhad : (e.leader.isSome || e.candidate.isSome || e.preCandidate.isSome) = true
  · rw [if_pos hhad]
    have hok : (Command.closeReplicationStreams : Command NID N D).LogOK e.config.mode h
      e.config.id X := trivial
    refine ⟨X.step .closeReplicationStreams, ⟨rfl, .refl _, rfl, [.closeReplicationStreams],
      ⟨[.failPendingReads], by simp, rfl⟩, ⟨hok, trivial⟩, rfl⟩, ?_, rfl, rfl, rfl⟩
    exact LogMem.of_view hm (hm.ok.step hs e.config.id hok) rfl rfl rfl rfl rfl
  · rw [if_neg hhad]
    have hnone : e.leading = none := by
      unfold leading
      cases hl : e.leader with
      | none => rfl
      | some l => simp [hl] at hhad
    exact ⟨X, ⟨rfl, .refl _, rfl, [], ⟨[.failPendingReads], by simp, by simp [prependCommand]⟩,
      trivial, rfl⟩, hm, rfl, rfl, hstreams hnone⟩

omit [LinearOrder NID] in
theorem becomeFollowing_fields (e : Engine NID N D) : e.becomeFollowing.state = e.state ∧
    e.becomeFollowing.leading = none ∧ e.becomeFollowing.candidate = none ∧
    e.becomeFollowing.config = e.config := by
  unfold becomeFollowing
  dsimp only
  split <;> exact ⟨rfl, rfl, rfl, rfl⟩

theorem role_of_following (hleading : e.leading = none) (hcandidate : e.candidate = none)
    (hstreams : X.streams = none) (hnot : e.state.isLeader e.config.id = false) : e.Role h X := by
  refine ⟨?_, fun _ => ⟨hstreams, hnot⟩, ?_⟩
  · intro c hl
    rw [hleading] at hl
    cases hl
  · intro c hc
    rw [hcandidate] at hc
    cases hc

theorem becomeFollowing_role (hstreams : X'.streams = none)
    (hnot : e.state.isLeader e.config.id = false) : e.becomeFollowing.Role h X' := by
  obtain ⟨hstate, hleading, hcandidate, hconfig⟩ := becomeFollowing_fields e
  refine role_of_following hleading hcandidate hstreams ?_
  rw [hstate, hconfig]
  exact hnot

/-- `update_internal_server_state` of an engine in order: nothing, or stepping down. -/
theorem updateInternalServerState_keeps (hs : h.Sound e.config.mode) (hm : e.Mem h X)
    (hr : e.Role h X) (now : Nat) :
    ∃ X', Keeps h X e X' (e.updateInternalServerState now) ∧ X'.full h = X.full h ∧
      X'.vote = X.vote ∧ (e.updateInternalServerState now).state = e.state := by
  unfold updateInternalServerState
  by_cases hlead : e.state.isLeader e.config.id = true
  · rw [if_pos hlead]
    cases hl : e.leading with
    | none =>
      rw [(hr.follower hl).2] at hlead
      cases hlead
    | some c =>
      have hv := (hr.leader c hl).voteRef
      have hV : e.leaderVote = some e.state.voteRef.leaderId := by
        rw [hv]
        unfold leading at hl
        obtain ⟨l, hl', rfl⟩ := Option.map_eq_some_iff.1 hl
        exact leaderVote_eq hl'
      rw [becomeLeader_of_leading hV]
      exact ⟨X, .refl hm hr, rfl, rfl, rfl⟩
  · rw [if_neg hlead]
    split
    · exact ⟨X, .refl hm hr, rfl, rfl, rfl⟩
    · obtain ⟨X', hmoves, hmem, hfull, hvote, hstreams⟩ :=
        becomeFollowing_mem hs hm fun hl => (hr.follower hl).1
      exact ⟨X', ⟨hmoves, hmem, becomeFollowing_role hstreams (Bool.eq_false_iff.2 hlead)⟩,
        hfull, hvote, (becomeFollowing_fields e).1⟩

/-- The vote of another node is taken over, or refused. -/
theorem updateVote_keeps (hs : h.Sound e.config.mode) (hm : e.Mem h X) (hr : e.Role h X)
    {v : Vote NID} (hv : v.committed = true → h.leader v.leaderId)
    (hother : v.leaderId.nodeId ≠ e.config.id) (now : Nat) :
    ∃ X', Keeps h X e X' (e.updateVote now v).1 ∧ X'.full h = X.full h ∧
      ((e.updateVote now v).2 = true → (e.updateVote now v).1.state.voteRef = v ∧ X'.vote = v ∧
        (e.updateVote now v).1.leading = none ∧ (e.updateVote now v).1.candidate = none) ∧
      ((e.updateVote now v).2 = false → (e.updateVote now v).1 = e ∧ X' = X ∧
        v.ge e.config.mode e.state.voteRef = false) := by
  unfold updateVote
  by_cases hge : v.ge e.config.mode e.state.voteRef = true
  · rw [if_pos hge]
    obtain ⟨X1, ha⟩ := adoptVote_adopts hs hm
      ⟨hv, fun _ hid => absurd hid hother⟩ hge now
    have hcfg := ha.moves.config
    have hvr := ha.voteRef
    obtain ⟨e1, he1⟩ : ∃ e1, e1 = e.adoptVote now v := ⟨_, rfl⟩
    rw [← he1] at ha hcfg hvr ⊢
    have hother1 : e1.state.voteRef.leaderId.nodeId ≠ e1.config.id := by
      rw [hvr, hcfg]
      exact hother
    have hnot := isLeading_false e1.state e1.config.id hother1
    have hstep := updateInternalServerState_of_other hother1 now
    have hlead : e1.leading = e.leading := by
      unfold leading
      rw [ha.leader]
    obtain ⟨X', hmoves, hmem, hfull, hvote, hstreams⟩ :=
      becomeFollowing_mem (by rw [hcfg]; exact hs) ha.mem fun hl => by
        rw [ha.streams]
        exact (hr.follower (hlead ▸ hl)).1
    obtain ⟨hstate, hleading, hcandidate, -⟩ := becomeFollowing_fields e1
    have hXv : X1.vote = v := by
      rcases ha.vote with ⟨-, hX⟩ | ⟨hveq, hX⟩
      · exact hX
      · rw [hX]
        rcases hm.vote with hheld | ⟨hheld, hid⟩
        · rw [← hheld, hveq]
        · rw [hveq, hheld] at hother
          exact absurd hid hother
    refine ⟨X', ⟨ha.moves.trans (hstep ▸ hmoves), hstep ▸ hmem, ?_⟩, hfull.trans ha.full, ?_, nofun⟩
    · rw [hstep]
      exact becomeFollowing_role hstreams hnot.2
    · intro _
      rw [hstep, hstate]
      exact ⟨hvr, hvote.trans hXv, hleading, hcandidate⟩
  · rw [if_neg hge]
    exact ⟨X, .refl hm hr, rfl, nofun, fun _ => ⟨rfl, rfl, Bool.eq_false_iff.2 hge⟩⟩

end Engine

end ZenohRaft
