/-
  What the handlers of the engine leave alone.

  `Engine.KeepsVote e e'`: from `e` to `e'` the vote, the leadership, the candidate and the
  responds that wait do not change, and the commands pushed neither save a vote nor ask for one
  nor answer anyone. All handlers of logs, snapshots and replication are of this kind; what is
  left for the argument about elections are the handlers of votes.
-/
import ZenohRaft.Engine

namespace ZenohRaft

open Lib

variable {NID N D : Type} [LinearOrder NID]

/-- Commands that have nothing to do with votes, pushed at the node `id` while `lead` leads. Streams
    are built for the leader, and to other nodes. -/
def Command.IsPlain (id : NID) (lead : Option (LeaderId NID)) : Command NID N D → Prop
  | .saveVote _ => False
  | .respond _ _ => False
  | .sendVote _ _ => False
  | .rebuildReplicationStreams leaderVote targets _ =>
    lead = some leaderVote ∧ ∀ t ∈ targets, t.1 ≠ id
  | _ => True

namespace Engine

/-- The leader id under which the node leads. -/
def leaderVote (e : Engine NID N D) : Option (LeaderId NID) := e.leader.map (·.committedVote)

/-- A handler that has nothing to do with votes. -/
structure KeepsVote (e e' : Engine NID N D) : Prop where
  config : e'.config = e.config
  vote : e'.state.voteRef = e.state.voteRef
  leader : e'.leaderVote = e.leaderVote
  candidate : e'.candidate = e.candidate
  preCandidate : e'.preCandidate = e.preCandidate
  pending : e'.output.pendingResponds = e.output.pendingResponds
  commands : ∃ cs, e'.output.commands = e.output.commands ++ cs ∧
    ∀ c ∈ cs, c.IsPlain e.config.id e.leaderVote

variable {e e' e'' : Engine NID N D} {l : Leader NID N}

omit [LinearOrder NID] in
theorem leaderVote_eq (h : e.leader = some l) : e.leaderVote = some l.committedVote := by
  simp [leaderVote, h]

namespace KeepsVote

section

omit [LinearOrder NID]

theorem refl (e : Engine NID N D) : KeepsVote e e :=
  ⟨rfl, rfl, rfl, rfl, rfl, rfl, [], by simp, by simp⟩

theorem trans (h : KeepsVote e e') (h' : KeepsVote e' e'') : KeepsVote e e'' := by
  obtain ⟨cs, hcs, hplain⟩ := h.commands
  obtain ⟨cs', hcs', hplain'⟩ := h'.commands
  refine ⟨h'.config.trans h.config, h'.vote.trans h.vote, h'.leader.trans h.leader,
    h'.candidate.trans h.candidate, h'.preCandidate.trans h.preCandidate,
    h'.pending.trans h.pending, cs ++ cs', ?_, ?_⟩
  · rw [hcs', hcs, List.append_assoc]
  · intro c hc
    rcases List.mem_append.1 hc with hc | hc
    · exact hplain c hc
    · rw [← h.leader, ← h.config]
      exact hplain' c hc

/-- A change of the state other than of the vote. -/
theorem ofState (s : RaftState NID N) (h : s.voteRef = e.state.voteRef) :
    KeepsVote e { e with state := s } :=
  ⟨rfl, h, rfl, rfl, rfl, rfl, [], by simp, by simp⟩

/-- A change of the leader other than of its vote. -/
theorem ofLeader (hl : e.leader = some l) (l' : Leader NID N)
    (h : l'.committedVote = l.committedVote) : KeepsVote e { e with leader := some l' } :=
  ⟨rfl, rfl, by simp [leaderVote, hl, h], rfl, rfl, rfl, [], by simp, by simp⟩

theorem push {c : Command NID N D} (h : c.IsPlain e.config.id e.leaderVote) :
    KeepsVote e (e.pushCommand c) :=
  ⟨rfl, rfl, rfl, rfl, rfl, rfl, [c], rfl, by simpa using h⟩

/-- A change of the state together with a command. -/
theorem ofStatePush (s : RaftState NID N) (h : s.voteRef = e.state.voteRef)
    {c : Command NID N D} (hc : c.IsPlain e.config.id e.leaderVote) :
    KeepsVote e (({ e with state := s } : Engine NID N D).pushCommand c) :=
  (ofState s h).trans (push hc)

theorem leader_some (h : KeepsVote e e') (hl : e.leader = some l) :
    ∃ l', e'.leader = some l' ∧ l'.committedVote = l.committedVote := by
  have := h.leader
  rw [leaderVote_eq hl, leaderVote, Option.map_eq_some_iff] at this
  exact this

end

end KeepsVote

/-! ## Logs and snapshots -/

theorem acceptLogIo_voteRef (mode : LeaderIdMode) (st : RaftState NID N) (io : IOId NID) :
    (st.acceptLogIo mode io).voteRef = st.voteRef := by
  unfold RaftState.acceptLogIo
  split <;> rfl

theorem acceptLogIo_keepsVote (e : Engine NID N D) (io : IOId NID) :
    KeepsVote e (e.acceptLogIo io) :=
  .ofState _ (acceptLogIo_voteRef _ _ _)

theorem purgeLog_keepsVote (e : Engine NID N D) : KeepsVote e e.purgeLog := by
  unfold purgeLog
  split
  · exact .refl _
  split
  · exact .refl _
  · exact .ofStatePush _ (by rfl) (by trivial)

theorem tryPurgeLog_keepsVote (e : Engine NID N D) : KeepsVote e e.tryPurgeLog := by
  unfold tryPurgeLog
  split
  · unfold tryPurgeLogLeader
    repeat' split
    · exact .refl _
    · exact .refl _
    · exact .refl _
    · exact purgeLog_keepsVote _
  · exact purgeLog_keepsVote _

theorem updateSnapshot_keepsVote (e : Engine NID N D) (m : SnapshotMeta NID N) :
    KeepsVote e (e.updateSnapshot m).1 := by
  unfold updateSnapshot
  split
  · exact .refl _
  · exact .ofState _ rfl

omit [LinearOrder NID] in
theorem triggerSnapshot_keepsVote (e : Engine NID N D) : KeepsVote e e.triggerSnapshot := by
  unfold triggerSnapshot
  split
  · exact .refl _
  · exact .ofStatePush _ (by rfl) (by trivial)

omit [LinearOrder NID] in
theorem schedulePolicyBasedPurge_keepsVote (e : Engine NID N D) :
    KeepsVote e e.schedulePolicyBasedPurge := by
  unfold schedulePolicyBasedPurge
  split
  · exact .ofState _ rfl
  · exact .refl _

theorem onBuildingSnapshotDone_keepsVote (e : Engine NID N D) (m : SnapshotMeta NID N) :
    KeepsVote e (e.onBuildingSnapshotDone m) := by
  have key : ∀ s : RaftState NID N, s.voteRef = e.state.voteRef →
      KeepsVote e (if !(({ e with state := s } : Engine NID N D).updateSnapshot m).2 then
        (({ e with state := s } : Engine NID N D).updateSnapshot m).1
      else (({ e with state := s } : Engine NID N D).updateSnapshot
        m).1.schedulePolicyBasedPurge.tryPurgeLog) := by
    intro s hs
    have hup := (KeepsVote.ofState s hs).trans (updateSnapshot_keepsVote { e with state := s } m)
    split
    · exact hup
    · exact hup.trans ((schedulePolicyBasedPurge_keepsVote _).trans (tryPurgeLog_keepsVote _))
  exact key _ (by rfl)

theorem triggerPurgeLog_keepsVote {index : Nat} (h : e.triggerPurgeLog index = some e') :
    KeepsVote e e' := by
  unfold triggerPurgeLog at h
  repeat' split at h
  · obtain rfl := Option.some.inj h
    exact .refl _
  · obtain rfl := Option.some.inj h
    exact .refl _
  · cases h
  · rename_i logId _
    obtain rfl := Option.some.inj h
    exact .trans (.ofState { e.state with purgeUpto := some logId } rfl) (tryPurgeLog_keepsVote _)

omit [LinearOrder NID] in
theorem truncateLogs_keepsVote (e : Engine NID N D) (since : Nat) :
    KeepsVote e (e.truncateLogs since) := by
  unfold truncateLogs
  split
  · exact .refl _
  · exact .ofStatePush _ (by rfl) (by trivial)

omit [LinearOrder NID] in
theorem doAppendEntries_keepsVote (e : Engine NID N D) (entries : List (Entry NID N D)) :
    KeepsVote e (e.doAppendEntries entries) :=
  .ofStatePush _ (by rfl) (by trivial)

theorem followingAppendEntries_keepsVote (e : Engine NID N D) (prev : Option (LogId NID))
    (entries : List (Entry NID N D)) : KeepsVote e (e.followingAppendEntries prev entries) := by
  unfold followingAppendEntries
  dsimp only
  refine .trans (acceptLogIo_keepsVote e (.newLogIo e.state.voteRef.leaderId
    (max prev (entries.getLast?.map Entry.logId)))) ?_
  split
  · exact .trans (truncateLogs_keepsVote _ _) (doAppendEntries_keepsVote _ _)
  · split
    · exact .refl _
    · exact .push trivial

theorem ensureLogConsecutive_keepsVote (e : Engine NID N D) (prev : Option (LogId NID)) :
    KeepsVote e (e.ensureLogConsecutive prev).1 := by
  unfold ensureLogConsecutive
  repeat' split
  · exact .refl _
  · exact .refl _
  · exact truncateLogs_keepsVote _ _

/-- The only error of `ensure_log_consecutive` is a conflict. -/
theorem ensureLogConsecutive_error {prev : Option (LogId NID)} {err : StreamAppendError NID}
    (h : (e.ensureLogConsecutive prev).2 = some err) : ∃ p, prev = some p ∧ err = .conflict p := by
  unfold ensureLogConsecutive at h
  repeat' split at h
  · cases h
  · cases h
  · cases h
    exact ⟨_, rfl, rfl⟩

theorem truncateForSnapshot_keepsVote (e : Engine NID N D) (last : LogId NID) :
    KeepsVote e (e.truncateForSnapshot last) := by
  unfold truncateForSnapshot
  repeat' split
  · exact .refl _
  · exact truncateLogs_keepsVote _ _
  · exact .refl _

theorem acceptSnapshot_keepsVote (e : Engine NID N D) (io : LogIOId NID)
    (snapshot : Snapshot NID N D) (last : LogId NID) :
    KeepsVote e (e.acceptSnapshot io snapshot last) := by
  unfold acceptSnapshot
  exact .trans (acceptLogIo_keepsVote e (.log io)) (.ofStatePush _ (by rfl) (by trivial))

theorem installFullSnapshot_keepsVote {snapshot : Snapshot NID N D}
    {r : Engine NID N D × Option (Condition NID)} (h : e.installFullSnapshot snapshot = some r) :
    KeepsVote e r.1 := by
  unfold installFullSnapshot at h
  dsimp only at h
  repeat' split at h
  · obtain rfl := Option.some.inj h
    exact .refl _
  · obtain rfl := Option.some.inj h
    exact .refl _
  · cases h
  · cases h
  · obtain rfl := Option.some.inj h
    exact updateSnapshot_keepsVote _ _
  · obtain rfl := Option.some.inj h
    exact (updateSnapshot_keepsVote e snapshot.snapshotMeta).trans
      (.trans (truncateForSnapshot_keepsVote _ _)
        (.trans (acceptSnapshot_keepsVote _ _ _ _) (purgeLog_keepsVote _)))

/-! ## Replication and the leader -/

omit [LinearOrder NID] in
theorem sendToTarget_isPlain (id : NID) (V : LeaderId NID) (target : NID)
    (inflight : Option (Inflight NID)) :
    ∀ c ∈ (inflight.map (sendToTarget (N := N) (D := D) V target)).getD [],
      c.IsPlain id (some V) := by
  intro c hc
  rcases inflight with _ | _ | _ | _ | _ <;> simp [sendToTarget] at hc <;> subst hc <;> trivial

theorem initiateReplicationLoop_spec (config : EngineConfig NID) (V : LeaderId NID)
    (items : List (ProgressEntry NID)) (st : RaftState NID N) :
    let r := initiateReplicationLoop (D := D) config V items st
    r.2.1.voteRef = st.voteRef ∧ ∀ c ∈ r.2.2, c.IsPlain config.id (some V) := by
  induction items generalizing st with
  | nil => exact ⟨rfl, by simp [initiateReplicationLoop]⟩
  | cons item items ih =>
    unfold initiateReplicationLoop
    split
    · exact ih st
    · have hsend : (ProgressEntry.nextSend item st config.maxPayloadEntries).2.1.voteRef =
          st.voteRef := by
        unfold ProgressEntry.nextSend
        split <;> rfl
      obtain ⟨hv, hplain⟩ := ih (ProgressEntry.nextSend item st config.maxPayloadEntries).2.1
      refine ⟨hv.trans hsend, ?_⟩
      intro c hc
      rcases List.mem_append.1 hc with hc | hc
      · exact sendToTarget_isPlain _ _ _ _ _ hc
      · exact hplain c hc

theorem initiateReplication_keepsVote (hl : e.leader = some l) :
    KeepsVote e (e.initiateReplication l) := by
  have h := initiateReplicationLoop_spec (D := D) e.config l.committedVote l.progress.entries
    e.state
  exact ⟨rfl, h.1, by simp [leaderVote, initiateReplication, hl], rfl, rfl, rfl, _, rfl,
    by rw [leaderVote_eq hl]; exact h.2⟩

theorem rebuildReplicationStreams_keepsVote (hl : e.leader = some l) (closeOld : Bool) :
    KeepsVote e (e.rebuildReplicationStreams l closeOld) := by
  unfold rebuildReplicationStreams
  refine .trans (.ofLeader hl _ ?_) (.push ⟨?_, ?_⟩)
  · rfl
  · rfl
  · intro t ht
    obtain ⟨item, hitem, rfl⟩ := List.mem_map.1 ht
    exact of_decide_eq_true (List.mem_filter.1 hitem).2

omit [LinearOrder NID] in
theorem withLeader_keepsVote {f : Engine NID N D → Leader NID N → Engine NID N D}
    (hf : ∀ l, e.leader = some l → KeepsVote e (f e l)) : KeepsVote e (e.withLeader f) := by
  unfold withLeader
  split
  · exact hf _ (by assumption)
  · exact .refl _

theorem rebuildProgresses_keepsVote (hl : e.leader = some l) :
    KeepsVote e (e.rebuildProgresses l) :=
  ⟨rfl, rfl, by simp [leaderVote, rebuildProgresses, hl], rfl, rfl, rfl, [], by
    simp [rebuildProgresses], by simp⟩

theorem appendMembership_keepsVote (hl : e.leader = some l) (logId : LogId NID)
    (m : Membership NID N) : KeepsVote e (e.appendMembership l logId m) := by
  have hm : KeepsVote e ({ e with state := { e.state with
      membershipState := e.state.membershipState.append ⟨some logId, m⟩ } } : Engine NID N D) :=
    .ofState _ rfl
  have hp := hm.trans (rebuildProgresses_keepsVote hl)
  have hs := hp.trans (withLeader_keepsVote (f := fun e l => e.rebuildReplicationStreams l false)
    fun l hl => rebuildReplicationStreams_keepsVote hl false)
  exact hs.trans (withLeader_keepsVote fun l hl => initiateReplication_keepsVote hl)

theorem tryCommitQuorumAccepted_keepsVote (e : Engine NID N D) (granted : Option (LogId NID)) :
    KeepsVote e (e.tryCommitQuorumAccepted granted) := by
  have hstate : ∀ s : RaftState NID N, (s.updateLocalCommitted granted).voteRef = s.voteRef := by
    intro s
    unfold RaftState.updateLocalCommitted
    repeat' split
    all_goals rfl
  unfold tryCommitQuorumAccepted
  dsimp only
  repeat' split
  · exact .refl _
  · refine .ofStatePush _ ?_ ?_
    · exact hstate _
    · trivial
  · exact .ofState _ (hstate _)

theorem tryCommitQuorumAccepted_leader (e : Engine NID N D) (granted : Option (LogId NID)) :
    (e.tryCommitQuorumAccepted granted).leader = e.leader ∧
      (e.tryCommitQuorumAccepted granted).state.lastInflightId = e.state.lastInflightId := by
  have hstate : ∀ st : RaftState NID N,
      (st.updateLocalCommitted granted).lastInflightId = st.lastInflightId := by
    intro st
    unfold RaftState.updateLocalCommitted
    repeat' split
    all_goals rfl
  unfold tryCommitQuorumAccepted
  dsimp only
  split
  · exact ⟨rfl, rfl⟩
  split
  · exact ⟨rfl, hstate _⟩
  · exact ⟨rfl, hstate _⟩

theorem purgeLog_leader (e : Engine NID N D) : e.purgeLog.leader = e.leader ∧
    e.purgeLog.state.lastInflightId = e.state.lastInflightId := by
  unfold purgeLog
  split
  · exact ⟨rfl, rfl⟩
  split
  · exact ⟨rfl, rfl⟩
  · exact ⟨rfl, rfl⟩

theorem tryPurgeLog_leader (e : Engine NID N D) : e.tryPurgeLog.leader = e.leader ∧
    e.tryPurgeLog.state.lastInflightId = e.state.lastInflightId := by
  unfold tryPurgeLog
  split
  · unfold tryPurgeLogLeader
    repeat' split
    · exact ⟨rfl, rfl⟩
    · exact ⟨rfl, rfl⟩
    · exact ⟨rfl, rfl⟩
    · exact purgeLog_leader e
  · exact purgeLog_leader e

theorem updateMatching_keepsVote (hl : e.leader = some l) {nodeId : NID}
    {logId : Option (LogId NID)} {inflightId : Option Nat}
    (h : e.updateMatching l nodeId logId inflightId = some e') : KeepsVote e e' := by
  unfold updateMatching at h
  split at h
  · cases h
  · obtain rfl := Option.some.inj h
    exact .refl _
  · rename_i progress _
    obtain rfl := Option.some.inj h
    exact (KeepsVote.ofLeader hl { l with progress := progress } rfl).trans
      (tryCommitQuorumAccepted_keepsVote _ _)

theorem updateProgress_keepsVote (hl : e.leader = some l) {target : NID} {streamId : Nat}
    {result : ReplicationResult NID} {inflightId : Option Nat}
    (h : e.updateProgress l target streamId result inflightId = some e') : KeepsVote e e' := by
  unfold updateProgress at h
  split at h
  · obtain ⟨e1, hupd, rfl⟩ := Option.map_eq_some_iff.1 h
    refine .trans ?_ (tryPurgeLog_keepsVote _)
    cases result with
    | matching logId => exact updateMatching_keepsVote hl hupd
    | conflict logId =>
      obtain rfl := Option.some.inj hupd
      exact .ofLeader hl _ rfl
    | error =>
      obtain rfl := Option.some.inj hupd
      exact .ofLeader hl _ rfl
  · obtain rfl := Option.some.inj h
    exact .refl _

theorem tryUpdateLeaderClock_keepsVote (hl : e.leader = some l) (streamId : Nat) (target : NID)
    (sendingTime : Nat) : KeepsVote e (e.tryUpdateLeaderClock l streamId target sendingTime) := by
  unfold tryUpdateLeaderClock
  split
  · exact .ofLeader hl _ rfl
  · exact .refl _

theorem updateLocalProgress_keepsVote (hl : e.leader = some l) {upto : Option (LogId NID)}
    (h : e.updateLocalProgress l upto = some e') : KeepsVote e e' := by
  unfold updateLocalProgress at h
  split at h
  · obtain rfl := Option.some.inj h
    exact .refl _
  · obtain rfl := Option.some.inj h
    exact .refl _
  · split at h
    · obtain rfl := Option.some.inj h
      exact .refl _
    · dsimp only at h
      refine .trans (.ofLeader hl _ ?_) (updateMatching_keepsVote ?_ h)
      · rfl
      · rfl

omit [LinearOrder NID] in
theorem transferLeader_keepsVote (hl : e.leader = some l) (target : NID) :
    KeepsVote e (e.transferLeader l target) :=
  ⟨rfl, rfl, by simp [leaderVote, transferLeader, pushCommand, hl], rfl, rfl, rfl, _, rfl,
    by simp [Command.IsPlain]⟩

theorem leaderExtendLog_keepsVote (hl : e.leaderVote = some l.committedVote)
    (entries : List (Entry NID N D)) : KeepsVote e (e.leaderExtendLog l entries) := by
  have hset : KeepsVote e ({ e with
      leader := some l
      state := { e.state with logIds := e.state.logIds.extend (entries.map Entry.logId) }
      } : Engine NID N D) :=
    ⟨rfl, rfl, hl.symm, rfl, rfl, rfl, [], by simp, by simp⟩
  exact (hset.trans (acceptLogIo_keepsVote _ _)).trans (.push trivial)

theorem leaderExtendLog_leader (e : Engine NID N D) (l : Leader NID N)
    (entries : List (Entry NID N D)) : (e.leaderExtendLog l entries).leader = some l := rfl

omit [LinearOrder NID] in
theorem map_logId_zipWith (ids : List (LogId NID)) (payloads : List (Payload NID N D))
    (hlen : ids.length = payloads.length) :
    (List.zipWith (fun logId payload => (⟨logId, payload⟩ : Entry NID N D)) ids payloads).map
      Entry.logId = ids := by
  induction ids generalizing payloads with
  | nil => simp
  | cons id ids ih =>
    cases payloads with
    | nil => simp at hlen
    | cons payload payloads =>
      rw [List.zipWith_cons_cons, List.map_cons, ih payloads (by simpa using hlen)]

omit [LinearOrder NID] in
theorem assignLogIds_committedVote {mode : LeaderIdMode} {count : Nat} {l' : Leader NID N}
    {logIds : LeaderLogIds NID} (h : l.assignLogIds mode count = some (logIds, l')) :
    l'.committedVote = l.committedVote := by
  unfold Leader.assignLogIds at h
  split at h
  · cases h
  · cases h
    rfl

theorem leaderAppendEntries_keepsVote (hl : e.leader = some l)
    (payloads : List (Payload NID N D)) : KeepsVote e (e.leaderAppendEntries l payloads) := by
  unfold leaderAppendEntries
  split
  · exact .refl _
  · rename_i logIds l' hassign
    have hvote : e.leaderVote = some l'.committedVote := by
      rw [leaderVote_eq hl, assignLogIds_committedVote hassign]
    dsimp only
    refine (leaderExtendLog_keepsVote hvote (List.zipWith
      (fun logId payload => ⟨logId, payload⟩) logIds.toList payloads)).trans ?_
    split
    · exact (appendMembership_keepsVote (leaderExtendLog_leader _ _ _) _ _).trans
        (withLeader_keepsVote fun l hl => initiateReplication_keepsVote hl)
    · exact withLeader_keepsVote fun l hl => initiateReplication_keepsVote hl

/-- The engine in which `become_leader` starts to lead. -/
def installLeader (e : Engine NID N D) (now : Nat) : Engine NID N D :=
  { (e.newLeader now).1 with leader := some (e.newLeader now).2 }

theorem becomeLeader_cases (e : Engine NID N D) (now : Nat) :
    (e.leaderVote = some e.state.voteRef.leaderId ∧ e.becomeLeader now = e) ∨
      KeepsVote (e.installLeader now) (e.becomeLeader now) := by
  unfold becomeLeader
  split
  · rename_i hsame
    obtain ⟨l, hl, hV⟩ := (Option.any_eq_true _ _).1 hsame
    refine Or.inl ⟨?_, rfl⟩
    rw [leaderVote_eq hl, of_decide_eq_true hV]
  · dsimp only
    have hacc := acceptLogIo_keepsVote (e.installLeader now)
      (.newLogIo (e.newLeader now).2.committedVote (e.newLeader now).2.lastLogId)
    have hpush := hacc.trans (.push (c := .updateIOProgress none
      (.newLogIo (e.newLeader now).2.committedVote (e.newLeader now).2.lastLogId)) trivial)
    have hreb := hpush.trans (withLeader_keepsVote
      (f := fun e l => e.rebuildReplicationStreams l true)
      fun l hl => rebuildReplicationStreams_keepsVote hl true)
    right
    split
    · exact hreb.trans (withLeader_keepsVote (f := fun e l => e.leaderAppendEntries l [.blank])
        fun l hl => leaderAppendEntries_keepsVote hl _)
    · exact hreb.trans (withLeader_keepsVote fun l hl => initiateReplication_keepsVote hl)

omit [LinearOrder NID] in
theorem becomeFollowing_spec (e : Engine NID N D) :
    e.becomeFollowing.state = e.state ∧ e.becomeFollowing.config = e.config ∧
      e.becomeFollowing.output.pendingResponds = e.output.pendingResponds := by
  unfold becomeFollowing
  dsimp only
  split
  · exact ⟨rfl, rfl, rfl⟩
  · exact ⟨rfl, rfl, rfl⟩

theorem isLeading_false (s : RaftState NID N) (id : NID) (h : s.voteRef.leaderId.nodeId ≠ id) :
    s.isLeading id = false ∧ s.isLeader id = false := by
  simp [RaftState.isLeading, RaftState.isLeader, h]

/-- Under the vote of another node there is nothing to lead. -/
theorem updateInternalServerState_of_other (h : e.state.voteRef.leaderId.nodeId ≠ e.config.id)
    (now : Nat) : e.updateInternalServerState now = e.becomeFollowing := by
  have hnot := isLeading_false e.state e.config.id h
  unfold updateInternalServerState
  rw [hnot.1, hnot.2]
  rfl

/-- `update_internal_server_state` changes roles only. -/
theorem updateInternalServerState_spec (e : Engine NID N D) (now : Nat) :
    (e.updateInternalServerState now).state.voteRef = e.state.voteRef ∧
      (e.updateInternalServerState now).config = e.config ∧
      (e.updateInternalServerState now).output.pendingResponds = e.output.pendingResponds := by
  unfold updateInternalServerState
  split
  · rcases becomeLeader_cases e now with ⟨-, heq⟩ | hk
    · rw [heq]
      exact ⟨rfl, rfl, rfl⟩
    · exact ⟨hk.vote, hk.config, hk.pending⟩
  · split
    · exact ⟨rfl, rfl, rfl⟩
    · obtain ⟨hs, hc, hp⟩ := becomeFollowing_spec e
      exact ⟨by rw [hs], hc, hp⟩

theorem updateCommitted_voteRef (mode : LeaderIdMode) (s : RaftState NID N) (cc : LogIOId NID) :
    (s.updateCommitted mode cc).voteRef = s.voteRef := by
  unfold RaftState.updateCommitted RaftState.updateLocalCommitted
  dsimp only
  repeat' split
  all_goals rfl

/-! ### A finished build -/

/-- The cursors when a snapshot is built. -/
def snapshotBuilt (e : Engine NID N D) (p : IOProgress (LogId NID)) : Engine NID N D :=
  { e with state := { e.state with
    ioState := { e.state.ioState with buildingSnapshot := false, snapshot := p } } }

theorem tryUpdateAll_eq (p : IOProgress (LogId NID)) (v : LogId NID) :
    p.tryUpdateAll LogId.gt v =
      ⟨max p.accepted (some v), max p.submitted (some v), max p.flushed (some v)⟩ := by
  have key : ∀ a : Option (LogId NID),
      (if IOProgress.exceeds LogId.gt v a = true then some v else a) = max a (some v) := by
    intro a
    cases a with
    | none => exact (max_eq_right (by simp)).symm
    | some x =>
      show (if decide (x < v) = true then _ else _) = _
      by_cases hlt : x < v
      · have hle : some x ≤ some v := Option.some_le_some.2 hlt.le
        rw [if_pos (decide_eq_true hlt), max_eq_right hle]
      · have hle : some v ≤ some x := Option.some_le_some.2 (not_lt.1 hlt)
        rw [if_neg (by simpa using hlt), max_eq_left hle]
  unfold IOProgress.tryUpdateAll
  rw [key, key, key]

theorem onBuildingSnapshotDone_eq (e : Engine NID N D) (m : SnapshotMeta NID N) :
    ∃ p : IOProgress (LogId NID), p = ⟨max e.state.ioState.snapshot.accepted m.lastLogId,
        max e.state.ioState.snapshot.submitted m.lastLogId,
        max e.state.ioState.snapshot.flushed m.lastLogId⟩ ∧
      e.onBuildingSnapshotDone m =
        if !((e.snapshotBuilt p).updateSnapshot m).2 then ((e.snapshotBuilt p).updateSnapshot m).1
        else ((e.snapshotBuilt p).updateSnapshot m).1.schedulePolicyBasedPurge.tryPurgeLog := by
  cases hl : m.lastLogId with
  | none =>
    refine ⟨e.state.ioState.snapshot, ?_, ?_⟩
    · simp
    · unfold onBuildingSnapshotDone
      rw [hl]
      rfl
  | some v =>
    refine ⟨e.state.ioState.snapshot.tryUpdateAll LogId.gt v, tryUpdateAll_eq _ _, ?_⟩
    unfold onBuildingSnapshotDone
    rw [hl]
    rfl

end Engine

end ZenohRaft
