/-
  The handles of the replication streams, and the snapshots that are in flight.

  `RaftCore` holds a `ReplicationHandle` for every target of its leader, and in it the handle of a
  snapshot transmitter while one works for the target. Dropping that handle cancels the
  transmission. The engine does not see the handles: it pushes the commands by which streams are
  opened and closed and transmissions are started, and these are carried out later. So the progress
  of the leader is compared with what the handles will be once the queued commands are carried out,
  `Engine.handlesAfter`.

  * `Leader.Replicates`: there is one stream for every target of the leader, with the stream id of
    its entry, and for a snapshot in flight the handle of its transmitter is there.
  * `Engine.HandlesAgree`: the engine keeps this, and without a leader no handle is left. Every
    handler of the engine keeps `HandlesAgree`.
-/
import ZenohRaft.Frame
import ZenohRaft.Lib.WriteBehind
import ZenohRaft.QuorumUpgrade

namespace ZenohRaft

open Lib

variable {NID N D : Type} [LinearOrder NID]

/-! ## Handles -/

/-- `SnapshotTransmitterHandle`: the handle of the task that transmits a snapshot for `leaderVote`.
    `done` is set when the task has ended and has handed its result to `RaftCore`. -/
structure SnapshotTransmitterHandle (NID : Type) where
  leaderVote : LeaderId NID
  inflightId : Nat
  done : Bool
  deriving DecidableEq

/-- `ReplicationHandle`. -/
structure ReplicationHandle (NID : Type) where
  streamId : Nat
  snapshotTransmitHandle : Option (SnapshotTransmitterHandle NID)
  deriving DecidableEq

/-- `RaftCore::replications`. -/
abbrev Replications (NID : Type) := NID → Option (ReplicationHandle NID)

namespace Replications

/-- `RaftCore::run_replicate_snapshot`, if the stream to the target is open. The handle that was
    there is dropped. -/
def runReplicateSnapshot (rs : Replications NID) (leaderVote : LeaderId NID) (target : NID)
    (inflightId : Nat) : Replications NID :=
  Function.update rs target ((rs target).map fun h =>
    { h with snapshotTransmitHandle := some ⟨leaderVote, inflightId, false⟩ })

/-- `RaftCore::run_rebuild_replication_streams`: a target keeps its handle unless the old streams
    are to be closed. -/
def runRebuildReplicationStreams (rs : Replications NID) (targets : List (NID × Nat))
    (closeOldStreams : Bool) : Replications NID := fun t =>
  (targets.lookup t).map fun streamId =>
    if closeOldStreams then ⟨streamId, none⟩ else (rs t).getD ⟨streamId, none⟩

/-- `RaftCore::run_close_replication_streams`. -/
def runCloseReplicationStreams (_ : Replications NID) : Replications NID := fun _ => none

/-- What a command does with the handles. -/
def step (rs : Replications NID) : Command NID N D → Replications NID
  | .replicateSnapshot leaderVote target inflightId =>
    rs.runReplicateSnapshot leaderVote target inflightId
  | .rebuildReplicationStreams _ targets closeOldStreams =>
    rs.runRebuildReplicationStreams targets closeOldStreams
  | .closeReplicationStreams => rs.runCloseReplicationStreams
  | _ => rs

variable {rs rs' : Replications NID} {t : NID} {cmds : List (Command NID N D)}

/-- A command does the same for a target wherever the handles of that target are the same. -/
theorem step_congr (h : rs t = rs' t) (c : Command NID N D) : rs.step c t = rs'.step c t := by
  cases c with
  | replicateSnapshot leaderVote target inflightId =>
    show rs.runReplicateSnapshot _ _ _ t = rs'.runReplicateSnapshot _ _ _ t
    unfold runReplicateSnapshot
    by_cases ht : t = target
    · subst ht
      rw [Function.update_self, Function.update_self, h]
    · rw [Function.update_of_ne ht, Function.update_of_ne ht, h]
  | rebuildReplicationStreams leaderVote targets closeOldStreams =>
    show rs.runRebuildReplicationStreams _ _ t = rs'.runRebuildReplicationStreams _ _ t
    unfold runRebuildReplicationStreams
    rw [h]
  | closeReplicationStreams => rfl
  | _ => exact h

theorem runOps_congr (h : rs t = rs' t) : runOps step rs cmds t = runOps step rs' cmds t := by
  induction cmds generalizing rs rs' with
  | nil => exact h
  | cons c cmds ih => exact ih (step_congr h c)

/-- A queue of commands leaves the handle of a target alone, or it does not matter what transmitter
    is in it. -/
theorem runOps_swap {streamId : Nat} {x x' : Option (SnapshotTransmitterHandle NID)}
    (h : rs t = some ⟨streamId, x⟩) (h' : rs' t = some ⟨streamId, x'⟩) :
    runOps step rs cmds t = runOps step rs' cmds t ∨
      runOps step rs cmds t = rs t ∧ runOps step rs' cmds t = rs' t := by
  induction cmds generalizing rs rs' with
  | nil => exact Or.inr ⟨rfl, rfl⟩
  | cons c cmds ih =>
    rw [runOps_cons, runOps_cons]
    -- either the command treats both alike, or it leaves both as they are
    have hstep : rs.step c t = rs'.step c t ∨ rs.step c t = rs t ∧ rs'.step c t = rs' t := by
      cases c with
      | replicateSnapshot leaderVote target inflightId =>
        by_cases ht : t = target
        · subst ht
          left
          show rs.runReplicateSnapshot _ _ _ t = rs'.runReplicateSnapshot _ _ _ t
          unfold runReplicateSnapshot
          rw [Function.update_self, Function.update_self, h, h']
          rfl
        · right
          exact ⟨Function.update_of_ne ht _ _, Function.update_of_ne ht _ _⟩
      | rebuildReplicationStreams leaderVote targets closeOldStreams =>
        show rs.runRebuildReplicationStreams _ _ t = rs'.runRebuildReplicationStreams _ _ t ∨
          rs.runRebuildReplicationStreams _ _ t = rs t ∧
            rs'.runRebuildReplicationStreams _ _ t = rs' t
        unfold runRebuildReplicationStreams
        rw [h, h']
        cases targets.lookup t with
        | none => exact Or.inl rfl
        | some streamId =>
          cases closeOldStreams with
          | true => exact Or.inl rfl
          | false => exact Or.inr ⟨rfl, rfl⟩
      | closeReplicationStreams => exact Or.inl rfl
      | _ => exact Or.inr ⟨rfl, rfl⟩
    rcases hstep with heq | ⟨hsame, hsame'⟩
    · exact Or.inl (runOps_congr heq)
    · rcases ih (hsame.trans h) (hsame'.trans h') with heq | ⟨hrest, hrest'⟩
      · exact Or.inl heq
      · exact Or.inr ⟨hrest.trans hsame, hrest'.trans hsame'⟩

/-- A transmitter that is there after some commands was there before, or one of them starts it. -/
theorem runOps_origin {streamId : Nat} {x : SnapshotTransmitterHandle NID}
    (h : runOps step rs cmds t = some ⟨streamId, some x⟩) : rs t = some ⟨streamId, some x⟩ ∨
      x.done = false ∧ .replicateSnapshot x.leaderVote t x.inflightId ∈ cmds := by
  induction cmds generalizing rs with
  | nil => exact Or.inl h
  | cons c cmds ih =>
    rw [runOps_cons] at h
    rcases ih h with hstep | ⟨hdone, hmem⟩
    · cases c with
      | replicateSnapshot leaderVote target inflightId =>
        have hstep : rs.runReplicateSnapshot leaderVote target inflightId t = _ := hstep
        unfold runReplicateSnapshot at hstep
        by_cases ht : t = target
        · subst ht
          rw [Function.update_self] at hstep
          obtain ⟨hd, -, hnew⟩ := Option.map_eq_some_iff.1 hstep
          cases hnew
          exact Or.inr ⟨rfl, List.mem_cons_self⟩
        · rw [Function.update_of_ne ht] at hstep
          exact Or.inl hstep
      | rebuildReplicationStreams leaderVote targets closeOldStreams =>
        have hstep : rs.runRebuildReplicationStreams targets closeOldStreams t = _ := hstep
        obtain ⟨sid, -, hnew⟩ := Option.map_eq_some_iff.1 hstep
        left
        cases closeOldStreams with
        | true => cases hnew
        | false =>
          cases hold : rs t with
          | none =>
            rw [hold] at hnew
            cases hnew
          | some hd =>
            rw [hold] at hnew
            exact congrArg some hnew
      | closeReplicationStreams => cases hstep
      | _ => exact Or.inl hstep
    · exact Or.inr ⟨hdone, List.mem_cons_of_mem _ hmem⟩

end Replications

/-! ## What the leader and the handles have in common -/

/-- The handle of the target of `item` is there, with the transmitter of a snapshot in flight. -/
def ProgressEntry.Covered (leaderVote : LeaderId NID) (item : ProgressEntry NID)
    (h : Option (ReplicationHandle NID)) : Prop :=
  ∃ x, h = some ⟨item.data.streamId, x⟩ ∧
    ∀ id, item.data.inflight = .snapshot id → ∃ done, x = some ⟨leaderVote, id, done⟩

/-- The handles `rs` are those of the targets of a leader at `node`. `R` is what is known of a
    transmitter that has ended. -/
structure Leader.Replicates (R : NID → Nat → SnapshotTransmitterHandle NID → Prop) (node : NID)
    (rs : Replications NID) (l : Leader NID N) : Prop where
  nodup : (l.progress.entries.map (·.id)).Nodup
  own : ∀ item ∈ l.progress.entries, item.id = node → ∀ id, item.data.inflight ≠ .snapshot id
  covered : ∀ item ∈ l.progress.entries, item.id ≠ node →
    ProgressEntry.Covered l.committedVote item (rs item.id)
  target : ∀ t h, rs t = some h → t ≠ node ∧ t ∈ l.progress.entries.map (·.id)
  owner : ∀ t h x, rs t = some h → h.snapshotTransmitHandle = some x →
    x.leaderVote = l.committedVote ∧ (x.done = true → R t h.streamId x)

variable {R : NID → Nat → SnapshotTransmitterHandle NID → Prop}

omit [LinearOrder NID] in
theorem Leader.Replicates.congr {node : NID} {rs : Replications NID} {l l' : Leader NID N}
    (h : l.Replicates R node rs) (hvote : l'.committedVote = l.committedVote)
    (hprogress : l'.progress = l.progress) : l'.Replicates R node rs := by
  obtain ⟨hnd, hown, hcov, htarget, howner⟩ := h
  exact ⟨hprogress ▸ hnd, hprogress ▸ hown, by rw [hprogress, hvote]; exact hcov,
    hprogress ▸ htarget, by rw [hvote]; exact howner⟩

omit [LinearOrder NID] in
/-- Entries change, but no snapshot is put in flight and no stream is replaced. -/
theorem Leader.Replicates.mapEntries {node : NID} {rs : Replications NID} {l l' : Leader NID N}
    (h : l.Replicates R node rs) (hvote : l'.committedVote = l.committedVote)
    {g : ProgressEntry NID → ProgressEntry NID}
    (hperm : l'.progress.entries.Perm (l.progress.entries.map g))
    (hg : ∀ x, (g x).id = x.id ∧ (g x).data.streamId = x.data.streamId ∧
      ∀ id, (g x).data.inflight = .snapshot id → x.data.inflight = .snapshot id) :
    l'.Replicates R node rs := by
  have hids : (l'.progress.entries.map (·.id)).Perm (l.progress.entries.map (·.id)) := by
    refine (hperm.map _).trans (List.Perm.of_eq ?_)
    rw [List.map_map]
    exact List.map_congr_left fun x _ => (hg x).1
  have hback : ∀ y ∈ l'.progress.entries, ∃ x ∈ l.progress.entries, g x = y := fun y hy =>
    List.mem_map.1 (hperm.mem_iff.1 hy)
  refine ⟨hids.nodup_iff.2 h.nodup, ?_, ?_, ?_, ?_⟩
  · intro y hy hself id hid
    obtain ⟨x, hx, rfl⟩ := hback y hy
    obtain ⟨hxid, -, hsnap⟩ := hg x
    exact h.own x hx (hxid ▸ hself) id (hsnap id hid)
  · intro y hy hne
    obtain ⟨x, hx, rfl⟩ := hback y hy
    obtain ⟨hxid, hstream, hsnap⟩ := hg x
    rw [hxid] at hne ⊢
    obtain ⟨z, hz, hfly⟩ := h.covered x hx hne
    refine ⟨z, by rw [hz, hstream], fun id hid => ?_⟩
    rw [hvote]
    exact hfly id (hsnap id hid)
  · intro t hd ht
    obtain ⟨hne, hmem⟩ := h.target t hd ht
    exact ⟨hne, hids.mem_iff.2 hmem⟩
  · rw [hvote]
    exact h.owner

/-- Nobody is a voter and a learner. -/
theorem Membership.nodup_ids_learnerIds (m : Membership NID N) :
    (m.ids ++ m.learnerIds).Nodup := by
  refine List.nodup_append.2 ⟨nodup_sortedList _, (nodup_sortedList _).filter _, ?_⟩
  rintro x hx y hy rfl
  have hvoter : x ∈ m.voterIds := mem_sortedList.1 hx
  have hlearner := (List.mem_filter.1 hy).2
  rw [Membership.isVoter_iff.2 hvoter] at hlearner
  cases hlearner

/-- What a candidate needs to become a leader: its quorum set and its learners are apart, and its
    term is not the initial one. -/
structure Candidate.Ready (c : Candidate NID N) : Prop where
  nodup : (c.quorumSet.ids ++ c.learnerIds).Nodup
  term : c.vote.leaderId.term ≠ 0

namespace Engine

variable {e e' e'' : Engine NID N D} {l l' : Leader NID N} {rs : Replications NID}

/-- The handles once the queued commands are carried out. -/
def handlesAfter (rs : Replications NID) (e : Engine NID N D) : Replications NID :=
  runOps Replications.step rs e.output.commands

/-- The handles that the queue of commands will leave are those of the leader. -/
structure HandlesAgree (R : NID → Nat → SnapshotTransmitterHandle NID → Prop)
    (rs : Replications NID) (e : Engine NID N D) : Prop where
  leader : ∀ l, e.leader = some l → l.Replicates R e.config.id (e.handlesAfter rs)
  follower : e.leader = none → ∀ t, e.handlesAfter rs t = none
  candidate : ∀ c, e.candidate = some c → c.Ready

/-- A handler that leaves the progress of the leader and the handles alone. -/
structure KeepsStreams (e e' : Engine NID N D) : Prop where
  config : e'.config = e.config
  leader : e'.leader.map (fun l => (l.committedVote, l.progress)) =
    e.leader.map fun l => (l.committedVote, l.progress)
  candidate : e'.candidate = e.candidate
  handles : ∀ rs, e'.handlesAfter rs = e.handlesAfter rs

namespace KeepsStreams

theorem refl (e : Engine NID N D) : KeepsStreams e e := ⟨rfl, rfl, rfl, fun _ => rfl⟩

theorem trans (h : KeepsStreams e e') (h' : KeepsStreams e' e'') : KeepsStreams e e'' :=
  ⟨h'.config.trans h.config, h'.leader.trans h.leader, h'.candidate.trans h.candidate,
    fun rs => (h'.handles rs).trans (h.handles rs)⟩

theorem ofState (s : RaftState NID N) : KeepsStreams e { e with state := s } :=
  ⟨rfl, rfl, rfl, fun _ => rfl⟩

/-- A change of the leader other than of its vote and its progress. -/
theorem ofLeader (hl : e.leader = some l) (hvote : l'.committedVote = l.committedVote)
    (hprogress : l'.progress = l.progress) : KeepsStreams e { e with leader := some l' } :=
  ⟨rfl, by rw [hl, Option.map_some, Option.map_some, hvote, hprogress], rfl, fun _ => rfl⟩

/-- A command that has nothing to do with replication. -/
theorem push {c : Command NID N D} (hc : ∀ rs : Replications NID, rs.step c = rs) :
    KeepsStreams e (e.pushCommand c) := by
  refine ⟨rfl, rfl, rfl, fun rs => ?_⟩
  unfold handlesAfter pushCommand
  dsimp only
  rw [runOps_append, runOps_cons, runOps_nil, hc]

theorem ofStatePush (s : RaftState NID N) {c : Command NID N D}
    (hc : ∀ rs : Replications NID, rs.step c = rs) :
    KeepsStreams e (({ e with state := s } : Engine NID N D).pushCommand c) :=
  (ofState s).trans (push hc)

end KeepsStreams

theorem HandlesAgree.keepsStreams (h : e.HandlesAgree R rs) (hq : KeepsStreams e e') :
    e'.HandlesAgree R rs := by
  refine ⟨?_, ?_, ?_⟩
  · intro l' hl'
    have heq := hq.leader
    rw [hl'] at heq
    obtain ⟨l, hl, hsame⟩ := Option.map_eq_some_iff.1 heq.symm
    obtain ⟨hvote, hprogress⟩ := Prod.mk.inj hsame
    rw [hq.config, hq.handles]
    exact (h.leader l hl).congr hvote.symm hprogress.symm
  · intro hnone
    rw [hq.handles]
    refine h.follower ?_
    have heq := hq.leader
    rw [hnone, Option.map_none] at heq
    exact Option.map_eq_none_iff.1 heq.symm
  · rw [hq.candidate]
    exact h.candidate

/-- Less may be asked of a transmitter that has ended. -/
theorem HandlesAgree.weaken {R' : NID → Nat → SnapshotTransmitterHandle NID → Prop}
    (h : e.HandlesAgree R rs)
    (hR : ∀ t sid x, e.handlesAfter rs t = some ⟨sid, some x⟩ → x.done = true → R t sid x →
      R' t sid x) : e.HandlesAgree R' rs := by
  refine ⟨fun l hl => ?_, h.follower, h.candidate⟩
  obtain ⟨hnd, hown, hcov, htarget, howner⟩ := h.leader l hl
  refine ⟨hnd, hown, hcov, htarget, fun t hd x ht hx => ?_⟩
  obtain ⟨hvote, hended⟩ := howner t hd x ht hx
  have ht : e.handlesAfter rs t = some ⟨hd.streamId, some x⟩ := by rw [ht, ← hx]
  exact ⟨hvote, fun hdone => hR t hd.streamId x ht hdone (hended hdone)⟩

/-! ### Logs, snapshots and purges -/

theorem acceptLogIo_keepsStreams (e : Engine NID N D) (io : IOId NID) :
    KeepsStreams e (e.acceptLogIo io) := .ofState _

theorem purgeLog_keepsStreams (e : Engine NID N D) : KeepsStreams e e.purgeLog := by
  unfold purgeLog
  split
  · exact .refl _
  split
  · exact .refl _
  · exact .ofStatePush _ fun _ => rfl

theorem tryPurgeLog_keepsStreams (e : Engine NID N D) : KeepsStreams e e.tryPurgeLog := by
  unfold tryPurgeLog
  split
  · unfold tryPurgeLogLeader
    repeat' split
    · exact .refl _
    · exact .refl _
    · exact .refl _
    · exact purgeLog_keepsStreams _
  · exact purgeLog_keepsStreams _

theorem updateSnapshot_keepsStreams (e : Engine NID N D) (m : SnapshotMeta NID N) :
    KeepsStreams e (e.updateSnapshot m).1 := by
  unfold updateSnapshot
  split
  · exact .refl _
  · exact .ofState _

theorem triggerSnapshot_keepsStreams (e : Engine NID N D) : KeepsStreams e e.triggerSnapshot := by
  unfold triggerSnapshot
  split
  · exact .refl _
  · exact .ofStatePush _ fun _ => rfl

theorem schedulePolicyBasedPurge_keepsStreams (e : Engine NID N D) :
    KeepsStreams e e.schedulePolicyBasedPurge := by
  unfold schedulePolicyBasedPurge
  split
  · exact .ofState _
  · exact .refl _

theorem onBuildingSnapshotDone_keepsStreams (e : Engine NID N D) (m : SnapshotMeta NID N) :
    KeepsStreams e (e.onBuildingSnapshotDone m) := by
  obtain ⟨p, -, heq⟩ := onBuildingSnapshotDone_eq e m
  have hup : KeepsStreams e ((e.snapshotBuilt p).updateSnapshot m).1 :=
    (KeepsStreams.ofState _).trans (updateSnapshot_keepsStreams (e.snapshotBuilt p) m)
  rw [heq]
  split
  · exact hup
  · exact hup.trans ((schedulePolicyBasedPurge_keepsStreams _).trans (tryPurgeLog_keepsStreams _))

theorem triggerPurgeLog_keepsStreams {index : Nat} (h : e.triggerPurgeLog index = some e') :
    KeepsStreams e e' := by
  unfold triggerPurgeLog at h
  repeat' split at h
  · obtain rfl := Option.some.inj h
    exact .refl _
  · obtain rfl := Option.some.inj h
    exact .refl _
  · cases h
  · rename_i logId _
    obtain rfl := Option.some.inj h
    exact .trans (.ofState { e.state with purgeUpto := some logId }) (tryPurgeLog_keepsStreams _)

theorem truncateLogs_keepsStreams (e : Engine NID N D) (since : Nat) :
    KeepsStreams e (e.truncateLogs since) := by
  unfold truncateLogs
  split
  · exact .refl _
  · exact .ofStatePush _ fun _ => rfl

theorem doAppendEntries_keepsStreams (e : Engine NID N D) (entries : List (Entry NID N D)) :
    KeepsStreams e (e.doAppendEntries entries) :=
  .ofStatePush _ fun _ => rfl

theorem followingAppendEntries_keepsStreams (e : Engine NID N D) (prev : Option (LogId NID))
    (entries : List (Entry NID N D)) : KeepsStreams e (e.followingAppendEntries prev entries) := by
  unfold followingAppendEntries
  dsimp only
  refine .trans (acceptLogIo_keepsStreams e (.newLogIo e.state.voteRef.leaderId
    (max prev (entries.getLast?.map Entry.logId)))) ?_
  split
  · exact .trans (truncateLogs_keepsStreams _ _) (doAppendEntries_keepsStreams _ _)
  · split
    · exact .refl _
    · exact .push fun _ => rfl

theorem ensureLogConsecutive_keepsStreams (e : Engine NID N D) (prev : Option (LogId NID)) :
    KeepsStreams e (e.ensureLogConsecutive prev).1 := by
  unfold ensureLogConsecutive
  repeat' split
  · exact .refl _
  · exact .refl _
  · exact truncateLogs_keepsStreams _ _

theorem truncateForSnapshot_keepsStreams (e : Engine NID N D) (last : LogId NID) :
    KeepsStreams e (e.truncateForSnapshot last) := by
  unfold truncateForSnapshot
  repeat' split
  · exact .refl _
  · exact truncateLogs_keepsStreams _ _
  · exact .refl _

theorem acceptSnapshot_keepsStreams (e : Engine NID N D) (io : LogIOId NID)
    (snapshot : Snapshot NID N D)
    (last : LogId NID) : KeepsStreams e (e.acceptSnapshot io snapshot last) := by
  unfold acceptSnapshot
  exact .trans (acceptLogIo_keepsStreams e (.log io)) (.ofStatePush _ fun _ => rfl)

theorem installFullSnapshot_keepsStreams {snapshot : Snapshot NID N D}
    {r : Engine NID N D × Option (Condition NID)} (h : e.installFullSnapshot snapshot = some r) :
    KeepsStreams e r.1 := by
  unfold installFullSnapshot at h
  dsimp only at h
  repeat' split at h
  · obtain rfl := Option.some.inj h
    exact .refl _
  · obtain rfl := Option.some.inj h
    exact .refl _
  · cases h
  · cases h
  · obtain rfl := Option.some.inj h
    exact updateSnapshot_keepsStreams _ _
  · obtain rfl := Option.some.inj h
    exact (updateSnapshot_keepsStreams e snapshot.snapshotMeta).trans
      (.trans (truncateForSnapshot_keepsStreams _ _)
        (.trans (acceptSnapshot_keepsStreams _ _ _ _) (purgeLog_keepsStreams _)))

theorem tryCommitQuorumAccepted_keepsStreams (e : Engine NID N D) (granted : Option (LogId NID)) :
    KeepsStreams e (e.tryCommitQuorumAccepted granted) := by
  unfold tryCommitQuorumAccepted
  dsimp only
  repeat' split
  · exact .refl _
  · exact .ofStatePush _ fun _ => rfl
  · exact .ofState _

theorem tryUpdateLeaderClock_keepsStreams (hl : e.leader = some l) (streamId : Nat) (target : NID)
    (sendingTime : Nat) :
    KeepsStreams e (e.tryUpdateLeaderClock l streamId target sendingTime) := by
  unfold tryUpdateLeaderClock
  split
  · exact .ofLeader hl rfl rfl
  · exact .refl _

theorem transferLeader_keepsStreams (hl : e.leader = some l) (target : NID) :
    KeepsStreams e (e.transferLeader l target) := by
  unfold transferLeader
  refine .trans ?_ (.push fun _ => rfl)
  exact ⟨rfl, by rw [hl]; rfl, rfl, fun _ => rfl⟩

/-! ### Progress -/

theorem HandlesAgree.withProgress (hcand : ∀ c, e.candidate = some c → c.Ready)
    (hl' : l'.Replicates R e.config.id (e.handlesAfter rs)) :
    HandlesAgree R rs ({ e with leader := some l' } : Engine NID N D) := by
  refine ⟨?_, nofun, hcand⟩
  intro l2 hl2
  obtain rfl := Option.some.inj hl2
  exact hl'

theorem ack_snapshot {i : Inflight NID} {upto : Option (LogId NID)} {fromId id : Nat}
    (h : (i.ack upto fromId).2 = .snapshot id) : i = .snapshot id ∧ fromId ≠ id := by
  unfold Inflight.ack at h
  cases i with
  | none => cases h
  | logs range j =>
    dsimp only at h
    unfold Inflight.newLogs at h
    repeat' split at h
    all_goals cases h
  | logsSince prev j =>
    dsimp only at h
    split at h
    all_goals cases h
  | snapshot j =>
    dsimp only at h
    split at h
    · cases h
    · rename_i hne
      cases h
      exact ⟨rfl, fun heq => hne heq.symm⟩

omit [LinearOrder NID] in
theorem conflict_snapshot {i : Inflight NID} {fromId id : Nat}
    (h : (i.conflict fromId).2 = .snapshot id) : i = .snapshot id := by
  unfold Inflight.conflict at h
  cases i with
  | none => cases h
  | snapshot j => exact h
  | logs range j =>
    dsimp only at h
    split at h
    all_goals cases h
  | logsSince prev j =>
    dsimp only at h
    split at h
    all_goals cases h

theorem updateMatching_entry (x : ProgressEntry NID) (matching : Option (LogId NID))
    (inflightId : Option Nat) :
    (ProgressEntry.updateMatching x matching inflightId).id = x.id ∧
      (ProgressEntry.updateMatching x matching inflightId).data.streamId = x.data.streamId ∧
      ∀ id, (ProgressEntry.updateMatching x matching inflightId).data.inflight = .snapshot id →
        x.data.inflight = .snapshot id ∧ inflightId ≠ some id := by
  have hack : ∀ i id, (x.data.inflight.ack matching i).2 = .snapshot id →
      x.data.inflight = .snapshot id ∧ some i ≠ some id := fun i id h => by
    obtain ⟨heq, hne⟩ := ack_snapshot h
    exact ⟨heq, fun hsome => hne (Option.some.inj hsome)⟩
  unfold ProgressEntry.updateMatching
  cases inflightId with
  | none =>
    dsimp only
    split
    · exact ⟨rfl, rfl, fun id hid => ⟨hid, nofun⟩⟩
    · exact ⟨rfl, rfl, fun id hid => ⟨hid, nofun⟩⟩
  | some i =>
    dsimp only
    split
    · exact ⟨rfl, rfl, hack i⟩
    · exact ⟨rfl, rfl, hack i⟩

omit [LinearOrder NID] in
theorem updateConflicting_entry (allow : Bool) (x : ProgressEntry NID) (conflict : Nat)
    (inflightId : Option Nat) :
    (ProgressEntry.updateConflicting allow x conflict inflightId).id = x.id ∧
      (ProgressEntry.updateConflicting allow x conflict inflightId).data.streamId =
        x.data.streamId ∧
      ∀ id, (ProgressEntry.updateConflicting allow x conflict inflightId).data.inflight =
        .snapshot id → x.data.inflight = .snapshot id := by
  unfold ProgressEntry.updateConflicting
  cases inflightId with
  | none =>
    dsimp only
    repeat' split
    all_goals refine ⟨rfl, rfl, fun id hid => ?_⟩
    all_goals first | exact hid | cases hid
  | some i =>
    dsimp only
    repeat' split
    all_goals refine ⟨rfl, rfl, fun id hid => ?_⟩
    all_goals first | exact conflict_snapshot hid | cases hid

/-- What a change of the entries of a leader keeps, when it puts no snapshot in flight. -/
structure Calms (l l' : Leader NID N) (g : ProgressEntry NID → ProgressEntry NID) : Prop where
  vote : l'.committedVote = l.committedVote
  entries : l'.progress.entries.Perm (l.progress.entries.map g)
  keeps : ∀ x, (g x).id = x.id ∧ (g x).data.streamId = x.data.streamId ∧
    ∀ id, (g x).data.inflight = .snapshot id → x.data.inflight = .snapshot id

omit [LinearOrder NID] in
theorem Calms.replicates {g : ProgressEntry NID → ProgressEntry NID} (hc : Calms l l' g)
    {node : NID} (h : l.Replicates R node rs) : l'.Replicates R node rs :=
  h.mapEntries hc.vote hc.entries hc.keeps

omit [LinearOrder NID] in
theorem Calms.refl (l : Leader NID N) : Calms l l id :=
  ⟨rfl, by rw [List.map_id], fun _ => ⟨rfl, rfl, fun _ hid => hid⟩⟩

/-- The entry of `target` changes by `f`. -/
theorem Calms.ofEntry {target : NID} {f : ProgressEntry NID → ProgressEntry NID}
    {p : VecProgress NID (Membership NID N) (Option (LogId NID)) (ProgressData NID)}
    (hperm : p.entries.Perm (VecProgress.mapEntry l.progress.entries target f))
    (hf : ∀ x, (f x).id = x.id ∧ (f x).data.streamId = x.data.streamId ∧
      ∀ id, (f x).data.inflight = .snapshot id → x.data.inflight = .snapshot id) :
    Calms l { l with progress := p } fun x => if x.id = target then f x else x := by
  refine ⟨rfl, hperm, fun x => ?_⟩
  split
  · exact hf x
  · exact ⟨rfl, rfl, fun _ hid => hid⟩

theorem updateMatching_calms (hl : e.leader = some l) (hnd : (l.progress.entries.map (·.id)).Nodup)
    {target : NID} {logId : Option (LogId NID)} {inflightId : Option Nat}
    (he : e.updateMatching l target logId inflightId = some e') : ∃ l' : Leader NID N,
      Calms l l' (fun x => if x.id = target then ProgressEntry.updateMatching x logId inflightId
        else x) ∧ KeepsStreams { e with leader := some l' } e' := by
  have hentry := fun x => updateMatching_entry x logId inflightId
  unfold updateMatching at he
  split at he
  · cases he
  · rename_i p hp
    obtain rfl := Option.some.inj he
    have hperm := VecProgress.updateEntryWith_perm hnd hp
    obtain rfl := VecProgress.updateEntryWith_not_found hp
    refine ⟨l, .ofEntry hperm fun x => ?_, ?_⟩
    · exact ⟨(hentry x).1, (hentry x).2.1, fun id hid => ((hentry x).2.2 id hid).1⟩
    · rw [← hl]
      exact .refl e
  · rename_i p hp
    obtain rfl := Option.some.inj he
    refine ⟨{ l with progress := p }, .ofEntry (VecProgress.updateEntryWith_perm hnd hp)
      fun x => ?_, tryCommitQuorumAccepted_keepsStreams _ _⟩
    exact ⟨(hentry x).1, (hentry x).2.1, fun id hid => ((hentry x).2.2 id hid).1⟩

/-- A report that ends the snapshot `id` if it is for the stream of the target: an error does, and
    so does the acknowledgement of the snapshot. -/
def ReplicationResult.Ends (inflightId : Option Nat) (id : Nat) : ReplicationResult NID → Prop
  | .matching _ => inflightId = some id
  | .conflict _ => False
  | .error => True

instance (inflightId : Option Nat) (id : Nat) (result : ReplicationResult NID) :
    Decidable (result.Ends inflightId id) :=
  match result with
  | .matching _ => inferInstanceAs (Decidable (inflightId = some id))
  | .conflict _ => isFalse not_false
  | .error => isTrue trivial

/-- `update_progress` changes the entry of the target, and nothing else about replication. -/
theorem updateProgress_calms (hl : e.leader = some l) (hnd : (l.progress.entries.map (·.id)).Nodup)
    {target : NID} {streamId : Nat} {result : ReplicationResult NID} {inflightId : Option Nat}
    (he : e.updateProgress l target streamId result inflightId = some e') :
    ∃ (l' : Leader NID N) (g : ProgressEntry NID → ProgressEntry NID), Calms l l' g ∧
      KeepsStreams { e with leader := some l' } e' ∧
      ∀ id, result.Ends inflightId id → ∀ x ∈ l.progress.entries,
        x.id = target → x.data.streamId = streamId → (g x).data.inflight ≠ .snapshot id := by
  unfold updateProgress at he
  split at he
  · obtain ⟨e1, hupd, rfl⟩ := Option.map_eq_some_iff.1 he
    cases result with
    | matching logId =>
      obtain ⟨l', hc, hq⟩ := updateMatching_calms hl hnd hupd
      refine ⟨l', _, hc, hq.trans (tryPurgeLog_keepsStreams _), ?_⟩
      rintro id rfl x - hx - hid
      rw [if_pos hx] at hid
      exact ((updateMatching_entry x logId (some id)).2.2 id hid).2 rfl
    | conflict logId =>
      obtain rfl := Option.some.inj hupd
      unfold updateConflicting
      exact ⟨_, _, .ofEntry (VecProgress.resetEntryWith_perm hnd target _) fun x =>
        updateConflicting_entry _ x _ _, tryPurgeLog_keepsStreams _, fun _ hends => hends.elim⟩
    | error =>
      obtain rfl := Option.some.inj hupd
      refine ⟨_, _, .ofEntry (VecProgress.updateDataWith_perm hnd target _) fun x =>
        ⟨rfl, rfl, fun id hid => by cases hid⟩, tryPurgeLog_keepsStreams _, ?_⟩
      intro id _ x _ hx _ hid
      rw [if_pos hx] at hid
      cases hid
  · rename_i hvalid
    obtain rfl := Option.some.inj he
    refine ⟨l, id, .refl l, by rw [← hl]; exact .refl e, ?_⟩
    intro id _ x hx hid hstream
    have hget : l.progress.tryGet target = some x := (VecProgress.tryGet_eq_some hnd).2 ⟨hx, hid⟩
    unfold Leader.isReplicationStreamValid at hvalid
    rw [hget] at hvalid
    exact absurd (decide_eq_true hstream) hvalid

theorem HandlesAgree.updateProgress (h : e.HandlesAgree R rs) (hl : e.leader = some l)
    {target : NID} {streamId : Nat} {result : ReplicationResult NID} {inflightId : Option Nat}
    (he : e.updateProgress l target streamId result inflightId = some e') :
    e'.HandlesAgree R rs := by
  obtain ⟨l', g, hc, hq, -⟩ := updateProgress_calms hl (h.leader l hl).nodup he
  exact (HandlesAgree.withProgress h.candidate (hc.replicates (h.leader l hl))).keepsStreams hq

theorem HandlesAgree.updateLocalProgress (h : e.HandlesAgree R rs) (hl : e.leader = some l)
    {upto : Option (LogId NID)} (he : e.updateLocalProgress l upto = some e') :
    e'.HandlesAgree R rs := by
  unfold Engine.updateLocalProgress at he
  split at he
  · obtain rfl := Option.some.inj he
    exact h
  · obtain rfl := Option.some.inj he
    exact h
  · rename_i u entry _
    split at he
    · obtain rfl := Option.some.inj he
      exact h
    · dsimp only at he
      have hrep := h.leader l hl
      -- the entry of the node itself has no snapshot in flight
      have hc : Calms l { l with progress := l.progress.updateDataWith e.config.id fun d =>
          { d with inflight := .newLogs none (some u) 0 } } _ :=
        .ofEntry (VecProgress.updateDataWith_perm hrep.nodup e.config.id _) fun x => by
          refine ⟨rfl, rfl, fun id hid => ?_⟩
          dsimp only at hid
          unfold Inflight.newLogs at hid
          split at hid <;> cases hid
      have h1 := HandlesAgree.withProgress h.candidate (hc.replicates hrep)
      obtain ⟨l2, hc2, hq⟩ := updateMatching_calms rfl (h1.leader _ rfl).nodup he
      exact (HandlesAgree.withProgress h1.candidate
        (hc2.replicates (h1.leader _ rfl))).keepsStreams hq

/-! ### Sending -/

/-- Transmissions are started for the leader `leaderVote`, on streams that are open. -/
structure Restarts (leaderVote : LeaderId NID) (rs rs' : Replications NID) : Prop where
  target : ∀ t h', rs' t = some h' → ∃ h, rs t = some h
  owner : ∀ t h' x, rs' t = some h' → h'.snapshotTransmitHandle = some x →
    rs t = some h' ∨ x.leaderVote = leaderVote ∧ x.done = false

omit [LinearOrder NID] in
theorem Restarts.refl (V : LeaderId NID) (rs : Replications NID) : Restarts V rs rs :=
  ⟨fun _ h' ht => ⟨h', ht⟩, fun _ _ _ ht _ => Or.inl ht⟩

omit [LinearOrder NID] in
theorem Restarts.trans {V : LeaderId NID} {rs rs' rs'' : Replications NID} (h : Restarts V rs rs')
    (h' : Restarts V rs' rs'') : Restarts V rs rs'' := by
  refine ⟨fun t hd ht => ?_, fun t hd x ht hx => ?_⟩
  · obtain ⟨hd', ht'⟩ := h'.target t hd ht
    exact h.target t hd' ht'
  · exact (h'.owner t hd x ht hx).elim (fun hkept => h.owner t hd x hkept hx) Or.inr

theorem restarts_runReplicateSnapshot (V : LeaderId NID) (rs : Replications NID) (target : NID)
    (id : Nat) : Restarts V rs (rs.runReplicateSnapshot V target id) := by
  unfold Replications.runReplicateSnapshot
  refine ⟨fun t hd ht => ?_, fun t hd x ht hx => ?_⟩
  · by_cases heq : t = target
    · subst heq
      rw [Function.update_self] at ht
      obtain ⟨h0, hh0, -⟩ := Option.map_eq_some_iff.1 ht
      exact ⟨h0, hh0⟩
    · rw [Function.update_of_ne heq] at ht
      exact ⟨hd, ht⟩
  · by_cases heq : t = target
    · subst heq
      rw [Function.update_self] at ht
      obtain ⟨h0, -, rfl⟩ := Option.map_eq_some_iff.1 ht
      obtain rfl := Option.some.inj hx
      exact Or.inr ⟨rfl, rfl⟩
    · rw [Function.update_of_ne heq] at ht
      exact Or.inl ht

/-- What `send_to_target` pushes starts a transmission for the target if it sends a snapshot, and
    does nothing to the handles otherwise. -/
theorem runOps_sendToTarget (V : LeaderId NID) (rs : Replications NID) (target : NID)
    (i : Inflight NID) :
    runOps Replications.step rs (sendToTarget (N := N) (D := D) V target i) = rs ∧
        (∀ id, i ≠ .snapshot id) ∨
      ∃ id, i = .snapshot id ∧
        runOps Replications.step rs (sendToTarget (N := N) (D := D) V target i) =
          rs.runReplicateSnapshot V target id := by
  cases i with
  | none => exact Or.inl ⟨rfl, nofun⟩
  | logs range id => exact Or.inl ⟨rfl, nofun⟩
  | logsSince prev id => exact Or.inl ⟨rfl, nofun⟩
  | snapshot id => exact Or.inr ⟨id, rfl, rfl⟩

/-- `next_send` leaves an entry with something in flight as it is, and otherwise sends what it
    puts in flight. -/
theorem nextSend_shape (item : ProgressEntry NID) (st : RaftState NID N) (maxEntries : Nat) :
    ProgressEntry.nextSend item st maxEntries = (item, st, none) ∨
      ∃ i st', ProgressEntry.nextSend item st maxEntries =
        ({ item with data := { item.data with inflight := i } }, st', some i) := by
  unfold ProgressEntry.nextSend
  split
  · exact Or.inl rfl
  · exact Or.inr ⟨_, _, rfl⟩

/-- The commands for what `next_send` returns. -/
def sentFor (D : Type) (V : LeaderId NID) (item : ProgressEntry NID) (st : RaftState NID N)
    (maxEntries : Nat) : List (Command NID N D) :=
  ((ProgressEntry.nextSend item st maxEntries).2.2.map (sendToTarget V item.id)).getD []

/-- One entry of `initiate_replication`: a snapshot that is put in flight gets a transmitter. -/
theorem nextSend_handles {V : LeaderId NID} {rs : Replications NID} {item : ProgressEntry NID}
    (st : RaftState NID N) (maxEntries : Nat)
    (h : ProgressEntry.Covered V item (rs item.id)) :
    let item' := (ProgressEntry.nextSend item st maxEntries).1
    let rs' := runOps Replications.step rs (sentFor D V item st maxEntries)
    item'.id = item.id ∧ ProgressEntry.Covered V item' (rs' item.id) ∧
      (∀ t, t ≠ item.id → rs' t = rs t) ∧ Restarts V rs rs' := by
  obtain ⟨x, hx, hfly⟩ := h
  unfold sentFor
  rcases nextSend_shape item st maxEntries with heq | ⟨i, st', heq⟩
  · rw [heq]
    exact ⟨rfl, ⟨x, hx, hfly⟩, fun _ _ => rfl, .refl V rs⟩
  · rw [heq]
    dsimp only [Option.map_some, Option.getD_some]
    rcases runOps_sendToTarget (N := N) (D := D) V rs item.id i with ⟨hrun, hne⟩ | ⟨id, rfl, hrun⟩
    · rw [hrun]
      exact ⟨rfl, ⟨x, hx, fun id hid => absurd hid (hne id)⟩, fun _ _ => rfl, .refl V rs⟩
    · rw [hrun]
      refine ⟨rfl, ⟨some ⟨V, id, false⟩, ?_, ?_⟩, ?_, restarts_runReplicateSnapshot V rs _ id⟩
      · unfold Replications.runReplicateSnapshot
        rw [Function.update_self, hx]
        rfl
      · rintro j ⟨⟩
        exact ⟨false, rfl⟩
      · intro t ht
        exact Function.update_of_ne ht _ _

theorem initiateReplicationLoop_handles (config : EngineConfig NID) (V : LeaderId NID)
    (items : List (ProgressEntry NID)) (st : RaftState NID N) (rs : Replications NID)
    (hnd : (items.map (·.id)).Nodup)
    (h : ∀ item ∈ items, item.id ≠ config.id → ProgressEntry.Covered V item (rs item.id)) :
    let r := initiateReplicationLoop (D := D) config V items st
    let rs' := runOps Replications.step rs r.2.2
    r.1.map (·.id) = items.map (·.id) ∧
      (∀ y ∈ r.1, (y.id = config.id → y ∈ items) ∧
        (y.id ≠ config.id → ProgressEntry.Covered V y (rs' y.id))) ∧
      (∀ t, t ∉ items.map (·.id) → rs' t = rs t) ∧ Restarts V rs rs' := by
  induction items generalizing st rs with
  | nil => exact ⟨rfl, nofun, fun _ _ => rfl, .refl V rs⟩
  | cons item items ih =>
    obtain ⟨hnew, hnd⟩ := List.nodup_cons.1 hnd
    unfold initiateReplicationLoop
    split
    · rename_i hself
      obtain ⟨hids, hitems, hother, hre⟩ := ih st rs hnd fun x hx => h x (List.mem_cons_of_mem _ hx)
      refine ⟨congrArg (item.id :: ·) hids, fun y hy => ?_, fun t ht => ?_, hre⟩
      · rcases List.mem_cons.1 hy with rfl | hy
        · exact ⟨fun _ => List.mem_cons_self, fun hne => absurd hself hne⟩
        · exact ⟨fun hy' => List.mem_cons_of_mem _ ((hitems y hy).1 hy'), (hitems y hy).2⟩
      · exact hother t fun hmem => ht (List.mem_cons_of_mem _ hmem)
    · rename_i hself
      obtain ⟨hid, hcov, hrest, hre⟩ := nextSend_handles (D := D) st config.maxPayloadEntries
        (h item List.mem_cons_self hself)
      obtain ⟨rs1, hrs1⟩ : ∃ rs1, rs1 = runOps Replications.step rs
        (sentFor D V item st config.maxPayloadEntries) := ⟨_, rfl⟩
      rw [← hrs1] at hcov hrest hre
      have hnext : ∀ x ∈ items, x.id ≠ config.id → ProgressEntry.Covered V x (rs1 x.id) := by
        intro x hx hne
        rw [hrest x.id fun heq => hnew (List.mem_map.2 ⟨x, hx, heq⟩)]
        exact h x (List.mem_cons_of_mem _ hx) hne
      obtain ⟨hids, hitems, hother, hre'⟩ :=
        ih (ProgressEntry.nextSend item st config.maxPayloadEntries).2.1 rs1 hnd hnext
      dsimp only
      have hrun : ∀ cmds : List (Command NID N D), runOps Replications.step rs
          (((ProgressEntry.nextSend item st config.maxPayloadEntries).2.2.map
            (sendToTarget V item.id)).getD [] ++ cmds) = runOps Replications.step rs1 cmds := by
        intro cmds
        rw [runOps_append, hrs1]
        rfl
      rw [hrun]
      refine ⟨?_, fun y hy => ?_, fun t ht => ?_, hre.trans hre'⟩
      · rw [List.map_cons, List.map_cons, hids, hid]
      · rcases List.mem_cons.1 hy with rfl | hy
        · refine ⟨fun hy' => absurd (hid ▸ hy') hself, fun _ => ?_⟩
          rw [hid, hother item.id hnew]
          exact hcov
        · exact ⟨fun hy' => List.mem_cons_of_mem _ ((hitems y hy).1 hy'), (hitems y hy).2⟩
      · rw [hother t fun hmem => ht (List.mem_cons_of_mem _ hmem)]
        exact hrest t fun heq => ht (heq ▸ List.mem_cons_self)

theorem HandlesAgree.initiateReplication (h : e.HandlesAgree R rs) (hl : e.leader = some l) :
    (e.initiateReplication l).HandlesAgree R rs := by
  have hrep := h.leader l hl
  obtain ⟨hids, hitems, -, hre⟩ := initiateReplicationLoop_handles (D := D) e.config
    l.committedVote l.progress.entries e.state (e.handlesAfter rs) hrep.nodup hrep.covered
  have hrun : (e.initiateReplication l).handlesAfter rs = runOps Replications.step
      (e.handlesAfter rs) (initiateReplicationLoop (D := D) e.config l.committedVote
        l.progress.entries e.state).2.2 := runOps_append _ _ _
  rw [← hrun] at hitems hre
  refine ⟨?_, nofun, h.candidate⟩
  rintro l' ⟨⟩
  refine ⟨hids ▸ hrep.nodup, ?_, fun y hy => (hitems y hy).2, ?_, ?_⟩
  · intro y hy hself
    exact hrep.own y ((hitems y hy).1 hself) hself
  · intro t hd ht
    obtain ⟨hd', ht'⟩ := hre.target t hd ht
    rw [hids]
    exact hrep.target t hd' ht'
  · intro t hd x ht hx
    rcases hre.owner t hd x ht hx with hkept | ⟨hvote, hrunning⟩
    · exact hrep.owner t hd x hkept hx
    · exact ⟨hvote, fun hdone => by cases hrunning.symm.trans hdone⟩

/-! ### Opening and closing streams -/

/-- The targets of a list of entries, as `rebuild_replication_streams` passes them on. -/
def targetsOf (node : NID) (entries : List (ProgressEntry NID)) : List (NID × Nat) :=
  (entries.filter fun item => decide (item.id ≠ node)).map fun item => (item.id, item.data.streamId)

theorem lookup_targetsOf {node : NID} {entries : List (ProgressEntry NID)}
    (hnd : (entries.map (·.id)).Nodup) {item : ProgressEntry NID} (hmem : item ∈ entries)
    (hne : item.id ≠ node) : (targetsOf node entries).lookup item.id = some item.data.streamId := by
  induction entries with
  | nil => cases hmem
  | cons x entries ih =>
    obtain ⟨hx, hnd⟩ := List.nodup_cons.1 hnd
    unfold targetsOf at ih ⊢
    rcases List.mem_cons.1 hmem with rfl | hmem
    · rw [List.filter_cons_of_pos (by simpa using hne), List.map_cons, List.lookup_cons_self]
    · have hid : item.id ≠ x.id := fun heq => hx (List.mem_map.2 ⟨item, hmem, heq⟩)
      by_cases hself : x.id = node
      · rw [List.filter_cons_of_neg (by simpa using hself)]
        exact ih hnd hmem
      · rw [List.filter_cons_of_pos (by simpa using hself), List.map_cons, List.lookup_cons,
          beq_eq_false_iff_ne.2 hid]
        exact ih hnd hmem

theorem mem_of_lookup_targetsOf {node t : NID} {entries : List (ProgressEntry NID)} {sid : Nat}
    (h : (targetsOf node entries).lookup t = some sid) : t ≠ node ∧ t ∈ entries.map (·.id) := by
  obtain ⟨before, behind, heq, -⟩ := List.lookup_eq_some_iff.1 h
  have hmem : (t, sid) ∈ targetsOf node entries := by
    rw [heq]
    exact List.mem_append_right _ List.mem_cons_self
  obtain ⟨item, hitem, hpair⟩ := List.mem_map.1 hmem
  obtain ⟨rfl, -⟩ := Prod.mk.inj hpair
  obtain ⟨hitem, hne⟩ := List.mem_filter.1 hitem
  exact ⟨of_decide_eq_true hne, List.mem_map.2 ⟨item, hitem, rfl⟩⟩

/-- The handles after `rebuild_replication_streams` are those of a leader if they cover the entries
    that it leaves. -/
theorem replicates_rebuild {node : NID} (hnd : (l.progress.entries.map (·.id)).Nodup)
    (hown : ∀ item ∈ l.progress.entries, item.id = node → ∀ id, item.data.inflight ≠ .snapshot id)
    {closeOld : Bool}
    (hcov : ∀ item ∈ l.progress.entries, item.id ≠ node → ProgressEntry.Covered l.committedVote item
      (some (if closeOld then ⟨item.data.streamId, none⟩
        else (rs item.id).getD ⟨item.data.streamId, none⟩)))
    (howner : closeOld = false → ∀ t h x, rs t = some h → h.snapshotTransmitHandle = some x →
      x.leaderVote = l.committedVote ∧ (x.done = true → R t h.streamId x)) :
    l.Replicates R node
      (rs.runRebuildReplicationStreams (targetsOf node l.progress.entries) closeOld) := by
  unfold Replications.runRebuildReplicationStreams
  refine ⟨hnd, hown, ?_, ?_, ?_⟩
  · intro item hitem hne
    rw [lookup_targetsOf hnd hitem hne]
    exact hcov item hitem hne
  · intro t hd ht
    obtain ⟨sid, hsid, -⟩ := Option.map_eq_some_iff.1 ht
    exact mem_of_lookup_targetsOf hsid
  · intro t hd x ht hx
    obtain ⟨sid, -, rfl⟩ := Option.map_eq_some_iff.1 ht
    cases closeOld with
    | true => cases hx
    | false =>
      cases hold : rs t with
      | none =>
        rw [hold] at hx
        cases hx
      | some h0 =>
        rw [hold] at hx
        exact howner rfl t h0 x hold hx

theorem rebuildReplicationStreams_handlesAfter (e : Engine NID N D) (l : Leader NID N)
    (closeOld : Bool) (rs : Replications NID) {l' : Leader NID N}
    (hl' : (e.rebuildReplicationStreams l closeOld).leader = some l') :
    (e.rebuildReplicationStreams l closeOld).handlesAfter rs =
      (e.handlesAfter rs).runRebuildReplicationStreams
        (targetsOf e.config.id l'.progress.entries) closeOld := by
  obtain rfl := Option.some.inj hl'
  unfold handlesAfter rebuildReplicationStreams pushCommand
  dsimp only
  rw [runOps_append]
  rfl

/-- A leader that closes the streams of the one before it starts with nothing in flight. -/
theorem HandlesAgree.rebuildAll (hnd : (l.progress.entries.map (·.id)).Nodup)
    (hown : ∀ item ∈ l.progress.entries, item.id = e.config.id →
      ∀ id, item.data.inflight ≠ .snapshot id)
    (hcand : ∀ c, e.candidate = some c → c.Ready) :
    (e.rebuildReplicationStreams l true).HandlesAgree R rs := by
  refine ⟨?_, nofun, hcand⟩
  intro l' hl'
  rw [rebuildReplicationStreams_handlesAfter e l true rs hl']
  obtain rfl := Option.some.inj hl'
  refine replicates_rebuild ?_ ?_ ?_ nofun
  · dsimp only
    rw [List.map_map, List.map_congr_left (g := (·.id))]
    · exact hnd
    · intro item _
      dsimp only [Function.comp_apply]
      split <;> rfl
  · intro y hy hself
    obtain ⟨item, hitem, rfl⟩ := List.mem_map.1 hy
    split at hself
    · rename_i hne
      exact absurd hself hne.1
    · rename_i hne
      rw [if_neg hne]
      exact hown item hitem hself
  · intro y hy hne
    refine ⟨none, rfl, fun id hid => ?_⟩
    obtain ⟨item, hitem, rfl⟩ := List.mem_map.1 hy
    split at hid
    · cases hid
    · rename_i hkept
      rw [if_neg hkept] at hne
      exact absurd ⟨hne, rfl⟩ hkept

/-- `rebuild_progresses` keeps the entry of a target that stays, and makes one for a new target. -/
theorem rebuildProgresses_entries (e : Engine NID N D)
    (hnd : (l.progress.entries.map (·.id)).Nodup) : ∃ l',
      (e.rebuildProgresses l).leader = some l' ∧ l'.committedVote = l.committedVote ∧
      (l'.progress.entries.map (·.id)).Nodup ∧ ∀ y ∈ l'.progress.entries, y ∈ l.progress.entries ∨
        y.id ∉ l.progress.entries.map (·.id) ∧ y.data.inflight = .none := by
  refine ⟨_, rfl, rfl, ?_⟩
  dsimp only
  obtain ⟨m, hm⟩ : ∃ m, m = e.state.membershipState.effective.membership := ⟨_, rfl⟩
  rw [← hm]
  obtain ⟨fresh, hfresh⟩ : ∃ fresh, fresh = Leader.freshEntry m m.learnerIds e.state.progressIdGen
    (nextIndex e.state.lastLogId) := ⟨_, rfl⟩
  rw [← hfresh]
  cases hup : l.progress.upgradeQuorumSet m m.learnerIds fresh with
  | none => exact ⟨hnd, fun y hy => Or.inl hy⟩
  | some p =>
    have hid : ∀ id, (fresh id).id = id := fun id => by rw [hfresh]; rfl
    have hperm := VecProgress.upgradeQuorumSet_perm m.nodup_ids_learnerIds hnd hid hup
    refine ⟨?_, fun y hy => ?_⟩
    · refine (hperm.map _).nodup_iff.2 ?_
      rw [List.map_map, List.map_congr_left (g := (·.id)), VecProgress.entries_ids_new hid]
      · exact m.nodup_ids_learnerIds
      · exact fun x _ => VecProgress.inherited_id _ x
    · obtain ⟨x, hx, rfl⟩ := List.mem_map.1 (hperm.mem_iff.1 hy)
      by_cases hmem : x.id ∈ l.progress.entries.map (·.id)
      · left
        obtain ⟨z, hz, hzid⟩ := List.mem_map.1 hmem
        have hget := (VecProgress.tryGet_eq_some hnd).2 ⟨hz, hzid⟩
        unfold VecProgress.inherited
        rw [show l.progress.entries.find? (fun y => decide (y.id = x.id)) = some z from hget]
        exact hz
      · right
        rw [VecProgress.inherited_of_not_mem hmem]
        obtain ⟨id, -, rfl⟩ := List.mem_map.1 hx
        exact ⟨hmem, by rw [hfresh]; rfl⟩

theorem rebuildReplicationStreams_false_leader (e : Engine NID N D) (l : Leader NID N) :
    (e.rebuildReplicationStreams l false).leader = some l := by
  unfold rebuildReplicationStreams pushCommand
  simp only [Bool.false_eq_true, and_false, if_false, List.map_id']

/-- A leader that gets other targets keeps the streams of those that stay. -/
theorem HandlesAgree.rebuildKept (h : e.HandlesAgree R rs) (hl : e.leader = some l)
    (hl' : (e.rebuildProgresses l).leader = some l') :
    ((e.rebuildProgresses l).rebuildReplicationStreams l' false).HandlesAgree R rs := by
  have hrep := h.leader l hl
  obtain ⟨l2, hl2, hvote, hnd, hentries⟩ := rebuildProgresses_entries e hrep.nodup
  obtain rfl := Option.some.inj (hl2.symm.trans hl')
  refine ⟨?_, nofun, h.candidate⟩
  intro l3 hl3
  rw [rebuildReplicationStreams_handlesAfter _ l2 false rs hl3]
  rw [rebuildReplicationStreams_false_leader] at hl3
  obtain rfl := Option.some.inj hl3
  refine replicates_rebuild hnd ?_ ?_ fun _ => by rw [hvote]; exact hrep.owner
  · intro y hy hself id hid
    rcases hentries y hy with hold | ⟨-, hnone⟩
    · exact hrep.own y hold hself id hid
    · rw [hnone] at hid
      cases hid
  · intro y hy hne
    rw [if_neg Bool.false_ne_true, hvote]
    rcases hentries y hy with hold | ⟨hnew, hnone⟩
    · obtain ⟨x, hx, hfly⟩ := hrep.covered y hold hne
      refine ⟨x, ?_, hfly⟩
      rw [show (e.rebuildProgresses l).handlesAfter rs = e.handlesAfter rs from rfl, hx,
        Option.getD_some]
    · refine ⟨none, ?_, fun id hid => by rw [hnone] at hid; cases hid⟩
      rw [show (e.rebuildProgresses l).handlesAfter rs = e.handlesAfter rs from rfl]
      cases hd : e.handlesAfter rs y.id with
      | none => rfl
      | some hd' => exact absurd (hrep.target y.id hd' hd).2 hnew

theorem HandlesAgree.appendMembership (h : e.HandlesAgree R rs) (hl : e.leader = some l)
    (logId : LogId NID) (m : Membership NID N) :
    (e.appendMembership l logId m).HandlesAgree R rs := by
  unfold Engine.appendMembership
  dsimp only
  obtain ⟨e1, he1⟩ : ∃ e1 : Engine NID N D, e1 = { e with state := { e.state with
    membershipState := e.state.membershipState.append ⟨some logId, m⟩ } } := ⟨_, rfl⟩
  rw [← he1]
  have h1 : e1.HandlesAgree R rs := by
    rw [he1]
    exact h.keepsStreams (.ofState _)
  have hl1 : e1.leader = some l := by rw [he1]; exact hl
  have hl2 : (e1.rebuildProgresses l).leader = some _ := rfl
  have h2 := h1.rebuildKept hl1 hl2
  unfold withLeader
  rw [hl2]
  dsimp only
  rw [rebuildReplicationStreams_false_leader]
  exact h2.initiateReplication (rebuildReplicationStreams_false_leader _ _)

theorem HandlesAgree.withLeader (h : e.HandlesAgree R rs)
    {f : Engine NID N D → Leader NID N → Engine NID N D}
    (hf : ∀ l, e.leader = some l → (f e l).HandlesAgree R rs) :
    (e.withLeader f).HandlesAgree R rs := by
  unfold Engine.withLeader
  split
  · rename_i l hl
    exact hf l hl
  · exact h

theorem HandlesAgree.leaderAppendEntries (h : e.HandlesAgree R rs) (hl : e.leader = some l)
    (payloads : List (Payload NID N D)) : (e.leaderAppendEntries l payloads).HandlesAgree R rs := by
  unfold Engine.leaderAppendEntries
  split
  · exact h
  · rename_i logIds l1 hassign
    dsimp only
    obtain ⟨entries, hentries⟩ : ∃ entries : List (Entry NID N D), entries =
      List.zipWith (fun logId payload => ⟨logId, payload⟩) logIds.toList payloads := ⟨_, rfl⟩
    rw [← hentries]
    obtain ⟨hvote, hprogress⟩ : l1.committedVote = l.committedVote ∧ l1.progress = l.progress := by
      unfold Leader.assignLogIds at hassign
      split at hassign
      · cases hassign
      · cases hassign
        exact ⟨rfl, rfl⟩
    have h1 : (e.leaderExtendLog l1 entries).HandlesAgree R rs :=
      h.keepsStreams ((KeepsStreams.ofLeader hl hvote hprogress).trans
        ((KeepsStreams.ofState _).trans ((acceptLogIo_keepsStreams _ _).trans
          (KeepsStreams.push fun _ => rfl))))
    have hl1 : (e.leaderExtendLog l1 entries).leader = some l1 := rfl
    suffices h2 : HandlesAgree R rs _ from h2.withLeader fun l2 hl2 => h2.initiateReplication hl2
    split
    · exact h1.appendMembership hl1 _ _
    · exact h1

/-! ### Votes and elections -/

/-- A new leader has one entry for each target, and nothing in flight. -/
theorem leaderNew_entries (mode : LeaderIdMode) (now : Nat) (V : LeaderId NID)
    {quorumSet : Membership NID N} {learnerIds : List NID}
    (hnd : (quorumSet.ids ++ learnerIds).Nodup) (last : Option (LeaderLogIds NID)) (gen : Nat) :
    ((Leader.new mode now V quorumSet learnerIds last gen).progress.entries.map (·.id)).Nodup ∧
      ∀ item ∈ (Leader.new mode now V quorumSet learnerIds last gen).progress.entries,
        item.data.inflight = .none := by
  unfold Leader.new
  dsimp only
  refine ⟨?_, ?_⟩
  · rw [VecProgress.entries_ids_new fun _ => rfl]
    exact hnd
  · intro item hitem
    obtain ⟨id, -, rfl⟩ := List.mem_map.1 hitem
    rfl

/-- A new leader closes all streams and opens its own. -/
theorem HandlesAgree.rebuildNew {mode : LeaderIdMode} {now : Nat} {V : LeaderId NID}
    {quorumSet : Membership NID N} {learnerIds : List NID} {last : Option (LeaderLogIds NID)}
    {gen : Nat} (hnd : (quorumSet.ids ++ learnerIds).Nodup)
    (hcand : ∀ c, e.candidate = some c → c.Ready) :
    (e.rebuildReplicationStreams (Leader.new mode now V quorumSet learnerIds last gen)
      true).HandlesAgree R rs := by
  obtain ⟨hids, hidle⟩ := leaderNew_entries mode now V hnd last gen
  refine HandlesAgree.rebuildAll hids ?_ hcand
  intro item hitem _ id hid
  rw [hidle item hitem] at hid
  cases hid

theorem HandlesAgree.becomeLeader (h : e.HandlesAgree R rs) (now : Nat) :
    (e.becomeLeader now).HandlesAgree R rs := by
  unfold Engine.becomeLeader
  split
  · exact h
  · dsimp only
    obtain ⟨l, hl⟩ : ∃ l, l = (e.newLeader now).2 := ⟨_, rfl⟩
    obtain ⟨e1, he1⟩ : ∃ e1 : Engine NID N D, e1 = (({ (e.newLeader now).1 with leader := some l } :
      Engine NID N D).acceptLogIo (.newLogIo l.committedVote l.lastLogId)).pushCommand
        (.updateIOProgress none (.newLogIo l.committedVote l.lastLogId)) := ⟨_, rfl⟩
    rw [← hl, ← he1]
    have hl1 : e1.leader = some l := by rw [he1]; rfl
    have h2 : (e1.rebuildReplicationStreams l true).HandlesAgree R rs := by
      rw [hl]
      refine HandlesAgree.rebuildNew (Membership.nodup_ids_learnerIds _) ?_
      rw [he1]
      exact h.candidate
    have hopen : e1.withLeader (fun e l => e.rebuildReplicationStreams l true) =
        e1.rebuildReplicationStreams l true := by
      unfold Engine.withLeader
      rw [hl1]
    rw [hopen]
    split
    · refine HandlesAgree.withLeader h2 fun l2 hl2 => ?_
      exact h2.leaderAppendEntries hl2 _
    · exact h2.withLeader fun l2 hl2 => h2.initiateReplication hl2

theorem HandlesAgree.becomeFollowing (h : e.HandlesAgree R rs) :
    e.becomeFollowing.HandlesAgree R rs := by
  unfold Engine.becomeFollowing
  dsimp only
  split
  · refine ⟨nofun, fun _ t => ?_, nofun⟩
    unfold handlesAfter pushCommand
    dsimp only
    rw [runOps_append]
    rfl
  · rename_i hnot
    refine ⟨nofun, fun _ t => ?_, nofun⟩
    -- nobody was leading: there was no handle before
    have hnone : e.leader = none := by
      cases hl : e.leader with
      | none => rfl
      | some l =>
        rw [hl] at hnot
        exact absurd rfl hnot
    exact h.follower hnone t

theorem HandlesAgree.updateInternalServerState (h : e.HandlesAgree R rs) (now : Nat) :
    (e.updateInternalServerState now).HandlesAgree R rs := by
  unfold Engine.updateInternalServerState
  split
  · exact h.becomeLeader now
  split
  · exact h
  · exact h.becomeFollowing

theorem adoptVote_keepsStreams (e : Engine NID N D) (now : Nat) (vote : Vote NID) :
    KeepsStreams e (e.adoptVote now vote) := by
  unfold adoptVote
  dsimp only
  split
  · exact (KeepsStreams.ofState _).trans ((acceptLogIo_keepsStreams _ _).trans (.push fun _ => rfl))
  · exact .ofState _

theorem HandlesAgree.updateVote (h : e.HandlesAgree R rs) (now : Nat) (vote : Vote NID) :
    (e.updateVote now vote).1.HandlesAgree R rs := by
  unfold Engine.updateVote
  split
  · exact (h.keepsStreams (adoptVote_keepsStreams e now vote)).updateInternalServerState now
  · exact h

/-- A command that has nothing to do with replication. -/
theorem HandlesAgree.push (h : e.HandlesAgree R rs) {c : Command NID N D}
    (hc : ∀ rs : Replications NID, rs.step c = rs) : (e.pushCommand c).HandlesAgree R rs :=
  h.keepsStreams (.push hc)

theorem HandlesAgree.doElect (h : e.HandlesAgree R rs) (now : Nat) (leadershipTransfer : Bool) :
    (e.doElect now leadershipTransfer).HandlesAgree R rs := by
  unfold Engine.doElect
  dsimp only
  have h0 : ({ e with preCandidate := none } : Engine NID N D).HandlesAgree R rs :=
    ⟨h.leader, h.follower, h.candidate⟩
  split
  · exact h0
  · refine HandlesAgree.push (HandlesAgree.updateVote ?_ now _) fun _ => rfl
    refine ⟨h.leader, h.follower, ?_⟩
    rintro c ⟨⟩
    exact ⟨Membership.nodup_ids_learnerIds _, Nat.succ_ne_zero _⟩

theorem HandlesAgree.withPreCandidate (h : e.HandlesAgree R rs) (c : Option (Candidate NID N)) :
    ({ e with preCandidate := c } : Engine NID N D).HandlesAgree R rs :=
  ⟨h.leader, h.follower, h.candidate⟩

theorem HandlesAgree.preElect (h : e.HandlesAgree R rs) (now : Nat) :
    (e.preElect now).HandlesAgree R rs := by
  unfold Engine.preElect
  split
  · exact h
  · dsimp only
    split
    · exact (h.withPreCandidate _).doElect now false
    · exact (h.withPreCandidate _).push fun _ => rfl

theorem HandlesAgree.handleVoteReq (h : e.HandlesAgree R rs) (now : Nat) (req : VoteRequest NID) :
    (e.handleVoteReq now req).1.HandlesAgree R rs := by
  unfold Engine.handleVoteReq
  split
  · exact h
  · exact h.updateVote now req.vote

theorem HandlesAgree.startLeading {now : Nat} {mode : LeaderIdMode} {V : LeaderId NID}
    {quorumSet : Membership NID N} {learnerIds : List NID} {last : Option (LeaderLogIds NID)}
    {gen : Nat} (hnd : (quorumSet.ids ++ learnerIds).Nodup)
    (hcand : ∀ c, e.candidate = some c → c.Ready)
    (he : e.startLeading now (Leader.new mode now V quorumSet learnerIds last gen) = some e') :
    e'.HandlesAgree R rs := by
  unfold Engine.startLeading at he
  dsimp only at he
  obtain ⟨l2, hl2, rfl⟩ := Option.map_eq_some_iff.1 he
  refine HandlesAgree.leaderAppendEntries ?_ hl2 _
  exact ((HandlesAgree.rebuildNew hnd hcand).updateVote now _).keepsStreams
    (acceptLogIo_keepsStreams _ _)

theorem HandlesAgree.establishLeader (h : e.HandlesAgree R rs) {now : Nat} {c : Candidate NID N}
    (hc : c.Ready) (he : e.establishLeader now c = some e') : e'.HandlesAgree R rs := by
  have h0 : ({ e with candidate := none } : Engine NID N D).HandlesAgree R rs :=
    ⟨h.leader, h.follower, nofun⟩
  unfold Engine.establishLeader at he
  split at he
  · rename_i e1 hest
    obtain rfl := Option.some.inj he
    unfold establish at hest
    split at hest
    · obtain ⟨rfl, -⟩ := Prod.mk.inj hest
      exact h0
    · cases hest
  · rename_i e1 l hest
    unfold establish at hest
    split at hest
    · cases hest
    · cases hest
      refine HandlesAgree.startLeading hc.nodup ?_ he
      exact fun c hc => by cases hc

theorem HandlesAgree.handleRejectedVoteResp (h : e.HandlesAgree R rs) (now : Nat)
    (resp : VoteResponse NID) (isPreVote : Bool) :
    (e.handleRejectedVoteResp now resp isPreVote).HandlesAgree R rs := by
  have hseen : (if e.state.lastLogId < resp.lastLogId then { e with seenGreaterLog := true }
      else e).HandlesAgree R rs := by
    split
    · exact ⟨h.leader, h.follower, h.candidate⟩
    · exact h
  unfold Engine.handleRejectedVoteResp
  dsimp only
  obtain ⟨e1, he1⟩ : ∃ e1, e1 = if e.state.lastLogId < resp.lastLogId then
    { e with seenGreaterLog := true } else e := ⟨_, rfl⟩
  rw [← he1] at hseen ⊢
  split
  · exact hseen.updateVote now _
  · exact hseen

theorem ready_grantBy {c : Candidate NID N} (h : c.Ready) (target : NID) :
    (c.grantBy target).1.Ready := by
  unfold Candidate.grantBy
  split
  · exact ⟨h.nodup, h.term⟩
  · exact h

theorem HandlesAgree.handleVoteResp (h : e.HandlesAgree R rs) {now : Nat} {target : NID}
    {resp : VoteResponse NID} (he : e.handleVoteResp now target resp = some e') :
    e'.HandlesAgree R rs := by
  unfold Engine.handleVoteResp at he
  split at he
  · obtain rfl := Option.some.inj he
    exact h
  · rename_i c hc
    have hready := ready_grantBy (h.candidate c hc) target
    split at he
    · dsimp only at he
      split at he
      · exact h.establishLeader hready he
      · obtain rfl := Option.some.inj he
        refine ⟨h.leader, h.follower, ?_⟩
        rintro c' ⟨⟩
        exact hready
    · obtain rfl := Option.some.inj he
      exact h.handleRejectedVoteResp now resp false

theorem HandlesAgree.handlePreVoteResp (h : e.HandlesAgree R rs) (now : Nat) (target : NID)
    (resp : VoteResponse NID) : (e.handlePreVoteResp now target resp).HandlesAgree R rs := by
  unfold Engine.handlePreVoteResp
  split
  · exact h
  · split
    · dsimp only
      split
      · exact (h.withPreCandidate _).doElect now false
      · exact h.withPreCandidate _
    · exact h.handleRejectedVoteResp now resp true

/-! ### Requests of a leader, and starting -/

theorem HandlesAgree.handleAppendEntries (h : e.HandlesAgree R rs) (now : Nat)
    (ctx : StreamCtx NID) (vote : Vote NID) (prev : Option (LogId NID))
    (entries : List (Entry NID N D)) :
    (e.handleAppendEntries now ctx vote prev entries).HandlesAgree R rs := by
  have hvote := h.updateVote now vote
  have happend : (e.appendEntries now vote prev entries).1.HandlesAgree R rs := by
    unfold Engine.appendEntries
    split
    · rename_i e1 he1
      rw [he1] at hvote
      exact hvote
    · rename_i e1 he1
      rw [he1] at hvote
      have hlog := hvote.keepsStreams (ensureLogConsecutive_keepsStreams e1 prev)
      split
      · rename_i e2 err he2
        rw [he2] at hlog
        exact hlog
      · rename_i e2 he2
        rw [he2] at hlog
        exact hlog.keepsStreams (followingAppendEntries_keepsStreams e2 prev entries)
  exact happend.push fun _ => rfl

theorem HandlesAgree.handleInstallFullSnapshot (h : e.HandlesAgree R rs) {now : Nat}
    {ctx : StreamCtx NID} {vote : Vote NID} {snapshot : Snapshot NID N D}
    (he : e.handleInstallFullSnapshot now ctx vote snapshot = some e') : e'.HandlesAgree R rs := by
  have hvote := h.updateVote now vote
  unfold Engine.handleInstallFullSnapshot at he
  dsimp only at he
  split at he
  · rename_i e1 he1
    rw [he1] at hvote
    obtain rfl := Option.some.inj he
    exact hvote.push fun _ => rfl
  · rename_i e1 he1
    rw [he1] at hvote
    obtain ⟨⟨e2, condition⟩, he2, rfl⟩ := Option.map_eq_some_iff.1 he
    have hinstall := hvote.keepsStreams (installFullSnapshot_keepsStreams he2)
    exact hinstall.push fun _ => rfl

/-- A node that starts has no streams. -/
theorem handlesAgree_startup (state : RaftState NID N) (config : EngineConfig NID) (now : Nat) :
    ((Engine.new state config : Engine NID N D).startup now).HandlesAgree R fun _ => none := by
  have hnew : (Engine.new state config : Engine NID N D).HandlesAgree R fun _ => none :=
    ⟨nofun, fun _ _ => rfl, nofun⟩
  unfold startup
  split
  · split
    · exact hnew.updateInternalServerState now
    · exact hnew.keepsStreams (.ofState _)
  · exact hnew

/-! ### Transmissions that end -/

/-- The handle of one target is replaced by one with the same stream and another transmitter. The
    queue of commands does away with the difference, or leaves both as they are. -/
theorem handlesAfter_swap {rs' : Replications NID} {t : NID} {streamId : Nat}
    {x x' : Option (SnapshotTransmitterHandle NID)} (e : Engine NID N D)
    (hrs : rs t = some ⟨streamId, x⟩) (hrs' : rs' t = some ⟨streamId, x'⟩)
    (hother : ∀ t', t' ≠ t → rs' t' = rs t') :
    e.handlesAfter rs' = e.handlesAfter rs ∨ e.handlesAfter rs t = some ⟨streamId, x⟩ ∧
      e.handlesAfter rs' = Function.update (e.handlesAfter rs) t (some ⟨streamId, x'⟩) := by
  have hrest : ∀ t', t' ≠ t → e.handlesAfter rs' t' = e.handlesAfter rs t' := fun t' ht =>
    Replications.runOps_congr (hother t' ht)
  have hswap : e.handlesAfter rs t = e.handlesAfter rs' t ∨
      e.handlesAfter rs t = rs t ∧ e.handlesAfter rs' t = rs' t := Replications.runOps_swap hrs hrs'
  rcases hswap with heq | ⟨heq, heq'⟩
  · left
    funext t'
    by_cases ht : t' = t
    · subst ht
      exact heq.symm
    · exact hrest t' ht
  · right
    refine ⟨heq.trans hrs, funext fun t' => ?_⟩
    by_cases ht : t' = t
    · subst ht
      rw [Function.update_self]
      exact heq'.trans hrs'
    · rw [Function.update_of_ne ht]
      exact hrest t' ht

end Engine

/-- Another transmitter for one target, as long as it is that of a snapshot in flight. -/
theorem Leader.Replicates.swap {node : NID} {rs : Replications NID} {l : Leader NID N}
    (h : l.Replicates R node rs) {t : NID} {streamId : Nat}
    {x x' : Option (SnapshotTransmitterHandle NID)} (ht : rs t = some ⟨streamId, x⟩)
    (hfly : ∀ item ∈ l.progress.entries, item.id = t → ∀ id, item.data.inflight = .snapshot id →
      ∃ done, x' = some ⟨l.committedVote, id, done⟩)
    (howner : ∀ y, x' = some y → y.leaderVote = l.committedVote ∧
      (y.done = true → R t streamId y)) :
    l.Replicates R node (Function.update rs t (some ⟨streamId, x'⟩)) := by
  refine ⟨h.nodup, h.own, ?_, ?_, ?_⟩
  · intro item hitem hne
    by_cases hid : item.id = t
    · obtain ⟨z, hz, -⟩ := h.covered item hitem hne
      rw [hid, ht] at hz
      have hstream : streamId = item.data.streamId :=
        congrArg ReplicationHandle.streamId (Option.some.inj hz)
      rw [hid, Function.update_self]
      exact ⟨x', by rw [hstream], hfly item hitem hid⟩
    · rw [Function.update_of_ne hid]
      exact h.covered item hitem hne
  · intro t' hd ht'
    by_cases heq : t' = t
    · subst heq
      exact h.target t' _ ht
    · rw [Function.update_of_ne heq] at ht'
      exact h.target t' hd ht'
  · intro t' hd y ht' hy
    by_cases heq : t' = t
    · subst heq
      rw [Function.update_self] at ht'
      obtain rfl := Option.some.inj ht'
      exact howner y hy
    · rw [Function.update_of_ne heq] at ht'
      exact h.owner t' hd y ht' hy

end ZenohRaft
