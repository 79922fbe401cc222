/-
  Snapshots in flight are not cancelled.

  `RaftCore` drops the handle of a snapshot transmitter, and so cancels it, when it starts another
  one for the target, when it closes the stream, and when it hears of the replication to the target
  with an in-flight id. The last of these comes before the engine looks at the stream id and at the
  in-flight id of the report (`RaftCore.handleNotification`).

  * `RaftCore` is a node with the handles of its replication streams and with the notifications
    that its replication tasks have sent. A task may report at any time, also after its stream is
    closed.
  * `RaftCore.Transmitting`: the transmission of a snapshot is still to be started, it is running,
    or its result waits to be processed.
  * `RaftCore.KeepsSnapshot`: a report that is processed while the snapshot in flight has its
    transmitter is for the same stream, and it is an error or the acknowledgement of that snapshot.
  * `Cores.transmitting_of_run`: if all reports are like this, then in every state of a run every
    snapshot in flight is being transmitted.
  * `Rejoined.cancelled`: a report of a stream that was closed before the target was added again
    cancels the transmission of the snapshot that is in flight for it.
-/
import ZenohRaft.Election.Forming
import ZenohRaft.Election.Safety
import ZenohRaft.Lib.PartialRun
import ZenohRaft.Replication.Handles

namespace ZenohRaft

open Lib

variable {NID N D : Type} [LinearOrder NID]

/-! ## Nodes and their handles -/

namespace Replications

/-- A `ReplicationProgress` with an in-flight id clears the handle of the transmitter. -/
def clear (rs : Replications NID) (target : NID) : Replications NID :=
  Function.update rs target ((rs target).map fun h => { h with snapshotTransmitHandle := none })

/-- The transmitter that has sent the request `ctx` ends. -/
def finish (rs : Replications NID) (ctx : StreamCtx NID) : Replications NID :=
  Function.update rs ctx.target ((rs ctx.target).map fun h => { h with
    snapshotTransmitHandle := h.snapshotTransmitHandle.map fun x =>
      if h.streamId = ctx.streamId ∧ x.leaderVote = ctx.leaderVote ∧
        ctx.inflightId = some x.inflightId then { x with done := true } else x })

/-- Whether a command starts a transmission for a target without a stream. -/
def lacksStream (rs : Replications NID) : Command NID N D → Bool
  | .replicateSnapshot _ target _ => (rs target).isNone
  | _ => false

end Replications

/-- The notifications about replication, with the context of the request that they are about. -/
inductive Notification (NID : Type) where
  | replicationProgress (ctx : StreamCtx NID) (result : Engine.ReplicationResult NID)
  | higherVote (ctx : StreamCtx NID) (higher : Vote NID)

/-- What a replication task, a heartbeat worker or a snapshot transmitter reports of a response, the
    clock apart. -/
def Notification.ofResponse (mode : LeaderIdMode) : Message NID N D → Option (Notification NID)
  | .appendEntriesResp _ (.ok none) => none
  | .appendEntriesResp ctx (.ok (some matching)) =>
    if ctx.heartbeat then none else some (.replicationProgress ctx (.matching (some matching)))
  | .appendEntriesResp ctx (.error (.conflict expect)) =>
    some (.replicationProgress ctx (.conflict expect))
  | .appendEntriesResp ctx (.error (.higherVote higher)) => some (.higherVote ctx higher)
  | .installFullSnapshotResp ctx lastLogId vote =>
    if vote.gt mode ⟨ctx.leaderVote, true⟩ then some (.higherVote ctx vote)
    else some (.replicationProgress ctx (.matching lastLogId))
  | _ => none

/-- The context of the request that a response answers. -/
def Message.responseCtx : Message NID N D → Option (StreamCtx NID)
  | .appendEntriesResp ctx _ => some ctx
  | .installFullSnapshotResp ctx _ _ => some ctx
  | _ => none

/-- `RaftCore`: a node, the handles of its replication streams and the notifications of its
    replication tasks that wait to be processed. -/
structure RaftCore (NID N D : Type) where
  node : Node NID N D
  replications : Replications NID
  notifications : List (Notification NID)

/-- Whether an event is left to the notifications. -/
def Event.isReport : Event NID N D → Bool
  | .receive m => m.responseCtx.isSome
  | .replicationError _ _ _ => true
  | _ => false

namespace RaftCore

/-- `RaftCore::handle_notification`, for a report about replication. -/
def handleNotification (s : RaftCore NID N D) (now : Nat) : Notification NID → RaftCore NID N D
  | .replicationProgress ctx result =>
    { s with
      replications :=
        if ctx.inflightId.isSome then s.replications.clear ctx.target else s.replications
      node := s.node.handleReplicationProgress ctx result }
  | .higherVote ctx higher =>
    { s with node := s.node.handleHigherVote now ctx.leaderVote higher }

/-- A task hands the report of a response to `RaftCore`. A snapshot transmitter ends with it. -/
def report (s : RaftCore NID N D) (m : Message NID N D) (ntf : Notification NID) :
    RaftCore NID N D :=
  { s with
    notifications := s.notifications ++ [ntf]
    replications :=
      match m with
      | .installFullSnapshotResp ctx _ _ => s.replications.finish ctx
      | _ => s.replications }

/-- What a command does with the handles, where `n` is the node after it. A transmission for a
    target without a stream stops the node. -/
def afterCommand (s : RaftCore NID N D) (c : Command NID N D) (n : Node NID N D) :
    RaftCore NID N D :=
  { s with
    node := if s.replications.lacksStream c then { n with stopped := true } else n
    replications := s.replications.step c }

/-- The core after an event of its node, which is `n` then. A restart loses the tasks. -/
def afterEvent (s : RaftCore NID N D) (n : Node NID N D) : Event NID N D → RaftCore NID N D
  | .runCommand =>
    match s.node.engine.output.commands with
    | c :: _ => s.afterCommand c n
    | [] => { s with node := n }
  | .restart _ _ => ⟨n, fun _ => none, []⟩
  | _ => { s with node := n }

end RaftCore

/-! ### The events of a node -/

namespace Node

variable {n n' : Node NID N D} {rs : Replications NID} {now : Nat}
variable {R : NID → Nat → SnapshotTransmitterHandle NID → Prop}

/-- A command changes nothing of the engine but its state. -/
theorem execCommand_keepsStreams {c : Command NID N D} (h : n.execCommand c = some n') :
    n.engine.KeepsStreams n'.engine := by
  cases c with
  | stateMachine command =>
    obtain rfl := Option.some.inj h
    unfold runStateMachine
    cases command with
    | installFullSnapshot io snapshot =>
      dsimp only
      split
      · exact .ofState _
      · exact .ofState _
    | buildSnapshot => exact .refl _
    | apply first last => exact .refl _
  | saveCommittedAndApply alreadyApplied upto =>
    obtain rfl := Option.some.inj h
    unfold runSaveCommittedAndApply
    dsimp only
    split
    · exact .ofState _
    · exact .ofState _
  | saveVote vote =>
    unfold execCommand at h
    dsimp only at h
    split at h
    · obtain rfl := Option.some.inj h
      unfold runSaveVote
      dsimp only
      split
      · exact .ofState _
      · exact .ofState _
    · cases h
  | purgeLog upto =>
    unfold execCommand at h
    dsimp only at h
    split at h
    · obtain rfl := Option.some.inj h
      exact .ofState _
    · cases h
  | truncateLog after =>
    unfold execCommand at h
    dsimp only at h
    split at h
    · obtain rfl := Option.some.inj h
      exact .refl _
    · cases h
  | updateIOProgress condition io =>
    obtain rfl := Option.some.inj h
    exact .ofState _
  | appendEntries committedVote entries =>
    obtain rfl := Option.some.inj h
    exact .ofState _
  | _ =>
    obtain rfl := Option.some.inj h
    exact .refl _

theorem afterEngine_handles (h : n.engine.HandlesAgree R rs) {r : Option (Engine NID N D)}
    (hr : ∀ e', r = some e' → e'.HandlesAgree R rs) :
    (n.afterEngine r).engine.HandlesAgree R rs := by
  cases r with
  | none => exact h
  | some e' => exact hr e' rfl

/-- A command is taken from the queue: the handles that the queue will leave stay the same. -/
theorem runCommand_handles {c : Command NID N D} {cs : List (Command NID N D)}
    (h : n.engine.HandlesAgree R rs) (hc : n.engine.output.commands = c :: cs)
    (he : n.runCommand = some n') : n'.engine.HandlesAgree R (rs.step c) := by
  have hpop : (n.withCommands cs).engine.HandlesAgree R (rs.step c) := by
    have hrun : (n.withCommands cs).engine.handlesAfter (rs.step c) = n.engine.handlesAfter rs := by
      unfold Engine.handlesAfter
      rw [hc]
      rfl
    refine ⟨fun l hl => ?_, fun hnone => ?_, h.candidate⟩
    · rw [hrun]
      exact h.leader l hl
    · rw [hrun]
      exact h.follower hnone
  unfold runCommand at he
  rw [hc] at he
  dsimp only at he
  split at he
  · exact hpop.keepsStreams (execCommand_keepsStreams he)
  · split at he
    · rename_i cond resp _
      obtain rfl := Option.some.inj he
      exact hpop.keepsStreams ⟨rfl, rfl, rfl, fun _ => rfl⟩
    · cases he

theorem handleVoteResponse_handles (h : n.engine.HandlesAgree R rs) (isPreVote : Bool) (src : NID)
    (candidateVote : LeaderId NID) (resp : VoteResponse NID) :
    (n.handleVoteResponse now isPreVote src candidateVote resp).engine.HandlesAgree R rs := by
  unfold handleVoteResponse
  cases isPreVote with
  | true =>
    simp only [if_true]
    split
    · exact h.handlePreVoteResp now src resp
    · exact h
  | false =>
    simp only [Bool.false_eq_true, if_false]
    split
    · exact afterEngine_handles h fun e' he' => h.handleVoteResp he'
    · exact h

theorem handleTransferLeader_handles (h : n.engine.HandlesAgree R rs) (vote : LeaderId NID)
    (target : NID) (lastLogId : Option (LogId NID)) :
    (n.handleTransferLeader now vote target lastLogId).engine.HandlesAgree R rs := by
  unfold handleTransferLeader
  dsimp only
  split
  · have hlease := h.keepsStreams (.ofState { n.engine.state with
      vote := n.engine.state.vote.disableLease })
    split
    · exact hlease.doElect now true
    · exact hlease
  · exact h

/-- A message other than a response about replication. -/
theorem receive_handles (h : n.engine.HandlesAgree R rs) {m : Message NID N D}
    (hm : m.responseCtx = none) (he : n.receive now m = some n') :
    n'.engine.HandlesAgree R rs := by
  cases m with
  | vote isPreVote src dst req =>
    cases isPreVote with
    | true =>
      obtain rfl := Option.some.inj he
      exact h.push fun _ => rfl
    | false =>
      obtain rfl := Option.some.inj he
      exact (h.handleVoteReq now req).push fun _ => rfl
  | voteResp isPreVote src dst candidateVote resp =>
    obtain rfl := Option.some.inj he
    exact handleVoteResponse_handles h isPreVote src candidateVote resp
  | appendEntries ctx req =>
    obtain rfl := Option.some.inj he
    exact (h.handleAppendEntries now ctx req.vote req.prevLogId req.entries).keepsStreams
      (.ofState _)
  | appendEntriesResp ctx result => cases hm
  | installFullSnapshot ctx vote snapshot =>
    obtain rfl := Option.some.inj he
    exact afterEngine_handles h fun e' he' => h.handleInstallFullSnapshot he'
  | installFullSnapshotResp ctx lastLogId vote => cases hm
  | transferLeader dst vote target lastLogId =>
    obtain rfl := Option.some.inj he
    exact handleTransferLeader_handles h vote target lastLogId
  | initializeResp node error => cases he

theorem handleLocalIo_handles (h : n.engine.HandlesAgree R rs) (io : IOId NID) :
    (n.handleLocalIo io).engine.HandlesAgree R rs := by
  unfold handleLocalIo
  dsimp only
  obtain ⟨n1, hn1⟩ : ∃ n1, n1 = n.mapIo fun s => { s with
    logProgress := s.logProgress.tryFlush (IOId.gt n.engine.config.mode) io } := ⟨_, rfl⟩
  have hio : n1.engine.HandlesAgree R rs := by
    rw [hn1]
    exact h.keepsStreams (.ofState _)
  rw [← hn1]
  split
  · rename_i l hl
    split
    · exact afterEngine_handles hio fun e' he' => hio.updateLocalProgress hl he'
    · exact hio
  · exact hio

theorem handleStateMachineResult_handles (h : n.engine.HandlesAgree R rs) (r : SmResponse NID N) :
    (n.handleStateMachineResult r).engine.HandlesAgree R rs := by
  cases r with
  | buildSnapshotDone m => exact h.keepsStreams (Engine.onBuildingSnapshotDone_keepsStreams _ m)
  | installSnapshot io m =>
    unfold handleStateMachineResult
    dsimp only
    split
    · exact h.keepsStreams (.ofState _)
    · exact h.keepsStreams (.ofState _)
  | apply lastApplied => exact h.keepsStreams (.ofState _)

theorem writeEntries_handles (h : n.engine.HandlesAgree R rs) (payloads : List (Payload NID N D)) :
    (n.writeEntries now payloads).engine.HandlesAgree R rs := by
  unfold writeEntries
  split
  · rename_i l hl
    obtain ⟨hl, -⟩ := Option.filter_eq_some_iff.1 hl
    exact h.leaderAppendEntries (ensureLeaderHandler_some hl) payloads
  · exact h

theorem changeMembership_handles (h : n.engine.HandlesAgree R rs) (changes : ChangeMembers NID N)
    (retain : Bool) : (n.changeMembership now changes retain).engine.HandlesAgree R rs := by
  unfold changeMembership
  repeat' split
  · exact h
  · exact h
  · exact h
  · exact writeEntries_handles h _

theorem appendMembership_handles [DecidableEq N] (h : n.engine.HandlesAgree R rs)
    (m : Membership NID N) : (n.appendMembership now m).engine.HandlesAgree R rs := by
  unfold appendMembership
  repeat' split
  · exact h
  · exact h
  · exact h
  · exact writeEntries_handles h _

theorem handleInitialize_handles (h : n.engine.HandlesAgree R rs) (memberNodes : NodeMap NID N) :
    (n.handleInitialize now memberNodes).engine.HandlesAgree R rs := by
  unfold handleInitialize Engine.initializeNode
  cases n.engine.checkInitialize (.ofNodes memberNodes) with
  | some err => exact h.push fun _ => rfl
  | none =>
    refine Engine.HandlesAgree.doElect ?_ now false
    refine Engine.HandlesAgree.push ?_ fun _ => rfl
    refine Engine.HandlesAgree.keepsStreams ?_ (Engine.doAppendEntries_keepsStreams _ _)
    exact h.keepsStreams (.ofState _)

/-- What waits for a response is not about the handles. -/
theorem sendSatisfiedOnLogIo_keepsStreams (he : n.sendSatisfiedOnLogIo = some n') :
    n.engine.KeepsStreams n'.engine := by
  unfold sendSatisfiedOnLogIo at he
  dsimp only at he
  split at he
  · cases he
  · split at he
    · obtain rfl := Option.some.inj he
      exact ⟨rfl, rfl, rfl, fun _ => rfl⟩
    · cases he

theorem sendSatisfiedOnSnapshot_keepsStreams (he : n.sendSatisfiedOnSnapshot = some n') :
    n.engine.KeepsStreams n'.engine := by
  unfold sendSatisfiedOnSnapshot at he
  dsimp only at he
  split at he
  · cases he
  · split at he
    · obtain rfl := Option.some.inj he
      exact ⟨rfl, rfl, rfl, fun _ => rfl⟩
    · cases he

omit [LinearOrder NID] in
theorem workerLoop_engine (he : n.workerLoop = some n') : n'.engine = n.engine := by
  unfold workerLoop at he
  split at he
  · cases he
  · obtain rfl := Option.some.inj he
    rfl
  · obtain rfl := Option.some.inj he
    rfl
  · split at he
    · obtain rfl := Option.some.inj he
      rfl
    · obtain rfl := Option.some.inj he
      rfl

theorem receiveClock_handles (h : n.engine.HandlesAgree R rs) {m : Message NID N D}
    (he : n.receiveClock m = some n') : n'.engine.HandlesAgree R rs := by
  have hclock : ∀ ctx, (n.handleHeartbeatProgress ctx).engine.HandlesAgree R rs := by
    intro ctx
    exact h.withLeader
      (f := fun e l => e.tryUpdateLeaderClock l ctx.streamId ctx.target ctx.sendingTime) fun l hl =>
        h.keepsStreams (Engine.tryUpdateLeaderClock_keepsStreams hl _ _ _)
  unfold receiveClock at he
  repeat' split at he
  all_goals cases he
  all_goals exact hclock _

theorem sendOnStream_handles (h : n.engine.HandlesAgree R rs) (hsend : n.SendsOnStream n') :
    n'.engine.HandlesAgree R rs := by
  cases hsend <;> exact h

/-- An event other than a command, a report or a restart. -/
theorem perform_handles [DecidableEq N] (h : n.engine.HandlesAgree R rs) {ev : Event NID N D}
    (hreport : ev.isReport = false) (hcmd : ev ≠ .runCommand) (hrestart : ev.isRestart = false)
    (he : n.perform now ev = some n') : n'.engine.HandlesAgree R rs := by
  cases ev with
  | receive m =>
    exact receive_handles h
      (Option.not_isSome_iff_eq_none.1 (Bool.not_eq_true _ ▸ hreport)) he
  | receiveClock m => exact receiveClock_handles h he
  | runCommand => exact absurd rfl hcmd
  | runProgressDrivenCommand =>
    have he : n.runProgressDrivenCommand = some n' := he
    unfold runProgressDrivenCommand at he
    split at he
    · obtain ⟨c, -, hexec⟩ := Option.bind_eq_some_iff.1 he
      exact h.keepsStreams (execCommand_keepsStreams hexec)
    · cases he
  | sendSatisfiedOnLogIo => exact h.keepsStreams (sendSatisfiedOnLogIo_keepsStreams he)
  | sendSatisfiedOnSnapshot => exact h.keepsStreams (sendSatisfiedOnSnapshot_keepsStreams he)
  | flush =>
    have he : n.flush = some n' := he
    unfold flush at he
    split at he
    · cases he
    · obtain rfl := Option.some.inj he
      exact h
  | workerLoop =>
    rw [workerLoop_engine he]
    exact h
  | localIo io =>
    unfold perform at he
    dsimp only at he
    split at he
    · obtain rfl := Option.some.inj he
      exact handleLocalIo_handles h io
    · cases he
  | stateMachineResult =>
    unfold perform at he
    dsimp only at he
    split at he
    · cases he
    · rename_i r rest _
      obtain rfl := Option.some.inj he
      exact handleStateMachineResult_handles (n := { n with smDone := rest }) h r
  | elect =>
    obtain rfl := Option.some.inj he
    exact h.doElect now false
  | preElect =>
    obtain rfl := Option.some.inj he
    exact h.preElect now
  | triggerSnapshot =>
    obtain rfl := Option.some.inj he
    exact h.keepsStreams (Engine.triggerSnapshot_keepsStreams _)
  | purgeLog index =>
    obtain rfl := Option.some.inj he
    exact afterEngine_handles h fun e' he' =>
      h.keepsStreams (Engine.triggerPurgeLog_keepsStreams he')
  | triggerTransferLeader target =>
    obtain rfl := Option.some.inj he
    exact h.withLeader (f := fun e l => e.transferLeader l target) fun l hl =>
      h.keepsStreams (Engine.transferLeader_keepsStreams hl target)
  | refreshServerState =>
    obtain rfl := Option.some.inj he
    exact h.updateInternalServerState now
  | initiateReplication =>
    obtain rfl := Option.some.inj he
    exact h.withLeader fun l hl => h.initiateReplication hl
  | replicationError target streamId inflightId => cases hreport
  | write data =>
    obtain rfl := Option.some.inj he
    exact writeEntries_handles h _
  | changeMembership changes retain =>
    obtain rfl := Option.some.inj he
    exact changeMembership_handles h changes retain
  | appendMembership m =>
    obtain rfl := Option.some.inj he
    exact appendMembership_handles h m
  | sendAppendEntries target prev count inflightId =>
    exact sendOnStream_handles h (sendAppendEntries_sends he)
  | sendHeartbeat target =>
    exact sendOnStream_handles h (sendHeartbeat_sends he)
  | sendSnapshot target inflightId =>
    exact sendOnStream_handles h (sendSnapshot_sends he)
  | restart keep appliedKeep => cases hrestart

/-- A node that has restarted has no streams. -/
theorem restart_handles {keep appliedKeep : Nat}
    (hrun : (n.restart now keep appliedKeep).stopped = false) :
    (n.restart now keep appliedKeep).engine.HandlesAgree R fun _ => none := by
  unfold restart at hrun ⊢
  dsimp only at hrun ⊢
  cases hs : start n.engine.config (n.incarnation + 1) n.sent now (n.store.crash keep)
      { n.sm with applied := n.sm.applied.take appliedKeep } with
  | none =>
    rw [hs] at hrun
    cases hrun
  | some n' =>
    obtain ⟨⟨state, store, sm⟩, -, rfl⟩ := Option.map_eq_some_iff.1 hs
    exact Engine.handlesAgree_startup state n.engine.config now

end Node

/-! ## A notification is processed -/

/-- The request `ctx` is one of the transmitter `x` for the target `t`. -/
def StreamCtx.IsOf (t : NID) (streamId : Nat) (x : SnapshotTransmitterHandle NID)
    (ctx : StreamCtx NID) : Prop :=
  ctx.target = t ∧ ctx.streamId = streamId ∧ ctx.leaderVote = x.leaderVote ∧
    ctx.inflightId = some x.inflightId

/-- The result of the transmitter `x`: the snapshot is installed, or there is a higher vote. -/
def Notification.IsResultOf (mode : LeaderIdMode) (t : NID) (streamId : Nat)
    (x : SnapshotTransmitterHandle NID) : Notification NID → Prop
  | .replicationProgress ctx (.matching _) => ctx.IsOf t streamId x
  | .higherVote ctx higher =>
    ctx.IsOf t streamId x ∧ higher.gt mode ⟨x.leaderVote, true⟩ = true
  | _ => False

namespace RaftCore

variable {s : RaftCore NID N D}

/-- The result of a transmitter waits to be processed. -/
def Waits (s : RaftCore NID N D) (t : NID) (streamId : Nat) (x : SnapshotTransmitterHandle NID) :
    Prop :=
  ∃ ntf ∈ s.notifications, ntf.IsResultOf s.node.engine.config.mode t streamId x

/-- The snapshot `id` for the target `t` is being transmitted: its start command is queued, its
    transmitter is running, or the result of its transmitter waits to be processed. -/
def Transmitting (s : RaftCore NID N D) (leaderVote : LeaderId NID) (t : NID) (id : Nat) : Prop :=
  .replicateSnapshot leaderVote t id ∈ s.node.engine.output.commands ∨
    ∃ streamId, s.replications t = some ⟨streamId, some ⟨leaderVote, id, false⟩⟩ ∨
      ∃ done, s.Waits t streamId ⟨leaderVote, id, done⟩

/-- The handles agree with the engine, and the results of the transmitters that have ended wait to
    be processed. -/
def Agrees (s : RaftCore NID N D) : Prop := s.node.engine.HandlesAgree s.Waits s.replications

/-- A report with an in-flight id, for a target whose snapshot in flight has its transmitter, is for
    the stream of the target, and it is an error or the acknowledgement of that snapshot. -/
def KeepsSnapshot (s : RaftCore NID N D) : Notification NID → Prop
  | .replicationProgress ctx result => ctx.inflightId.isSome →
      ∀ l ∈ s.node.engine.leader, ∀ item ∈ l.progress.entries, item.id = ctx.target →
        ∀ h ∈ s.replications ctx.target, ∀ x ∈ h.snapshotTransmitHandle,
          item.data.inflight = .snapshot x.inflightId →
            ctx.streamId = item.data.streamId ∧ result.Ends ctx.inflightId x.inflightId
  | .higherVote _ _ => True

instance (s : RaftCore NID N D) (ntf : Notification NID) : Decidable (s.KeepsSnapshot ntf) :=
  match ntf with
  | .replicationProgress ctx result => inferInstanceAs (Decidable (ctx.inflightId.isSome →
      ∀ l ∈ s.node.engine.leader, ∀ item ∈ l.progress.entries, item.id = ctx.target →
        ∀ h ∈ s.replications ctx.target, ∀ x ∈ h.snapshotTransmitHandle,
          item.data.inflight = .snapshot x.inflightId →
            ctx.streamId = item.data.streamId ∧ result.Ends ctx.inflightId x.inflightId))
  | .higherVote _ _ => isTrue trivial

/-- In a core that agrees, every snapshot in flight is being transmitted. -/
theorem Agrees.transmitting (h : s.Agrees) {l : Leader NID N} (hl : s.node.engine.leader = some l)
    {item : ProgressEntry NID} (hitem : item ∈ l.progress.entries) {id : Nat}
    (hid : item.data.inflight = .snapshot id) : s.Transmitting l.committedVote item.id id := by
  have hrep := h.leader l hl
  have hne : item.id ≠ s.node.engine.config.id := fun hself => hrep.own item hitem hself id hid
  obtain ⟨x, hx, hfly⟩ := hrep.covered item hitem hne
  obtain ⟨done, rfl⟩ := hfly id hid
  rcases Replications.runOps_origin hx with hheld | ⟨-, hqueued⟩
  · right
    refine ⟨item.data.streamId, ?_⟩
    cases done with
    | false => exact Or.inl hheld
    | true => exact Or.inr ⟨true, (hrep.owner item.id _ _ hx rfl).2 rfl⟩
  · exact Or.inl hqueued

/-- The handles without the transmitter of a target. For a leader they are in order if the snapshot
    in flight for that target has ended as well. -/
theorem clear_handles {e : Engine NID N D} {R : NID → Nat → SnapshotTransmitterHandle NID → Prop}
    {rs : Replications NID} {l' : Leader NID N} {t : NID}
    (h : l'.Replicates R e.config.id (e.handlesAfter rs))
    (hends : ∀ item ∈ l'.progress.entries, item.id = t → ∀ sid x, rs t = some ⟨sid, some x⟩ →
      item.data.inflight ≠ .snapshot x.inflightId) :
    l'.Replicates R e.config.id (e.handlesAfter (rs.clear t)) := by
  cases hrs : rs t with
  | none =>
    have hsame : rs.clear t = rs := by
      unfold Replications.clear
      rw [hrs, Option.map_none, ← hrs, Function.update_eq_self]
    rw [hsame]
    exact h
  | some hd =>
    obtain ⟨sid, y⟩ := hd
    have hclear : rs.clear t t = some ⟨sid, none⟩ := by
      unfold Replications.clear
      rw [Function.update_self, hrs]
      rfl
    rcases Engine.handlesAfter_swap e hrs hclear fun t' ht => Function.update_of_ne ht _ _ with
      heq | ⟨hkept, heq⟩
    · rw [heq]
      exact h
    · rw [heq]
      refine h.swap hkept ?_ nofun
      intro item hitem hid id hsnap
      -- the transmitter that is dropped is that of the snapshot in flight
      have hne := (h.target t _ hkept).1
      obtain ⟨z, hz, hfly⟩ := h.covered item hitem (hid ▸ hne)
      rw [hid, hkept] at hz
      have hyz : y = z := congrArg ReplicationHandle.snapshotTransmitHandle (Option.some.inj hz)
      obtain ⟨done, hdone⟩ := hfly id hsnap
      rw [hyz, hdone] at hrs
      exact absurd hsnap (hends item hitem hid sid _ hrs)

/-- Without a leader there is nothing to clear, once the queued commands are carried out. -/
theorem clear_follower {e : Engine NID N D} {rs : Replications NID}
    (h : ∀ t, e.handlesAfter rs t = none) (t : NID) :
    ∀ t', e.handlesAfter (rs.clear t) t' = none := by
  intro t'
  by_cases ht : t' = t
  · subst ht
    cases hrs : rs t' with
    | none =>
      have hsame : rs.clear t' t' = rs t' := by
        unfold Replications.clear
        rw [Function.update_self, hrs, Option.map_none]
      exact (Replications.runOps_congr hsame).trans (h t')
    | some hd =>
      obtain ⟨sid, y⟩ := hd
      have hclear : rs.clear t' t' = some ⟨sid, none⟩ := by
        unfold Replications.clear
        rw [Function.update_self, hrs]
        rfl
      rcases Engine.handlesAfter_swap e hrs hclear fun t' ht => Function.update_of_ne ht _ _ with
        heq | ⟨hkept, -⟩
      · rw [heq]
        exact h t'
      · cases (h t').symm.trans hkept
  · have hsame : rs.clear t t' = rs t' := Function.update_of_ne ht _ _
    exact (Replications.runOps_congr hsame).trans (h t')

/-- `ReplicationProgress`: the transmitter of the target is dropped, and the progress updated. -/
theorem handleReplicationProgress_handles {R : NID → Nat → SnapshotTransmitterHandle NID → Prop}
    {ctx : StreamCtx NID} {result : Engine.ReplicationResult NID}
    (h : s.node.engine.HandlesAgree R s.replications)
    (hcond : s.KeepsSnapshot (.replicationProgress ctx result))
    (hrun : (s.node.handleReplicationProgress ctx result).stopped = false) :
    (s.node.handleReplicationProgress ctx result).engine.HandlesAgree R
      (if ctx.inflightId.isSome then s.replications.clear ctx.target else s.replications) := by
  unfold Node.handleReplicationProgress at hrun ⊢
  cases hl : s.node.engine.leader with
  | none =>
    dsimp only
    split
    · refine ⟨fun l hl' => ?_, fun _ => clear_follower (h.follower hl) ctx.target, h.candidate⟩
      cases hl.symm.trans hl'
    · exact h
  | some l =>
    rw [hl] at hrun
    dsimp only at hrun ⊢
    cases hupd : s.node.engine.updateProgress l ctx.target ctx.streamId result ctx.inflightId with
    | none =>
      rw [hupd] at hrun
      cases hrun
    | some e' =>
      show e'.HandlesAgree R _
      split
      · rename_i hsome
        have hrep := h.leader l hl
        obtain ⟨l', g, hcalms, hkeeps, hends⟩ :=
          Engine.updateProgress_calms hl hrep.nodup hupd
        have hleader := clear_handles (t := ctx.target) (hcalms.replicates hrep) ?_
        · exact (Engine.HandlesAgree.withProgress h.candidate hleader).keepsStreams hkeeps
        · intro item' hitem' hid sid x hx hsnap
          obtain ⟨item, hitem, rfl⟩ := List.mem_map.1 (hcalms.entries.mem_iff.1 hitem')
          obtain ⟨hgid, -, hkept⟩ := hcalms.keeps item
          rw [hgid] at hid
          obtain ⟨hstream, hend⟩ := hcond hsome l hl item hitem hid ⟨sid, some x⟩ hx x rfl
            (hkept _ hsnap)
          exact hends _ hend item hitem hid hstream.symm hsnap
      · exact h.updateProgress hl hupd

/-- The first notification is taken from the queue. What is known of a transmitter that has ended is
    known without it, unless it is the result of that transmitter. -/
theorem agrees_of_rest {ntf : Notification NID} {rest : List (Notification NID)}
    (hq : s.notifications = ntf :: rest) {s' : RaftCore NID N D} (hq' : s'.notifications = rest)
    (hmode : s'.node.engine.config.mode = s.node.engine.config.mode)
    (h : s'.node.engine.HandlesAgree s.Waits s'.replications)
    (hntf : ∀ t sid x, s'.node.engine.handlesAfter s'.replications t = some ⟨sid, some x⟩ →
      x.done = true → ¬ ntf.IsResultOf s.node.engine.config.mode t sid x) : s'.Agrees := by
  refine h.weaken fun t sid x hx hdone hwaits => ?_
  obtain ⟨m, hm, hres⟩ := hwaits
  rw [hq] at hm
  rcases List.mem_cons.1 hm with rfl | hm
  · exact absurd hres (hntf t sid x hx hdone)
  · exact ⟨m, hq' ▸ hm, hmode ▸ hres⟩

theorem Agrees.replicationProgress (h : s.Agrees) {now : Nat} {ctx : StreamCtx NID}
    {result : Engine.ReplicationResult NID} {rest : List (Notification NID)}
    (hq : s.notifications = .replicationProgress ctx result :: rest)
    (hcond : s.KeepsSnapshot (.replicationProgress ctx result))
    (hconfig : (s.node.handleReplicationProgress ctx result).engine.config = s.node.engine.config)
    (hrun : (s.node.handleReplicationProgress ctx result).stopped = false) :
    ({ s with notifications := rest }.handleNotification now
      (.replicationProgress ctx result)).Agrees := by
  refine agrees_of_rest hq rfl (congrArg EngineConfig.mode hconfig)
    (handleReplicationProgress_handles h hcond hrun) ?_
  intro t sid x hx hdone hres
  cases result with
  | matching last =>
    -- the transmitter has been dropped
    obtain ⟨rfl, -, -, hid⟩ := hres
    rcases Replications.runOps_origin hx with hheld | ⟨hrunning, -⟩
    · unfold handleNotification at hheld
      dsimp only at hheld
      rw [hid, Option.isSome_some, if_pos rfl] at hheld
      unfold Replications.clear at hheld
      rw [Function.update_self] at hheld
      obtain ⟨hd, -, heq⟩ := Option.map_eq_some_iff.1 hheld
      cases heq
    · cases hrunning.symm.trans hdone
  | conflict logId => exact hres
  | error => exact hres

/-- `HigherVote`: the leader steps down, if it is the one that the vote is higher than. -/
theorem Agrees.higherVote (h : s.Agrees) {now : Nat} {ctx : StreamCtx NID} {higher : Vote NID}
    {rest : List (Notification NID)} (hq : s.notifications = .higherVote ctx higher :: rest)
    {A : Vote NID → Prop} {G : NID → LeaderId NID → Prop} {P : Membership NID N → Prop}
    (hinv : s.node.VoteInv A G P)
    (hin : s.node.engine.Incoming A s.node.savedVote higher) :
    ({ s with notifications := rest }.handleNotification now (.higherVote ctx higher)).Agrees := by
  have hstep := hinv.handleHigherVote now ctx.leaderVote hin
  have hagree : (s.node.handleHigherVote now ctx.leaderVote higher).engine.HandlesAgree s.Waits
      s.replications := by
    unfold Node.handleHigherVote
    split
    · exact Engine.HandlesAgree.updateVote h now higher
    · exact h
  refine agrees_of_rest hq rfl (congrArg EngineConfig.mode hstep.2.config) hagree ?_
  rintro t sid x hx - ⟨⟨-, -, hvote, -⟩, hgt⟩
  have hx : (s.node.handleHigherVote now ctx.leaderVote higher).engine.handlesAfter
    s.replications t = some ⟨sid, some x⟩ := hx
  -- a leader is left, and it has the vote of the transmitter
  cases hl : (s.node.handleHigherVote now ctx.leaderVote higher).engine.leader with
  | none => cases (hagree.follower hl t).symm.trans hx
  | some l =>
    have howner := ((hagree.leader l hl).owner t _ x hx rfl).1
    have hvote' := (hstep.1.engine.leader _ (Engine.leaderVote_eq hl)).1
    rw [← howner] at hvote'
    unfold Node.handleHigherVote at hl hvote'
    split at hl
    · rename_i hmine
      rw [if_pos hmine] at hvote'
      have hbefore := (hinv.engine.leader ctx.leaderVote hmine).1
      rw [hvote] at hbefore
      have haccept : (s.node.engine.updateVote now higher).2 = true := by
        unfold Engine.updateVote
        rw [hbefore, if_pos (Vote.ge_iff.2 (Or.inr (Vote.gt_iff.1 hgt)))]
      have hafter := (hinv.engine.updateVote_incoming now hin).2 haccept
      have heq : higher = ⟨x.leaderVote, true⟩ := hafter.symm.trans hvote'
      rw [heq] at hgt
      exact lt_irrefl _ (Vote.gt_iff.1 hgt)
    · rename_i hother
      rw [hl, hvote, howner] at hother
      exact hother rfl

/-- Another notification does not harm. -/
theorem Agrees.enqueue (h : s.Agrees) (ntf : Notification NID) :
    ({ s with notifications := s.notifications ++ [ntf] } : RaftCore NID N D).Agrees := by
  refine Engine.HandlesAgree.weaken h fun t sid x _ _ hwaits => ?_
  obtain ⟨m, hm, hres⟩ := hwaits
  exact ⟨m, List.mem_append_left _ hm, hres⟩

/-- What a transmitter reports is its result. -/
theorem isResultOf_ofResponse {mode : LeaderIdMode} {ctx : StreamCtx NID}
    {last : Option (LogId NID)} {vote : Vote NID} {ntf : Notification NID} {t : NID} {sid : Nat}
    {x : SnapshotTransmitterHandle NID}
    (hntf : Notification.ofResponse (N := N) (D := D) mode
      (.installFullSnapshotResp ctx last vote) =
      some ntf) (hx : ctx.IsOf t sid x) : ntf.IsResultOf mode t sid x := by
  unfold Notification.ofResponse at hntf
  dsimp only at hntf
  split at hntf
  · rename_i hgt
    obtain rfl := Option.some.inj hntf
    rw [hx.2.2.1] at hgt
    exact ⟨hx, hgt⟩
  · obtain rfl := Option.some.inj hntf
    exact hx

/-- A transmitter ends, and its result is in the queue. -/
theorem Agrees.finish (h : s.Agrees) {ctx : StreamCtx NID}
    (hres : ∀ t sid x, ctx.IsOf t sid x → s.Waits t sid x) :
    ({ s with replications := s.replications.finish ctx } : RaftCore NID N D).Agrees := by
  show s.node.engine.HandlesAgree s.Waits (s.replications.finish ctx)
  cases hrs : s.replications ctx.target with
  | none =>
    have hsame : s.replications.finish ctx = s.replications := by
      unfold Replications.finish
      rw [hrs, Option.map_none, ← hrs, Function.update_eq_self]
    rw [hsame]
    exact h
  | some hd =>
    obtain ⟨sid, y⟩ := hd
    obtain ⟨y', hy'⟩ : ∃ y', y' = y.map fun x => if sid = ctx.streamId ∧
      x.leaderVote = ctx.leaderVote ∧ ctx.inflightId = some x.inflightId then
        { x with done := true } else x := ⟨_, rfl⟩
    have hfinish : s.replications.finish ctx ctx.target = some ⟨sid, y'⟩ := by
      unfold Replications.finish
      rw [Function.update_self, hrs, hy']
      rfl
    rcases Engine.handlesAfter_swap s.node.engine hrs hfinish
        fun t' ht => Function.update_of_ne ht _ _ with heq | ⟨hkept, heq⟩
    · exact ⟨heq ▸ h.leader, heq ▸ h.follower, h.candidate⟩
    · refine ⟨fun l hl => ?_, fun hnone => ?_, h.candidate⟩
      · have hrep := h.leader l hl
        rw [heq]
        refine hrep.swap hkept ?_ ?_
        · intro item hitem hid id hsnap
          obtain ⟨z, hz, hfly⟩ := hrep.covered item hitem (hid ▸ (hrep.target _ _ hkept).1)
          rw [hid, hkept] at hz
          have hyz : y = z := congrArg ReplicationHandle.snapshotTransmitHandle (Option.some.inj hz)
          obtain ⟨done, hdone⟩ := hfly id hsnap
          rw [hy', hyz, hdone, Option.map_some]
          split
          · exact ⟨true, rfl⟩
          · exact ⟨done, rfl⟩
        · intro z hz
          rw [hy'] at hz
          obtain ⟨x, hx, rfl⟩ := Option.map_eq_some_iff.1 hz
          obtain ⟨hvote, hended⟩ := hrep.owner _ _ x hkept hx
          split
          · rename_i hown
            exact ⟨hvote, fun _ => hres _ _ _ ⟨rfl, hown.1.symm, hown.2.1.symm, hown.2.2⟩⟩
          · exact ⟨hvote, hended⟩
      · cases (h.follower hnone _).symm.trans hkept

theorem Agrees.report (h : s.Agrees) {m : Message NID N D} {ntf : Notification NID}
    (hntf : Notification.ofResponse s.node.engine.config.mode m = some ntf) :
    (s.report m ntf).Agrees := by
  have hq := h.enqueue ntf
  cases m with
  | installFullSnapshotResp ctx last vote =>
    refine hq.finish fun t sid x hx => ⟨ntf, ?_, isResultOf_ofResponse hntf hx⟩
    exact List.mem_append_right _ List.mem_cons_self
  | _ => exact hq

end RaftCore

/-! ## The cluster -/

/-- A cluster of cores. -/
abbrev Cores (NID N D : Type) := NID → RaftCore NID N D

/-- What a step of a cluster of cores is about: an action at a node other than a report of its
    replication tasks, a request to form a cluster, a report of the response that is message `i` of
    the list of `src`, a report that the request `i` has failed, or a notification is processed. -/
inductive CoreAction (NID N D : Type) where
  | node (a : Action NID N D)
  | form (memberNodes : NodeMap NID N)
  | report (src : NID) (i : Nat)
  | fail (i : Nat)
  | notify

/-- One step: where it happens, and when by the clock of that node. -/
structure CoreLabel (NID N D : Type) where
  node : NID
  now : Nat
  action : CoreAction NID N D

namespace Cores

variable {c c' : Cores NID N D} {mode : LeaderIdMode}

/-- The nodes of a cluster of cores. -/
def nodes (c : Cores NID N D) : Cluster NID N D := fun k => (c k).node

/-- What an action does at the node `k`; `none` means that it cannot happen. A report for an earlier
    incarnation of the node is lost. -/
def perform [DecidableEq N] (c : Cores NID N D) (k : NID) (now : Nat) :
    CoreAction NID N D → Option (RaftCore NID N D)
  | .node a =>
    (c.nodes.eventOf k a).bind fun ev =>
      if ev.isReport then none
      else ((c k).node.step now ev).map fun n => (c k).afterEvent n ev
  | .form memberNodes =>
    if (c k).node.stopped then none
    else some { c k with node := (c k).node.handleInitialize now memberNodes }
  | .report src i =>
    (c src).node.sent[i]?.bind fun m =>
      (Notification.ofResponse (c k).node.engine.config.mode m).bind fun ntf =>
        if m.responseCtx.any (fun ctx => decide (ctx.leader = k ∧
            ctx.incarnation = (c k).node.incarnation)) && !(c k).node.stopped then
          some ((c k).report m ntf)
        else none
  | .fail i =>
    (c k).node.sent[i]?.bind fun m =>
      match m with
      | .appendEntries ctx _ =>
        -- a heartbeat and a request without an in-flight id fail in silence
        if ctx.incarnation = (c k).node.incarnation ∧ ctx.inflightId.isSome ∧
            (c k).node.stopped = false then
          some { c k with
            notifications := (c k).notifications ++ [.replicationProgress ctx .error] }
        else none
      | _ => none
  | .notify =>
    match (c k).notifications with
    | [] => none
    | ntf :: rest =>
      if (c k).node.stopped then none
      else some ({ c k with notifications := rest }.handleNotification now ntf)

/-- One step of a cluster of cores. -/
def step [DecidableEq N] (c : Cores NID N D) (l : CoreLabel NID N D) : Option (Cores NID N D) :=
  (c.perform l.node l.now l.action).map (Function.update c l.node)

/-- A notification that is processed meets `RaftCore.KeepsSnapshot`. -/
def KeepsSnapshot (c : Cores NID N D) (l : CoreLabel NID N D) : Prop :=
  match l.action with
  | .notify => ∀ ntf ∈ (c l.node).notifications.head?, (c l.node).KeepsSnapshot ntf
  | _ => True

instance (c : Cores NID N D) (l : CoreLabel NID N D) : Decidable (c.KeepsSnapshot l) :=
  match l with
  | ⟨k, _, .notify⟩ =>
    inferInstanceAs (Decidable (∀ ntf ∈ (c k).notifications.head?, (c k).KeepsSnapshot ntf))
  | ⟨_, _, .node _⟩ => isTrue trivial
  | ⟨_, _, .form _⟩ => isTrue trivial
  | ⟨_, _, .report _ _⟩ => isTrue trivial
  | ⟨_, _, .fail _⟩ => isTrue trivial

/-- A cluster at the start: every node has started on a storage without a vote, and has no tasks. -/
def Initial (mode : LeaderIdMode) (c : Cores NID N D) : Prop :=
  c.nodes.Unvoted mode ∧ ∀ k, (c k).replications = (fun _ => none) ∧ (c k).notifications = []

/-! ### The invariant -/

/-- The votes that the node `k` may adopt. -/
def Adopts (mode : LeaderIdMode) (c : Cores NID N D) (k : NID) (v : Vote NID) : Prop :=
  (v.committed = true → v.leaderId.term ≠ 0) ∧ (v.leaderId.nodeId ≠ k → c.nodes.Issued mode v)

theorem adopts_ownVotes (mode : LeaderIdMode) (c : Cores NID N D) (k : NID) :
    OwnVotes (c.Adopts mode k) k :=
  ⟨fun _ hl => ⟨nofun, fun hne => absurd hl hne⟩, fun _ hv => ⟨nofun, hv.2⟩⟩

/-- The invariant of the transmissions: votes are in order, also those that wait to be processed,
    and every core that has not stopped agrees with its handles. -/
structure Inv (mode : LeaderIdMode) (c : Cores NID N D) : Prop where
  ids : ∀ k, (c k).node.id = k
  modes : ∀ k, (c k).node.engine.config.mode = mode
  votes : ∀ k, (c k).node.VoteInv (c.Adopts mode k) (fun _ _ => True) (fun _ => True)
  heard : ∀ k ctx v, .higherVote ctx v ∈ (c k).notifications →
    c.nodes.Issued mode v ∧ (v.committed = true → v.leaderId.term ≠ 0)
  agrees : ∀ k, (c k).node.stopped = false → (c k).Agrees

namespace Inv

/-- A vote that is issued is in order when it arrives. -/
theorem incoming (h : c.Inv mode) {v : Vote NID} (hv : c.nodes.Issued mode v)
    (hterm : v.committed = true → v.leaderId.term ≠ 0) (k : NID) :
    (c k).node.engine.Incoming (c.Adopts mode k) (c k).node.savedVote v :=
  Cluster.Issued.incoming hv (h.ids k) (h.modes k) ⟨hterm, fun _ => hv⟩

theorem issuedOut (h : c.Inv mode) {src : NID} {m : Message NID N D}
    (hm : m ∈ (c src).node.sent) {v : Vote NID} (hv : v ∈ m.vote?) :
    c.nodes.Issued mode v ∧ (v.committed = true → v.leaderId.term ≠ 0) :=
  ⟨Cluster.issued_of_out (h.ids src) (h.modes src) (h.votes src) (fun _ hadopts => hadopts.2)
    (Cluster.mem_out_of_sent hm) hv,
    ((h.votes src).out.votes m (Cluster.mem_out_of_sent hm) v hv).1.1⟩

/-- One node moves on. -/
theorem move (h : c.Inv mode) {k : NID} {s' : RaftCore NID N D}
    (hv : (c k).node.VoteStep (c.Adopts mode k) (fun _ _ => True) (fun _ => True) s'.node)
    (hheard : ∀ ctx v, .higherVote ctx v ∈ s'.notifications →
      c.nodes.Issued mode v ∧ (v.committed = true → v.leaderId.term ≠ 0))
    (hagrees : s'.node.stopped = false → s'.Agrees) : Inv mode (Function.update c k s') := by
  have hnodes : nodes (Function.update c k s') = Function.update c.nodes k s'.node := by
    funext j
    by_cases hj : j = k
    · subst hj
      rw [nodes, Function.update_self, Function.update_self]
    · rw [nodes, Function.update_of_ne hj, Function.update_of_ne hj]
      rfl
  have hadv : Cluster.Advances mode c.nodes (nodes (Function.update c k s')) := by
    rw [hnodes]
    exact Cluster.Advances.update (h.ids k) (h.modes k) hv.2
  have hissued : ∀ v, c.nodes.Issued mode v → (nodes (Function.update c k s')).Issued mode v :=
    fun _ hv => hv.trans (hadv _).2
  have hmono : ∀ j v, c.Adopts mode j v → Adopts mode (Function.update c k s') j v :=
    fun _ v hA => ⟨hA.1, fun ho => hissued v (hA.2 ho)⟩
  have hothers : ∀ {Q : NID → RaftCore NID N D → Prop}, Q k s' → (∀ j, Q j (c j)) →
      ∀ j, Q j (Function.update c k s' j) := by
    intro Q hk hall j
    by_cases hj : j = k
    · subst hj
      rw [Function.update_self]
      exact hk
    · rw [Function.update_of_ne hj]
      exact hall j
  refine ⟨?_, ?_, ?_, ?_, ?_⟩
  · exact hothers (Q := fun j s => s.node.id = j) (hv.2.id.trans (h.ids k)) h.ids
  · refine hothers (Q := fun _ s => s.node.engine.config.mode = mode) ?_ h.modes
    rw [hv.2.config, h.modes]
  · refine hothers (Q := fun j s => s.node.VoteInv (Adopts mode (Function.update c k s') j)
      (fun _ _ => True) (fun _ => True)) ?_ ?_
    · exact hv.1.mono (hmono k) fun _ _ _ => trivial
    · exact fun j => (h.votes j).mono (hmono j) fun _ _ _ => trivial
  · refine hothers (Q := fun _ s => ∀ ctx v, .higherVote ctx v ∈ s.notifications →
      (nodes (Function.update c k s')).Issued mode v ∧
        (v.committed = true → v.leaderId.term ≠ 0)) ?_ ?_
    · exact fun ctx v hmem => ⟨hissued v (hheard ctx v hmem).1, (hheard ctx v hmem).2⟩
    · exact fun j ctx v hmem => ⟨hissued v (h.heard j ctx v hmem).1, (h.heard j ctx v hmem).2⟩
  · exact hothers (Q := fun _ s => s.node.stopped = false → s.Agrees) hagrees h.agrees

/-- The node of a core after an event: a transmission without a stream stops it. -/
theorem afterEvent_node (s : RaftCore NID N D) (n : Node NID N D) (ev : Event NID N D) :
    (s.afterEvent n ev).node = n ∨ (s.afterEvent n ev).node = { n with stopped := true } := by
  unfold RaftCore.afterEvent
  split
  · split
    · unfold RaftCore.afterCommand
      dsimp only
      split
      · exact Or.inr rfl
      · exact Or.inl rfl
    · exact Or.inl rfl
  · exact Or.inl rfl
  · exact Or.inl rfl

theorem afterEvent_notifications {s : RaftCore NID N D} {n : Node NID N D} {ev : Event NID N D}
    {ntf : Notification NID} (h : ntf ∈ (s.afterEvent n ev).notifications) :
    ntf ∈ s.notifications := by
  unfold RaftCore.afterEvent at h
  split at h
  · split at h
    · exact h
    · exact h
  · cases h
  · exact h

/-- The handles after an event that is not a restart. -/
theorem afterEvent_agrees [DecidableEq N] {s : RaftCore NID N D} {n : Node NID N D} {now : Nat}
    {ev : Event NID N D} (h : s.Agrees) (hreport : ev.isReport = false)
    (hrestart : ev.isRestart = false) (hconfig : n.engine.config = s.node.engine.config)
    (he : s.node.perform now ev = some n) : (s.afterEvent n ev).Agrees := by
  have hwaits : ∀ s' : RaftCore NID N D, s'.notifications = s.notifications →
      s'.node.engine = n.engine →
      n.engine.HandlesAgree s.Waits s'.replications → s'.Agrees := by
    intro s' hq hengine hagree
    unfold RaftCore.Agrees
    rw [hengine]
    refine hagree.weaken fun t sid x _ _ hw => ?_
    obtain ⟨ntf, hmem, hres⟩ := hw
    exact ⟨ntf, hq ▸ hmem, by rw [hengine, hconfig]; exact hres⟩
  by_cases hcmd : ev = .runCommand
  · subst hcmd
    have he : s.node.runCommand = some n := he
    unfold RaftCore.afterEvent
    cases hc : s.node.engine.output.commands with
    | nil =>
      unfold Node.runCommand at he
      rw [hc] at he
      cases he
    | cons cmd cs =>
      refine hwaits (s.afterCommand cmd n) rfl ?_ (Node.runCommand_handles h hc he)
      unfold RaftCore.afterCommand
      dsimp only
      split <;> rfl
  · have hsame : s.afterEvent n ev = { s with node := n } := by
      cases ev with
      | runCommand => exact absurd rfl hcmd
      | restart keep appliedKeep => cases hrestart
      | _ => rfl
    rw [hsame]
    exact hwaits _ rfl rfl (Node.perform_handles h hreport hcmd hrestart he)

/-- An event of a node. -/
theorem event [DecidableEq N] (h : c.Inv mode) {k : NID} {now : Nat} {a : Action NID N D}
    {ev : Event NID N D} {n : Node NID N D} (hev : c.nodes.eventOf k a = some ev)
    (hreport : ev.isReport = false) (hn : (c k).node.step now ev = some n) :
    Inv mode (Function.update c k ((c k).afterEvent n ev)) := by
  have hrunning : ev.isRestart = false → (c k).node.stopped = false := by
    intro hrestart
    unfold Node.step at hn
    split at hn
    · cases hn
    · rename_i hnot
      simpa [hrestart] using hnot
  have hperform : (c k).node.perform now ev = some n := by
    unfold Node.step at hn
    split at hn
    · cases hn
    · exact hn
  have hown : OwnVotes (c.Adopts mode k) (c k).node.id := by
    rw [h.ids]
    exact adopts_ownVotes mode c k
  have hv : (c k).node.VoteStep (c.Adopts mode k) (fun _ _ => True) (fun _ => True) n := by
    refine (h.votes k).perform hown trivial ?_ ?_ hperform
    · rintro msg rfl
      obtain ⟨src, hsent, -⟩ := Cluster.eventOf_receive hev
      refine ⟨fun v hv => ?_, fun _ _ _ => trivial⟩
      obtain ⟨hissued, hterm⟩ := h.issuedOut hsent hv
      exact h.incoming hissued hterm k
    · rintro msg rfl cand hw -
      -- the candidate was made for an election, so that its term is not the first one
      have hcand := Node.candidate_of_wins hw
      have hready := (h.agrees k (hrunning rfl)).candidate cand hcand
      have hmine := ((h.votes k).engine.candidate cand hcand).1.own
      exact ⟨fun _ => hready.term, fun hne => absurd (hmine.trans (h.ids k)) hne⟩
  refine h.move ?_ (fun ctx v hmem => h.heard k ctx v (afterEvent_notifications hmem)) ?_
  · rcases afterEvent_node (c k) n ev with heq | heq
    · rw [heq]
      exact hv
    · rw [heq]
      exact hv.outside rfl rfl (Or.inl rfl) rfl
  · intro hrun
    cases hrestart : ev.isRestart with
    | false =>
      exact afterEvent_agrees (h.agrees k (hrunning hrestart)) hreport hrestart hv.2.config hperform
    | true =>
      cases ev with
      | restart keep appliedKeep =>
        obtain rfl := Option.some.inj hperform
        exact Node.restart_handles hrun
      | _ => cases hrestart

theorem form (h : c.Inv mode) {k : NID} (hrun : (c k).node.stopped = false) (now : Nat)
    (memberNodes : NodeMap NID N) : Inv mode (Function.update c k
      { c k with node := (c k).node.handleInitialize now memberNodes }) := by
  have hagree := h.agrees k hrun
  have hown : OwnVotes (c.Adopts mode k) (c k).node.id := by
    rw [h.ids]
    exact adopts_ownVotes mode c k
  have hv := (h.votes k).handleInitialize
    (fun cand hcand => (hagree.candidate cand hcand).term) hown
    (fun _ => trivial) (fun V hV => hV.1 rfl) now memberNodes
  refine h.move hv (h.heard k) fun _ => ?_
  refine Engine.HandlesAgree.weaken (Node.handleInitialize_handles hagree memberNodes) ?_
  rintro t sid x - - ⟨ntf, hmem, hres⟩
  refine ⟨ntf, hmem, ?_⟩
  rw [show ((c k).node.handleInitialize now memberNodes).engine.config = _ from hv.2.config]
  exact hres

/-- A report is handed to `RaftCore`. -/
theorem report (h : c.Inv mode) {k src : NID} {i : Nat} {m : Message NID N D}
    {ntf : Notification NID} (hm : (c src).node.sent[i]? = some m)
    (hntf : Notification.ofResponse (c k).node.engine.config.mode m = some ntf) :
    Inv mode (Function.update c k ((c k).report m ntf)) := by
  refine h.move (h.votes k).refl ?_ fun hrun => (h.agrees k hrun).report hntf
  intro ctx v hmem
  rcases List.mem_append.1 hmem with hold | hnew
  · exact h.heard k ctx v hold
  · obtain rfl := List.mem_singleton.1 hnew
    -- the vote is that of the response
    refine h.issuedOut (List.mem_of_getElem? hm) ?_
    unfold Notification.ofResponse at hntf
    split at hntf
    · cases hntf
    · split at hntf
      · cases hntf
      · cases hntf
    · cases hntf
    · cases hntf
      rfl
    · split at hntf
      · cases hntf
        rfl
      · cases hntf
    · cases hntf

/-- A notification is processed. -/
theorem notify (h : c.Inv mode) {k : NID} {now : Nat} {ntf : Notification NID}
    {rest : List (Notification NID)} (hq : (c k).notifications = ntf :: rest)
    (hrun : (c k).node.stopped = false) (hcond : (c k).KeepsSnapshot ntf) :
    Inv mode (Function.update c k
      ({ c k with notifications := rest }.handleNotification now ntf)) := by
  have hheard : ∀ ctx v, .higherVote ctx v ∈ rest →
      c.nodes.Issued mode v ∧ (v.committed = true → v.leaderId.term ≠ 0) := fun ctx v hmem =>
    h.heard k ctx v (hq ▸ List.mem_cons_of_mem _ hmem)
  cases ntf with
  | replicationProgress ctx result =>
    have hv := (h.votes k).handleReplicationProgress ctx result
    exact h.move hv hheard fun hrun' =>
      (h.agrees k hrun).replicationProgress hq hcond hv.2.config hrun'
  | higherVote ctx higher =>
    obtain ⟨hissued, hterm⟩ := h.heard k ctx higher (hq ▸ List.mem_cons_self)
    have hin := h.incoming hissued hterm k
    exact h.move ((h.votes k).handleHigherVote now ctx.leaderVote hin) hheard fun _ =>
      (h.agrees k hrun).higherVote hq (h.votes k) hin

theorem step [DecidableEq N] (h : c.Inv mode) {l : CoreLabel NID N D} (hcond : c.KeepsSnapshot l)
    (hs : c.step l = some c') : c'.Inv mode := by
  obtain ⟨k, now, action⟩ := l
  obtain ⟨s', hperform, rfl⟩ := Option.map_eq_some_iff.1 hs
  cases action with
  | node a =>
    obtain ⟨ev, hev, hrest⟩ := Option.bind_eq_some_iff.1 hperform
    split at hrest
    · cases hrest
    · rename_i hreport
      obtain ⟨n, hn, rfl⟩ := Option.map_eq_some_iff.1 hrest
      exact h.event hev (Bool.not_eq_true _ ▸ hreport) hn
  | form memberNodes =>
    unfold Cores.perform at hperform
    dsimp only at hperform
    split at hperform
    · cases hperform
    · rename_i hrun
      obtain rfl := Option.some.inj hperform
      exact h.form (Bool.not_eq_true _ ▸ hrun) now memberNodes
  | report src i =>
    obtain ⟨m, hm, hrest⟩ := Option.bind_eq_some_iff.1 hperform
    obtain ⟨ntf, hntf, hrest⟩ := Option.bind_eq_some_iff.1 hrest
    split at hrest
    · obtain rfl := Option.some.inj hrest
      exact h.report hm hntf
    · cases hrest
  | fail i =>
    obtain ⟨m, hm, hrest⟩ := Option.bind_eq_some_iff.1 hperform
    split at hrest
    · split at hrest
      · obtain rfl := Option.some.inj hrest
        refine h.move (h.votes k).refl ?_ fun hrun => (h.agrees k hrun).enqueue _
        intro ctx v hmem
        rcases List.mem_append.1 hmem with hold | hnew
        · exact h.heard k ctx v hold
        · cases List.mem_singleton.1 hnew
      · cases hrest
    · cases hrest
  | notify =>
    unfold Cores.perform at hperform
    dsimp only at hperform
    split at hperform
    · cases hperform
    · rename_i ntf rest hq
      split at hperform
      · cases hperform
      · rename_i hrun
        obtain rfl := Option.some.inj hperform
        refine h.notify hq (Bool.not_eq_true _ ▸ hrun) (hcond ntf ?_)
        show ntf ∈ (c k).notifications.head?
        rw [hq]
        rfl

end Inv

theorem Initial.inv (h : c.Initial mode) : c.Inv mode := by
  have hk : ∀ k, (c k).node.id = k ∧ (c k).node.engine.config.mode = mode ∧
      (c k).node.VoteInv (c.Adopts mode k) (fun _ _ => True) (fun _ => True) ∧
      (c k).node.engine.HandlesAgree (c k).Waits fun _ => none := by
    intro k
    obtain ⟨config, now, store, sm, rfl, hmode, hvote, hstart⟩ := h.1 k
    have hown := adopts_ownVotes mode c config.id
    obtain ⟨hinv, hconfig, -, -⟩ := Node.start_voteInv (G := fun _ _ => True) (P := fun _ => True)
      hown (by rw [hvote]; exact hown.own _ rfl) ⟨by simp, by simp, by simp⟩ hstart
    have hconfig : (c config.id).node.engine.config = config := hconfig
    refine ⟨by rw [Node.id, hconfig], by rw [hconfig, hmode], hinv, ?_⟩
    obtain ⟨⟨state, store', sm'⟩, -, hnode⟩ := Option.map_eq_some_iff.1 hstart
    have hengine : (c config.id).node.engine = (Engine.new state config).startup now :=
      congrArg Node.engine hnode.symm
    rw [hengine]
    exact Engine.handlesAgree_startup state config now
  refine ⟨fun k => (hk k).1, fun k => (hk k).2.1, fun k => (hk k).2.2.1, ?_, ?_⟩
  · intro k ctx v hmem
    rw [(h.2 k).2] at hmem
    cases hmem
  · intro k _
    unfold RaftCore.Agrees
    rw [(h.2 k).1]
    exact (hk k).2.2.2

/-- In every state of a run from the start, if each notification about replication that is processed
    meets `RaftCore.KeepsSnapshot`: where the progress of a target of a leader is a snapshot in
    flight, the transmission with that id is still to be started, it is running, or its result waits
    to be processed. -/
theorem transmitting_of_run [DecidableEq N] {c0 : Cores NID N D} (h0 : c0.Initial mode)
    {ls : List (CoreLabel NID N D)} (hcond : FitAll step KeepsSnapshot c0 ls)
    (hrun : runPartial step c0 ls = some c) {k : NID} (hk : (c k).node.stopped = false)
    {l : Leader NID N} (hl : (c k).node.engine.leader = some l) {item : ProgressEntry NID}
    (hitem : item ∈ l.progress.entries) {id : Nat} (hid : item.data.inflight = .snapshot id) :
    (c k).Transmitting l.committedVote item.id id := by
  have hinv : c.Inv mode :=
    hcond.invariant h0.inv (fun c1 lab c2 hc h1 hs => h1.step hc hs) hrun
  exact (hinv.agrees k hk).transmitting hl hitem hid

end Cores

/-! ## A target that leaves and comes back

Node 0 leads alone, and node 1 is a learner. While the answer of node 1 to the first request is on
its way, node 1 is removed and added again, on another stream. In the meantime node 0 has purged its
log up to entry 3, so that it sends a snapshot. -/

namespace Rejoined

/-- A node that keeps no logs that are in a snapshot. -/
def config (id : Fin 2) : EngineConfig (Fin 2) := ⟨id, .std, 10, 0, 1, 10, false, true⟩

/-- Two nodes whose storage is empty. -/
def blank : Cluster (Fin 2) Unit Nat := fun k =>
  (Node.start (config k) 0 [] 0 ⟨none, none, none, [], []⟩ ⟨[], none⟩).get
    (by revert k; decide +kernel)

def cores : Cores (Fin 2) Unit Nat := fun k => ⟨blank k, fun _ => none, []⟩

theorem cores_initial : cores.Initial .std := by
  have hblank : blank.Unvoted .std := fun k =>
    ⟨config k, 0, _, _, rfl, rfl, rfl, (Option.some_get _).symm⟩
  exact ⟨hblank, fun _ => ⟨rfl, rfl⟩⟩

def event (k : Fin 2) (ev : Event (Fin 2) Unit Nat) : CoreLabel (Fin 2) Unit Nat :=
  ⟨k, 0, .node (.event ev)⟩

def deliver (k src : Fin 2) (i : Nat) : CoreLabel (Fin 2) Unit Nat := ⟨k, 0, .node (.deliver src i)⟩

/-- Node `k` carries out `n` commands. -/
def commands (k : Fin 2) (n : Nat) : List (CoreLabel (Fin 2) Unit Nat) :=
  List.replicate n (event k .runCommand)

/-- Node 0 hears of the answer `i` of node 1. -/
def hears (i : Nat) : List (CoreLabel (Fin 2) Unit Nat) := [⟨0, 0, .report 1 i⟩, ⟨0, 0, .notify⟩]

def only (k : Fin 2) : NodeMap (Fin 2) Unit := (∅ : NodeMap (Fin 2) Unit).insert k ()

def logId (index : Nat) : LogId (Fin 2) := ⟨⟨1, none⟩, index⟩

/-- The entry at `index` is durable at node `k`. -/
def durable (k : Fin 2) (index : Nat) : List (CoreLabel (Fin 2) Unit Nat) :=
  [event k .flush, event k (.localIo (.log ⟨⟨1, 0⟩, some (logId index)⟩))]

/-- Node 0 forms a cluster of its own, and leads it. -/
def formed : List (CoreLabel (Fin 2) Unit Nat) :=
  [⟨0, 0, .form (only 0)⟩] ++ commands 0 2 ++ [event 0 .flush] ++ commands 0 2 ++
    [deliver 0 0 1] ++ commands 0 3 ++ durable 0 1 ++ commands 0 1

/-- Node 1 is added as a learner, gets the log and answers. -/
def joined : List (CoreLabel (Fin 2) Unit Nat) :=
  [event 0 (.changeMembership (.addNodes (only 1)) true)] ++ commands 0 3 ++ durable 0 2 ++
    commands 0 1 ++ [event 0 (.sendAppendEntries 1 none 3 (some 1)), deliver 1 0 2] ++
    commands 1 4 ++ durable 1 2 ++ [event 1 .sendSatisfiedOnLogIo]

/-- Node 1 is removed. Node 0 takes a snapshot, and purges its log up to entry 3. -/
def removed : List (CoreLabel (Fin 2) Unit Nat) :=
  [event 0 (.changeMembership (.removeNodes {1}) true)] ++ commands 0 2 ++ durable 0 3 ++
    commands 0 1 ++ [event 0 .runProgressDrivenCommand, event 0 .workerLoop,
      event 0 .stateMachineResult, event 0 .triggerSnapshot, event 0 .runCommand,
      event 0 .workerLoop, event 0 .stateMachineResult, event 0 .runCommand]

/-- Node 1 is added again. What is left of the log conflicts with what it has, so that node 0 starts
    to send the snapshot. -/
def rejoined : List (CoreLabel (Fin 2) Unit Nat) :=
  [event 0 (.changeMembership (.addNodes (only 1)) true)] ++ commands 0 3 ++ durable 0 4 ++
    commands 0 1 ++ [event 0 (.sendAppendEntries 1 (some (logId 3)) 1 (some 2)), deliver 1 0 3] ++
    commands 1 2 ++ hears 1 ++ [event 0 .initiateReplication, event 0 .runCommand]

/-- The run up to where the snapshot is being sent. -/
def run : List (CoreLabel (Fin 2) Unit Nat) := formed ++ joined ++ removed ++ rejoined

/-- The vote that node 0 leads with. -/
def leaderVote : LeaderId (Fin 2) := ⟨1, 0⟩

/-- Node 0 leads, and snapshot 3 is in flight for node 1. -/
def SnapshotInFlight (c : Cores (Fin 2) Unit Nat) : Prop :=
  (c 0).node.stopped = false ∧ ∃ l ∈ (c 0).node.engine.leader, l.committedVote = leaderVote ∧
    ∃ item ∈ l.progress.entries, item.id = 1 ∧ item.data.inflight = .snapshot 3

instance (c : Cores (Fin 2) Unit Nat) : Decidable (SnapshotInFlight c) :=
  inferInstanceAs (Decidable (_ ∧ ∃ l ∈ (c 0).node.engine.leader, l.committedVote = leaderVote ∧
    ∃ item ∈ l.progress.entries, item.id = 1 ∧ item.data.inflight = .snapshot 3))

end Rejoined

/-- The snapshot for node 1 is being sent. -/
theorem Cores.transmitting_of_run_rejoined : ∃ c,
    runPartial Cores.step Rejoined.cores Rejoined.run = some c ∧ Rejoined.SnapshotInFlight c ∧
      (c 0).Transmitting Rejoined.leaderVote 1 3 := by
  have hrun : (runPartial Cores.step Rejoined.cores Rejoined.run).any
      (fun c => decide (Rejoined.SnapshotInFlight c)) = true := by
    decide +kernel
  obtain ⟨c, hc, hflight⟩ := (Option.any_eq_true _ _).1 hrun
  have hflight := of_decide_eq_true hflight
  obtain ⟨hk, l, hl, hvote, item, hitem, hid, hsnap⟩ := hflight
  have htrans := Cores.transmitting_of_run Rejoined.cores_initial (by decide +kernel) hc hk hl hitem
    hsnap
  rw [hvote, hid] at htrans
  exact ⟨c, hc, ⟨hk, l, hl, hvote, item, hitem, hid, hsnap⟩, htrans⟩

/-- The answer of node 1 on the stream that was closed is processed. The snapshot stays in flight,
    no notification waits, and nobody transmits it. -/
theorem Rejoined.cancelled : ∃ c, Rejoined.cores.Initial .std ∧
    runPartial Cores.step Rejoined.cores (Rejoined.run ++ Rejoined.hears 0) = some c ∧
      Rejoined.SnapshotInFlight c ∧ (c 0).notifications = [] ∧
      ¬ (c 0).Transmitting Rejoined.leaderVote 1 3 := by
  have hrun : (runPartial Cores.step Rejoined.cores (Rejoined.run ++ Rejoined.hears 0)).any
      (fun c => decide (Rejoined.SnapshotInFlight c) && decide ((c 0).replications 1 =
        some ⟨6, none⟩) && (c 0).node.engine.output.commands.isEmpty &&
        (c 0).notifications.isEmpty) = true := by
    decide +kernel
  obtain ⟨c, hc, hstate⟩ := (Option.any_eq_true _ _).1 hrun
  simp only [Bool.and_eq_true, decide_eq_true_eq, List.isEmpty_iff] at hstate
  obtain ⟨⟨⟨hflight, hhandle⟩, hcommands⟩, hnotifications⟩ := hstate
  refine ⟨c, Rejoined.cores_initial, hc, hflight, hnotifications, ?_⟩
  rintro (hqueued | ⟨streamId, hheld | ⟨done, ntf, hntf, -⟩⟩)
  · rw [hcommands] at hqueued
    cases hqueued
  · rw [hhandle] at hheld
    cases hheld
  · rw [hnotifications] at hntf
    cases hntf

end ZenohRaft
