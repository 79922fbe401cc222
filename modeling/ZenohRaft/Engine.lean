/-
  The engine of one node: `engine/*`, `proposer/*` and the requests and responses of
  `raft/message/*` that it reads and writes.

  An engine takes one input at a time, updates its state and pushes commands for the runtime
  (`ZenohRaft.Node`) to carry out later. Handlers borrow parts of the engine in the source; here
  each is a function on the engine. Where a handler can stop the node by an assertion or an
  `unwrap` that the later code relies on, its result is an `Option` and `none` is that stop:
  the assertions on a snapshot (`installFullSnapshot`), a log id to purge that is not there
  (`triggerPurgeLog`), a progress that goes back (`updateMatching`), a leader that is gone
  (`establishLeader`). The other assertions are left out, which only adds behaviour.

  Left out: metrics, `server_state`, and the timers of heartbeats and elections (an election can
  start at any time).
-/
import ZenohRaft.Progress

namespace ZenohRaft

open Lib

/-! ## Messages -/

/-- `VoteRequest`. -/
structure VoteRequest (NID : Type) where
  vote : Vote NID
  lastLogId : Option (LogId NID)
  leadershipTransfer : Bool
  deriving DecidableEq

/-- `VoteResponse`. -/
structure VoteResponse (NID : Type) where
  vote : Vote NID
  voteGranted : Bool
  lastLogId : Option (LogId NID)
  deriving DecidableEq

/-- `AppendEntriesRequest`. -/
structure AppendEntriesRequest (NID N D : Type) where
  vote : Vote NID
  prevLogId : Option (LogId NID)
  entries : List (Entry NID N D)
  leaderCommit : Option (LogId NID)

/-- `StreamAppendError`. -/
inductive StreamAppendError (NID : Type) where
  | conflict (expect : LogId NID)
  | higherVote (vote : Vote NID)
  deriving DecidableEq

/-- `Snapshot`. The state machine of the model is the list of the entries applied to it, and
    so is the data of a snapshot. -/
structure Snapshot (NID N D : Type) where
  snapshotMeta : SnapshotMeta NID N
  data : List (Entry NID N D)

/-- What a replication task or a heartbeat worker knows about the stream a request belongs to
    (`ReplicationContext`), and the inflight id and sending time of the request. `incarnation`
    counts the restarts of the leader: the task that waits for the response ends with the
    process. -/
structure StreamCtx (NID : Type) where
  leader : NID
  incarnation : Nat
  leaderVote : LeaderId NID
  target : NID
  streamId : Nat
  heartbeat : Bool
  inflightId : Option Nat
  sendingTime : Nat
  deriving DecidableEq

/-- `InitializeError`. Of the membership in `NotInMembers` the voter sets are kept. -/
inductive InitializeError (NID : Type) where
  | notAllowed (lastLogId : Option (LogId NID)) (vote : Vote NID)
  | notInMembers (nodeId : NID) (voters : List (Finset NID))

/-- `Respond`: a response and the channel it goes to. The channel of a vote response is the task
    that sent the request for the candidate. `lastLogId` is the end of the snapshot that the
    sender of an install request is sending. -/
inductive Respond (NID : Type) where
  | vote (isPreVote : Bool) (candidate : NID) (candidateVote : LeaderId NID)
      (resp : VoteResponse NID)
  | appendEntries (ctx : StreamCtx NID)
      (result : Except (StreamAppendError NID) (Option (LogId NID)))
  | installFullSnapshot (ctx : StreamCtx NID) (lastLogId : Option (LogId NID)) (vote : Vote NID)
  | initialized (error : Option (InitializeError NID))

/-! ## Commands -/

/-- `Condition`. -/
inductive Condition (NID : Type) where
  | ioFlushed (ioId : IOId NID)
  | snapshot (logId : LogId NID)
  deriving DecidableEq

/-- `sm::Command`. Reads of the state machine are left out. -/
inductive SmCommand (NID N D : Type) where
  | buildSnapshot
  | installFullSnapshot (logIoId : LogIOId NID) (snapshot : Snapshot NID N D)
  | apply (first last : LogId NID)

/-- `Command`. A target of `rebuildReplicationStreams` is a node and the stream id of its
    progress entry. -/
inductive Command (NID N D : Type) where
  | updateIOProgress (when : Option (Condition NID)) (ioId : IOId NID)
  | appendEntries (committedVote : LeaderId NID) (entries : List (Entry NID N D))
  | replicateCommitted (committed : Option (LogId NID))
  | saveCommittedAndApply (alreadyApplied : Option (LogId NID)) (upto : LogId NID)
  | replicate (target : NID) (inflight : Inflight NID)
  | replicateSnapshot (leaderVote : LeaderId NID) (target : NID) (inflightId : Nat)
  | broadcastTransferLeader (vote : LeaderId NID) (target : NID)
      (lastLogId : Option (LogId NID))
  | closeReplicationStreams
  | failPendingReads
  | rebuildReplicationStreams (leaderVote : LeaderId NID) (targets : List (NID × Nat))
      (closeOldStreams : Bool)
  | saveVote (vote : Vote NID)
  | sendVote (isPreVote : Bool) (req : VoteRequest NID)
  | purgeLog (upto : LogId NID)
  | truncateLog (after : Option (LogId NID))
  | stateMachine (command : SmCommand NID N D)
  | respond (when : Option (Condition NID)) (resp : Respond NID)

variable {NID N D : Type} [LinearOrder NID]

/-- `Command::condition`. -/
def Command.condition : Command NID N D → Option (Condition NID)
  | .respond when _ => when
  | .updateIOProgress when _ => when
  | .purgeLog upto => some (.snapshot upto)
  | _ => none

/-- `Condition::is_met`. -/
def Condition.isMet (mode : LeaderIdMode) (s : IOState NID) : Condition NID → Bool
  | .ioFlushed ioId =>
    match s.logProgress.flushed with
    | some actual => actual.ge mode ioId
    | none => false
  | .snapshot logId =>
    match s.snapshot.flushed with
    | some actual => decide (logId ≤ actual)
    | none => false

/-- `PendingResponds`. -/
structure PendingResponds (NID : Type) where
  onLogIo : List (IOId NID × Respond NID)
  onSnapshot : List (LogId NID × Respond NID)

/-- `EngineOutput`. -/
structure EngineOutput (NID N D : Type) where
  commands : List (Command NID N D)
  pendingResponds : PendingResponds NID

/-! ## Leader and candidate -/

/-- `Leader`. -/
structure Leader (NID N : Type) where
  transferTo : Option NID
  committedVote : LeaderId NID
  lastLogId : Option (LogId NID)
  noopLogId : LogId NID
  progress : VecProgress NID (Membership NID N) (Option (LogId NID)) (ProgressData NID)
  clockProgress : VecProgress NID (Membership NID N) (Option Nat) Unit

/-- `Candidate`. -/
structure Candidate (NID N : Type) where
  vote : Vote NID
  lastLogId : Option (LogId NID)
  progress : VecProgress NID (Membership NID N) Bool Unit
  quorumSet : Membership NID N
  learnerIds : List NID

namespace Leader

/-- The entries that `Leader::new` and `rebuild_progresses` start from: the stream ids are
    drawn from the generator `gen` in the order of the entries. -/
def freshEntry (quorumSet : Membership NID N) (learnerIds : List NID) (gen searchingEnd : Nat)
    (id : NID) : ProgressEntry NID :=
  .empty id (gen + (quorumSet.ids ++ learnerIds).idxOf id) searchingEnd

/-- How many stream ids these entries use. -/
def freshCount (quorumSet : Membership NID N) (learnerIds : List NID) : Nat :=
  (quorumSet.ids ++ learnerIds).length

/-- `Leader::new`. -/
def new (mode : LeaderIdMode) (now : Nat) (vote : LeaderId NID) (quorumSet : Membership NID N)
    (learnerIds : List NID) (lastLeaderLogIds : Option (LeaderLogIds NID)) (gen : Nat) :
    Leader NID N :=
  let clId := vote.toCommitted mode
  let lastLogId : Option (LogId NID) := lastLeaderLogIds.map fun l => ⟨l.leaderId, l.last⟩
  let noopLogId : LogId NID :=
    match lastLeaderLogIds with
    | some l => if l.leaderId = clId then ⟨clId, l.first⟩ else ⟨clId, nextIndex lastLogId⟩
    | none => ⟨clId, nextIndex lastLogId⟩
  let clock : VecProgress NID (Membership NID N) (Option Nat) Unit :=
    .new quorumSet learnerIds fun id => ⟨id, none, ()⟩
  { transferTo := none
    committedVote := vote
    lastLogId := lastLogId
    noopLogId := noopLogId
    progress := .new quorumSet learnerIds
      (freshEntry quorumSet learnerIds gen (nextIndex lastLogId))
    clockProgress := ((clock.increaseTo vote.nodeId (some now)).map (·.2)).getD clock }

/-- `Leader::assign_log_ids`. -/
def assignLogIds (mode : LeaderIdMode) (l : Leader NID N) (count : Nat) :
    Option (LeaderLogIds NID × Leader NID N) :=
  if count = 0 then none
  else
    let clId := l.committedVote.toCommitted mode
    let first := nextIndex l.lastLogId
    let last := first + count - 1
    some (⟨clId, first, last⟩, { l with lastLogId := some ⟨clId, last⟩ })

/-- `Leader::update_clock`. -/
def updateClock (l : Leader NID N) (target : NID) (sendingTime : Nat) : Leader NID N :=
  let clock := l.clockProgress
  let clock := ((clock.increaseTo l.committedVote.nodeId (some sendingTime)).map (·.2)).getD clock
  { l with clockProgress := ((clock.increaseTo target (some sendingTime)).map (·.2)).getD clock }

/-- `Leader::is_self_quorum`. -/
def isSelfQuorum (l : Leader NID N) : Bool :=
  decide (l.clockProgress.voterCount = 1) &&
    decide ((l.clockProgress.entries.head?.map (·.id)) = some l.committedVote.nodeId)

/-- `Leader::is_lease_valid`. -/
def isLeaseValid (l : Leader NID N) (now leaderLease : Nat) : Bool :=
  l.isSelfQuorum ||
    match l.clockProgress.quorumAccepted with
    | some acked => decide (now < acked + leaderLease)
    | none => false

/-- `Leader::is_replication_stream_valid`. -/
def isReplicationStreamValid (l : Leader NID N) (target : NID) (streamId : Nat) : Bool :=
  match l.progress.tryGet target with
  | some entry => decide (entry.data.streamId = streamId)
  | none => false

end Leader

namespace Candidate

/-- `Candidate::new`. -/
def new (vote : Vote NID) (lastLogId : Option (LogId NID)) (quorumSet : Membership NID N)
    (learnerIds : List NID) : Candidate NID N :=
  { vote := vote
    lastLogId := lastLogId
    progress := .new quorumSet [] fun id => ⟨id, false, ()⟩
    quorumSet := quorumSet
    learnerIds := learnerIds }

/-- `Candidate::grant_by`: the candidate, and whether a quorum has granted. -/
def grantBy (c : Candidate NID N) (target : NID) : Candidate NID N × Bool :=
  match c.progress.update target true with
  | some (true, progress) => ({ c with progress := progress }, progress.quorumAccepted)
  | _ => (c, false)

/-- `Candidate::into_leader`. -/
def intoLeader (mode : LeaderIdMode) (now : Nat) (c : Candidate NID N) (gen : Nat) :
    Leader NID N :=
  .new mode now c.vote.leaderId c.quorumSet c.learnerIds (c.lastLogId.map .newSingle) gen

end Candidate

/-! ## The engine -/

/-- `EngineConfig`, with the kind of leader ids the cluster uses. -/
structure EngineConfig (NID : Type) where
  id : NID
  mode : LeaderIdMode
  leaderLease : Nat
  maxInSnapshotLogToKeep : Nat
  purgeBatchSize : Nat
  maxPayloadEntries : Nat
  allowLogReversion : Bool
  enableLeaderRestore : Bool

/-- `Engine`. -/
structure Engine (NID N D : Type) where
  config : EngineConfig NID
  state : RaftState NID N
  seenGreaterLog : Bool
  leader : Option (Leader NID N)
  candidate : Option (Candidate NID N)
  preCandidate : Option (Candidate NID N)
  output : EngineOutput NID N D

namespace Engine

/-- `Engine::new`. -/
def new (state : RaftState NID N) (config : EngineConfig NID) : Engine NID N D :=
  { config := config
    state := state
    seenGreaterLog := false
    leader := none
    candidate := none
    preCandidate := none
    output := ⟨[], ⟨[], []⟩⟩ }

/-- `EngineOutput::push_command`. -/
def pushCommand (e : Engine NID N D) (c : Command NID N D) : Engine NID N D :=
  { e with output := { e.output with commands := e.output.commands ++ [c] } }

/-- `EngineOutput::prepend_command`. -/
def prependCommand (e : Engine NID N D) (c : Command NID N D) : Engine NID N D :=
  { e with output := { e.output with commands := c :: e.output.commands } }

/-- `RaftState::accept_log_io` on the state of the engine. -/
def acceptLogIo (e : Engine NID N D) (io : IOId NID) : Engine NID N D :=
  { e with state := e.state.acceptLogIo e.config.mode io }

/-! ### Log handler -/

/-- `LogHandler::purge_log`. -/
def purgeLog (e : Engine NID N D) : Engine NID N D :=
  match e.state.purgeUpto with
  | none => e
  | some upto =>
    if some upto ≤ e.state.logIds.purged then e
    else
      { e with state := { e.state with logIds := e.state.logIds.purge upto } }.pushCommand
        (.purgeLog upto)

/-- `LogHandler::update_purge_upto`. -/
def updatePurgeUpto (e : Engine NID N D) (purgeUpto : LogId NID) : Engine NID N D :=
  { e with state := { e.state with purgeUpto := some purgeUpto } }

/-- `LogHandler::calc_purge_upto`. With a batch size of 0 the end may be 0; the index before it
    then wraps around, and the log has no such index. -/
def calcPurgeUpto (e : Engine NID N D) : Option (LogId NID) :=
  let st := e.state
  let purgeEnd := nextIndex st.snapshotMeta.lastLogId - e.config.maxInSnapshotLogToKeep
  if purgeEnd < nextIndex st.logIds.purged + e.config.purgeBatchSize then none
  else if purgeEnd = 0 then none
  else st.logIds.refAt (purgeEnd - 1)

/-- `LogHandler::schedule_policy_based_purge`. -/
def schedulePolicyBasedPurge (e : Engine NID N D) : Engine NID N D :=
  match e.calcPurgeUpto with
  | some purgeUpto => e.updatePurgeUpto purgeUpto
  | none => e

/-! ### Snapshot handler -/

/-- `SnapshotHandler::trigger_snapshot`. -/
def triggerSnapshot (e : Engine NID N D) : Engine NID N D :=
  if e.state.ioState.buildingSnapshot then e
  else
    { e with state := { e.state with
        ioState := { e.state.ioState with buildingSnapshot := true } } }.pushCommand
      (.stateMachine .buildSnapshot)

/-- `SnapshotHandler::update_snapshot`: the engine, and whether the snapshot is a newer one. -/
def updateSnapshot (e : Engine NID N D) (m : SnapshotMeta NID N) : Engine NID N D × Bool :=
  if m.lastLogId ≤ e.state.snapshotMeta.lastLogId then (e, false)
  else ({ e with state := { e.state with snapshotMeta := m } }, true)

/-! ### Replication handler -/

/-- `ReplicationHandler::send_to_target`. Nothing to send is `unreachable!` in the source. -/
def sendToTarget (leaderVote : LeaderId NID) (target : NID) :
    Inflight NID → List (Command NID N D)
  | .none => []
  | .snapshot inflightId => [.replicateSnapshot leaderVote target inflightId]
  | inflight => [.replicate target inflight]

/-- The loop of `ReplicationHandler::initiate_replication`. -/
def initiateReplicationLoop (config : EngineConfig NID) (leaderVote : LeaderId NID) :
    List (ProgressEntry NID) → RaftState NID N →
      List (ProgressEntry NID) × RaftState NID N × List (Command NID N D)
  | [], st => ([], st, [])
  | item :: items, st =>
    if item.id = config.id then
      let (items', st', cmds) := initiateReplicationLoop config leaderVote items st
      (item :: items', st', cmds)
    else
      let (item', st', inflight) := item.nextSend st config.maxPayloadEntries
      let sent := (inflight.map (sendToTarget leaderVote item.id)).getD []
      let (items', st'', cmds) := initiateReplicationLoop config leaderVote items st'
      (item' :: items', st'', sent ++ cmds)

/-- `ReplicationHandler::initiate_replication`. -/
def initiateReplication (e : Engine NID N D) (l : Leader NID N) : Engine NID N D :=
  let (entries, st, cmds) :=
    initiateReplicationLoop e.config l.committedVote l.progress.entries e.state
  { e with
    state := st
    leader := some { l with progress := { l.progress with entries := entries } }
    output := { e.output with commands := e.output.commands ++ cmds } }

/-- `ReplicationHandler::rebuild_replication_streams`. -/
def rebuildReplicationStreams (e : Engine NID N D) (l : Leader NID N) (closeOld : Bool) :
    Engine NID N D :=
  let reset (item : ProgressEntry NID) : ProgressEntry NID :=
    if item.id ≠ e.config.id ∧ closeOld then
      { item with data := { item.data with inflight := .none } }
    else item
  let entries := l.progress.entries.map reset
  let targets := (entries.filter fun item => decide (item.id ≠ e.config.id)).map
    fun item => (item.id, item.data.streamId)
  { e with leader := some { l with progress := { l.progress with entries := entries } } }
    |>.pushCommand (.rebuildReplicationStreams l.committedVote targets closeOld)

/-- `ReplicationHandler::rebuild_progresses`. Replacing fresh entries by old ones never lowers
    a progress, so the default is not taken. -/
def rebuildProgresses (e : Engine NID N D) (l : Leader NID N) : Engine NID N D :=
  let em := e.state.membershipState.effective.membership
  let learnerIds := em.learnerIds
  let gen := e.state.progressIdGen
  let fresh := Leader.freshEntry em learnerIds gen (nextIndex e.state.lastLogId)
  { e with
    state := { e.state with progressIdGen := gen + Leader.freshCount em learnerIds }
    leader := some { l with
      progress := (l.progress.upgradeQuorumSet em learnerIds fresh).getD l.progress
      clockProgress := (l.clockProgress.upgradeQuorumSet em learnerIds
        fun id => ⟨id, none, ()⟩).getD l.clockProgress } }

/-- Run `f` on the leader of the engine, if there is one. -/
def withLeader (e : Engine NID N D) (f : Engine NID N D → Leader NID N → Engine NID N D) :
    Engine NID N D :=
  match e.leader with
  | some l => f e l
  | none => e

/-- `ReplicationHandler::append_membership`. -/
def appendMembership (e : Engine NID N D) (l : Leader NID N) (logId : LogId NID)
    (m : Membership NID N) : Engine NID N D :=
  let e := { e with state := { e.state with
    membershipState := e.state.membershipState.append ⟨some logId, m⟩ } }
  let e := e.rebuildProgresses l
  let e := e.withLeader fun e l => e.rebuildReplicationStreams l false
  e.withLeader initiateReplication

/-- `ReplicationHandler::try_commit_quorum_accepted`. -/
def tryCommitQuorumAccepted (e : Engine NID N D) (granted : Option (LogId NID)) :
    Engine NID N D :=
  let mode := e.config.mode
  let st := e.state
  if granted.any (fun c => decide (st.voteRef.leaderId.toCommitted mode ≠ c.leaderId)) then e
  else
    let prev := st.clusterCommitted
    let st := { st with ioState :=
      st.ioState.tryUpdateClusterCommitted mode ⟨st.voteRef.leaderId, granted⟩ }
    let st := st.updateLocalCommitted granted
    let e := { e with state := st }
    if prev < st.clusterCommitted then
      e.pushCommand (.replicateCommitted st.clusterCommitted)
    else e

/-- `ReplicationHandler::update_matching`. -/
def updateMatching (e : Engine NID N D) (l : Leader NID N) (nodeId : NID)
    (logId : Option (LogId NID)) (inflightId : Option Nat) : Option (Engine NID N D) :=
  match l.progress.updateEntryWith nodeId (fun x => ProgressEntry.updateMatching x logId inflightId)
  with
  | none => none
  | some (false, _) => some e
  | some (true, progress) =>
    some ({ e with leader := some { l with progress := progress } }.tryCommitQuorumAccepted
      progress.quorumAccepted)

/-- `ReplicationHandler::update_conflicting`. -/
def updateConflicting (e : Engine NID N D) (l : Leader NID N) (target : NID)
    (conflict : LogId NID) (inflightId : Option Nat) : Engine NID N D :=
  { e with leader := some { l with progress := l.progress.resetEntryWith target fun x =>
      ProgressEntry.updateConflicting e.config.allowLogReversion x conflict.index inflightId } }

/-- `ReplicationHandler::try_purge_log`. -/
def tryPurgeLogLeader (e : Engine NID N D) (l : Leader NID N) : Engine NID N D :=
  match e.state.purgeUpto with
  | none => e
  | some upto =>
    if some upto ≤ e.state.logIds.purged then e
    else if l.progress.entries.any (fun x => ProgressEntry.isLogRangeInflight x upto) then e
    else e.purgeLog

/-- `Engine::try_purge_log`. -/
def tryPurgeLog (e : Engine NID N D) : Engine NID N D :=
  match e.leader with
  | some l => e.tryPurgeLogLeader l
  | none => e.purgeLog

/-- `ReplicationHandler::allow_next_revert`; `none` is `NodeNotFound`. -/
def allowNextRevert (e : Engine NID N D) (l : Leader NID N) (target : NID) (allow : Bool) :
    Option (Engine NID N D) :=
  let progress := l.progress.updateDataWith target fun d => { d with allowLogReversion := allow }
  (l.progress.tryGet target).map fun _ =>
    { e with leader := some { l with progress := progress } }

/-- The outcome of one replication request: `Ok` with the matching log id or the conflicting
    one, or an error of the transport. -/
inductive ReplicationResult (NID : Type) where
  | matching (logId : Option (LogId NID))
  | conflict (logId : LogId NID)
  | error

/-- `ReplicationHandler::update_progress`. -/
def updateProgress (e : Engine NID N D) (l : Leader NID N) (target : NID) (streamId : Nat)
    (result : ReplicationResult NID) (inflightId : Option Nat) : Option (Engine NID N D) :=
  if l.isReplicationStreamValid target streamId then
    let updated :=
      match result with
      | .matching logId => e.updateMatching l target logId inflightId
      | .conflict logId => some (e.updateConflicting l target logId inflightId)
      | .error =>
        let progress := l.progress.updateDataWith target fun d => { d with inflight := .none }
        some { e with leader := some { l with progress := progress } }
    updated.map fun e => e.tryPurgeLog
  else some e

/-- `ReplicationHandler::try_update_leader_clock`. -/
def tryUpdateLeaderClock (e : Engine NID N D) (l : Leader NID N) (streamId : Nat) (target : NID)
    (sendingTime : Nat) : Engine NID N D :=
  if l.isReplicationStreamValid target streamId then
    { e with leader := some (l.updateClock target sendingTime) }
  else e

/-- `ReplicationHandler::update_local_progress`. -/
def updateLocalProgress (e : Engine NID N D) (l : Leader NID N) (upto : Option (LogId NID)) :
    Option (Engine NID N D) :=
  match upto, l.progress.tryGet e.config.id with
  | none, _ => some e
  | some _, none => some e
  | some upto, some entry =>
    if some upto ≤ entry.progress then some e
    else
      let progress := l.progress.updateDataWith e.config.id fun d =>
        { d with inflight := .newLogs none (some upto) 0 }
      let l := { l with progress := progress }
      { e with leader := some l }.updateMatching l e.config.id (some upto) (some 0)

/-! ### Leader handler -/

/-- The first part of `leader_append_entries`: the leader `l` has assigned log ids to `entries`,
    which now go to the log. -/
def leaderExtendLog (e : Engine NID N D) (l : Leader NID N) (entries : List (Entry NID N D)) :
    Engine NID N D :=
  let e := { e with
    leader := some l
    state := { e.state with logIds := e.state.logIds.extend (entries.map Entry.logId) } }
  let e := e.acceptLogIo (.newLogIo l.committedVote l.lastLogId)
  e.pushCommand (.appendEntries l.committedVote entries)

/-- `LeaderHandler::leader_append_entries`. Of the memberships among the payloads the source
    asserts that there is at most one; the last one counts. -/
def leaderAppendEntries (e : Engine NID N D) (l : Leader NID N)
    (payloads : List (Payload NID N D)) : Engine NID N D :=
  match l.assignLogIds e.config.mode payloads.length with
  | none => e
  | some (logIds, l) =>
    let entries := List.zipWith (fun logId payload => (⟨logId, payload⟩ : Entry NID N D))
      logIds.toList payloads
    let e := e.leaderExtendLog l entries
    let membershipEntry := (entries.filterMap fun ent =>
      ent.payload.getMembership.map fun m => (ent.logId, m)).getLast?
    let e :=
      match membershipEntry with
      | some (logId, m) => e.appendMembership l logId m
      | none => e
    e.withLeader initiateReplication

/-- `LeaderHandler::transfer_leader`. -/
def transferLeader (e : Engine NID N D) (l : Leader NID N) (target : NID) : Engine NID N D :=
  { e with
    leader := some { l with transferTo := some target }
    state := { e.state with vote := e.state.vote.disableLease } }.pushCommand
      (.broadcastTransferLeader l.committedVote target l.lastLogId)

/-! ### Vote handler -/

/-- `RaftState::new_leader`, with the stream ids it uses. -/
def newLeader (e : Engine NID N D) (now : Nat) : Engine NID N D × Leader NID N :=
  let em := e.state.membershipState.effective.membership
  let gen := e.state.progressIdGen
  let l := Leader.new e.config.mode now e.state.voteRef.leaderId em em.learnerIds
    e.state.logIds.byLastLeader gen
  ({ e with state := { e.state with
      progressIdGen := gen + Leader.freshCount em em.learnerIds } }, l)

/-- `VoteHandler::become_leader`. -/
def becomeLeader (e : Engine NID N D) (now : Nat) : Engine NID N D :=
  if e.leader.any (fun l => decide (l.committedVote = e.state.voteRef.leaderId)) then e
  else
    let (e, l) := e.newLeader now
    let e := { e with leader := some l }
    let io := IOId.newLogIo l.committedVote l.lastLogId
    let e := e.acceptLogIo io
    let e := e.pushCommand (.updateIOProgress none io)
    let e := e.withLeader fun e l => e.rebuildReplicationStreams l true
    if l.lastLogId < some l.noopLogId then
      e.withLeader fun e l => e.leaderAppendEntries l [.blank]
    else e.withLeader initiateReplication

/-- `VoteHandler::become_following`. -/
def becomeFollowing (e : Engine NID N D) : Engine NID N D :=
  let hadLeadingState := e.leader.isSome || e.candidate.isSome || e.preCandidate.isSome
  let e := { e with leader := none, candidate := none, preCandidate := none }
  let e := e.prependCommand .failPendingReads
  if hadLeadingState then e.pushCommand .closeReplicationStreams else e

/-- `VoteHandler::update_internal_server_state`. -/
def updateInternalServerState (e : Engine NID N D) (now : Nat) : Engine NID N D :=
  if e.state.isLeader e.config.id then e.becomeLeader now
  else if e.state.isLeading e.config.id then e
  else e.becomeFollowing

/-- The part of `update_vote` that takes over a vote: a greater one is saved, for the same one
    the lease is extended. -/
def adoptVote (e : Engine NID N D) (now : Nat) (vote : Vote NID) : Engine NID N D :=
  let lease := if vote.committed then e.config.leaderLease else 0
  if vote.gt e.config.mode e.state.voteRef then
    let e := { e with state := { e.state with vote := e.state.vote.update now lease vote } }
    (e.acceptLogIo (.new vote)).pushCommand (.saveVote vote)
  else { e with state := { e.state with vote := e.state.vote.touch now lease } }

/-- `VoteHandler::update_vote`: the engine, and whether the vote is accepted. -/
def updateVote (e : Engine NID N D) (now : Nat) (vote : Vote NID) : Engine NID N D × Bool :=
  if vote.ge e.config.mode e.state.voteRef then
    ((e.adoptVote now vote).updateInternalServerState now, true)
  else (e, false)

/-! ### Following handler -/

/-- `FollowingHandler::truncate_logs`. -/
def truncateLogs (e : Engine NID N D) (since : Nat) : Engine NID N D :=
  match e.state.getLogId since with
  | none => e
  | some _ =>
    { e with state := { e.state with
        logIds := e.state.logIds.truncate since
        membershipState := e.state.membershipState.truncate since } }.pushCommand
      (.truncateLog (e.state.prevLogId since))

/-- `FollowingHandler::last_two_memberships`. -/
def lastTwoMemberships (entries : List (Entry NID N D)) : List (StoredMembership NID N) :=
  let ms := entries.filterMap fun ent =>
    ent.payload.getMembership.map fun m => (⟨some ent.logId, m⟩ : StoredMembership NID N)
  ms.drop (ms.length - 2)

/-- `FollowingHandler::do_append_entries`. -/
def doAppendEntries (e : Engine NID N D) (entries : List (Entry NID N D)) : Engine NID N D :=
  { e with state := { e.state with
      logIds := e.state.logIds.extend (entries.map Entry.logId)
      membershipState :=
        (lastTwoMemberships entries).foldl MembershipState.append e.state.membershipState }
    }.pushCommand (.appendEntries e.state.voteRef.leaderId entries)

/-- `FollowingHandler::append_entries`. The vote of the leader is the vote of the state. -/
def followingAppendEntries (e : Engine NID N D) (prevLogId : Option (LogId NID))
    (entries : List (Entry NID N D)) : Engine NID N D :=
  let leaderVote := e.state.voteRef.leaderId
  let lastLogId := max prevLogId (entries.getLast?.map Entry.logId)
  let prevAccepted := e.state.acceptedLogIo
  let io := IOId.newLogIo leaderVote lastLogId
  let e := e.acceptLogIo io
  let since := e.state.firstConflictingIndex entries
  match entries.drop since with
  | first :: rest => (e.truncateLogs first.logId.index).doAppendEntries (first :: rest)
  | [] =>
    if prevAccepted.any (fun prev => prev.ge e.config.mode io) then e
    else e.pushCommand (.updateIOProgress (prevAccepted.map .ioFlushed) io)

/-- `FollowingHandler::ensure_log_consecutive`: the engine, and the conflict if there is one. -/
def ensureLogConsecutive (e : Engine NID N D) (prevLogId : Option (LogId NID)) :
    Engine NID N D × Option (StreamAppendError NID) :=
  match prevLogId with
  | none => (e, none)
  | some prev =>
    if e.state.hasLogId prev then (e, none)
    else (e.truncateLogs prev.index, some (.conflict prev))

/-- The truncation in `install_full_snapshot`: a log that has another id where the snapshot ends
    is dropped from the first id on that is not committed. -/
def truncateForSnapshot (e : Engine NID N D) (last : LogId NID) : Engine NID N D :=
  match e.state.getLogId last.index with
  | some x => if x = last then e else e.truncateLogs (nextIndex e.state.localCommitted)
  | none => e

/-- The cursors, the membership and the command of `install_full_snapshot`. -/
def acceptSnapshot (e : Engine NID N D) (io : LogIOId NID) (snapshot : Snapshot NID N D)
    (last : LogId NID) : Engine NID N D :=
  let e := e.acceptLogIo (.log io)
  let e := { e with state := { e.state with
    ioState := { e.state.ioState with
      applyProgress := e.state.ioState.applyProgress.accept last
      snapshot := e.state.ioState.snapshot.accept last }
    membershipState := e.state.membershipState.installMembershipSnapshot
      snapshot.snapshotMeta.lastMembership last.index
    purgeUpto := some last } }
  e.pushCommand (.stateMachine (.installFullSnapshot io snapshot))

/-- `FollowingHandler::install_full_snapshot`: the engine, and the condition a response waits
    for. -/
def installFullSnapshot (e : Engine NID N D) (snapshot : Snapshot NID N D) :
    Option (Engine NID N D × Option (Condition NID)) :=
  let leaderVote := e.state.voteRef.leaderId
  match snapshot.snapshotMeta.lastLogId with
  | none => some (e, none)
  | some last =>
    if some last ≤ e.state.localCommitted then some (e, none)
    else if leaderVote.toCommitted e.config.mode < last.leaderId then none
    else if some last.index ≤ optIndex e.state.localCommitted then none
    else
      let (e, updated) := e.updateSnapshot snapshot.snapshotMeta
      if !updated then some (e, none)
      else
        let e := (e.truncateForSnapshot last).acceptSnapshot ⟨leaderVote, some last⟩ snapshot last
        some (e.purgeLog, some (.snapshot last))

/-! ### Elections -/

/-- `Engine::create_candidate`. -/
def createCandidate (e : Engine NID N D) (vote : Vote NID) : Candidate NID N :=
  let m := e.state.membershipState.effective.membership
  .new vote e.state.lastLogId m m.learnerIds

/-- `Engine::do_elect`. -/
def doElect (e : Engine NID N D) (now : Nat) (leadershipTransfer : Bool) : Engine NID N D :=
  let e := { e with preCandidate := none }
  if e.leader.isSome then e
  else
    let newVote : Vote NID := ⟨⟨e.state.voteRef.leaderId.term + 1, e.config.id⟩, false⟩
    let candidate := e.createCandidate newVote
    let e := { e with candidate := some candidate }
    let e := (e.updateVote now newVote).1
    e.pushCommand (.sendVote false ⟨newVote, candidate.lastLogId, leadershipTransfer⟩)

/-- `Engine::pre_elect`. -/
def preElect (e : Engine NID N D) (now : Nat) : Engine NID N D :=
  if e.state.voteRef.committed && !e.state.vote.isExpired now 0 then e
  else
    let preVote : Vote NID := ⟨⟨e.state.voteRef.leaderId.term + 1, e.config.id⟩, false⟩
    let (preCandidate, quorumGranted) := (e.createCandidate preVote).grantBy e.config.id
    let e := { e with preCandidate := some preCandidate }
    if quorumGranted then e.doElect now false
    else e.pushCommand (.sendVote true ⟨preVote, preCandidate.lastLogId, false⟩)

/-- `Engine::is_leader_lease_valid`. -/
def isLeaderLeaseValid (e : Engine NID N D) (now : Nat) (leadershipTransfer : Bool) : Bool :=
  !leadershipTransfer &&
    (e.state.voteRef.committed && !e.state.vote.isExpired now 0 ||
      e.leader.any fun l => l.isLeaseValid now e.config.leaderLease)

/-- `Engine::handle_vote_req`. -/
def handleVoteReq (e : Engine NID N D) (now : Nat) (req : VoteRequest NID) :
    Engine NID N D × VoteResponse NID :=
  if e.isLeaderLeaseValid now req.leadershipTransfer || decide (req.lastLogId < e.state.lastLogId)
  then (e, ⟨e.state.voteRef, false, e.state.lastLogId⟩)
  else
    let (e, accepted) := e.updateVote now req.vote
    (e, ⟨e.state.voteRef, accepted, e.state.lastLogId⟩)

/-- `Engine::handle_pre_vote_req`. -/
def handlePreVoteReq (e : Engine NID N D) (now : Nat) (req : VoteRequest NID) :
    VoteResponse NID :=
  let granted :=
    if e.isLeaderLeaseValid now req.leadershipTransfer || decide (req.lastLogId < e.state.lastLogId)
    then false
    else req.vote.ge e.config.mode e.state.voteRef
  ⟨e.state.voteRef, granted, e.state.lastLogId⟩

/-- `EstablishHandler::establish`. -/
def establish (e : Engine NID N D) (now : Nat) (c : Candidate NID N) :
    Engine NID N D × Option (Leader NID N) :=
  if e.leader.any (fun l => !c.vote.gt e.config.mode ⟨l.committedVote, true⟩) then (e, none)
  else
    let gen := e.state.progressIdGen
    let l := c.intoLeader e.config.mode now gen
    ({ e with
      leader := some l
      state := { e.state with
        progressIdGen := gen + Leader.freshCount c.quorumSet c.learnerIds } }, some l)

/-- The second part of `establish_leader`: the new leader `l` opens its streams, saves its vote
    and proposes a blank entry. -/
def startLeading (e : Engine NID N D) (now : Nat) (l : Leader NID N) : Option (Engine NID N D) :=
  let e := e.rebuildReplicationStreams l true
  let e := (e.updateVote now ⟨l.committedVote, true⟩).1
  let e := e.acceptLogIo (.newLogIo l.committedVote l.lastLogId)
  e.leader.map fun l => e.leaderAppendEntries l [.blank]

/-- `Engine::establish_leader`, for the candidate that a quorum has granted. The `unwrap` of a
    leader that is gone stops the node. -/
def establishLeader (e : Engine NID N D) (now : Nat) (c : Candidate NID N) :
    Option (Engine NID N D) :=
  match { e with candidate := none }.establish now c with
  | (e, none) => some e
  | (e, some l) => { e with preCandidate := none }.startLeading now l

/-- `Engine::handle_rejected_vote_resp`. -/
def handleRejectedVoteResp (e : Engine NID N D) (now : Nat) (resp : VoteResponse NID)
    (isPreVote : Bool) : Engine NID N D :=
  let e := if e.state.lastLogId < resp.lastLogId then { e with seenGreaterLog := true } else e
  if !isPreVote || resp.vote.gt e.config.mode e.state.voteRef then
    (e.updateVote now resp.vote.toNonCommitted).1
  else e

/-- `Engine::handle_vote_resp`. -/
def handleVoteResp (e : Engine NID N D) (now : Nat) (target : NID) (resp : VoteResponse NID) :
    Option (Engine NID N D) :=
  match e.candidate with
  | none => some e
  | some c =>
    if resp.voteGranted && decide (resp.vote = c.vote) then
      let (c, quorumGranted) := c.grantBy target
      if quorumGranted then e.establishLeader now c
      else some { e with candidate := some c }
    else some (e.handleRejectedVoteResp now resp false)

/-- `Engine::handle_pre_vote_resp`. -/
def handlePreVoteResp (e : Engine NID N D) (now : Nat) (target : NID)
    (resp : VoteResponse NID) : Engine NID N D :=
  match e.preCandidate with
  | none => e
  | some c =>
    if resp.voteGranted then
      let (c, quorumGranted) := c.grantBy target
      let e := { e with preCandidate := some c }
      if quorumGranted then e.doElect now false else e
    else e.handleRejectedVoteResp now resp true

/-! ### Requests of a leader -/

/-- `LogSegment::last`. -/
def segmentLast (prevLogId : Option (LogId NID)) (entries : List (Entry NID N D)) :
    Option (LogId NID) :=
  (entries.getLast?.map Entry.logId).or prevLogId

/-- `Engine::append_entries`. -/
def appendEntries (e : Engine NID N D) (now : Nat) (vote : Vote NID)
    (prevLogId : Option (LogId NID)) (entries : List (Entry NID N D)) :
    Engine NID N D × Except (StreamAppendError NID) (Option (LogId NID)) :=
  match e.updateVote now vote with
  | (e, false) => (e, .error (.higherVote e.state.voteRef))
  | (e, true) =>
    match e.ensureLogConsecutive prevLogId with
    | (e, some err) => (e, .error err)
    | (e, none) =>
      (e.followingAppendEntries prevLogId entries, .ok (segmentLast prevLogId entries))

/-- `Engine::handle_append_entries`. -/
def handleAppendEntries (e : Engine NID N D) (now : Nat) (ctx : StreamCtx NID) (vote : Vote NID)
    (prevLogId : Option (LogId NID)) (entries : List (Entry NID N D)) : Engine NID N D :=
  let (e, result) := e.appendEntries now vote prevLogId entries
  let condition :=
    match result with
    | .ok _ => e.state.acceptedLogIo.map .ioFlushed
    | .error _ => none
  e.pushCommand (.respond condition (.appendEntries ctx result))

/-- `Engine::handle_install_full_snapshot`. -/
def handleInstallFullSnapshot (e : Engine NID N D) (now : Nat) (ctx : StreamCtx NID)
    (vote : Vote NID) (snapshot : Snapshot NID N D) : Option (Engine NID N D) :=
  let last := snapshot.snapshotMeta.lastLogId
  match e.updateVote now vote with
  | (e, false) =>
    let vote := e.state.voteRef
    some (e.pushCommand (.respond (some (.ioFlushed (.new vote)))
      (.installFullSnapshot ctx last vote)))
  | (e, true) =>
    (e.installFullSnapshot snapshot).map fun (e, condition) =>
      e.pushCommand (.respond condition (.installFullSnapshot ctx last e.state.voteRef))

/-! ### Forming a cluster -/

/-- `Engine::check_initialize` and `Engine::check_members_contain_me`. -/
def checkInitialize (e : Engine NID N D) (m : Membership NID N) : Option (InitializeError NID) :=
  if e.state.isInitialized then some (.notAllowed e.state.lastLogId e.state.voteRef)
  else if !m.isVoter e.config.id then some (.notInMembers e.config.id m.configs)
  else none

/-- `Engine::initialize`: the engine, and the error if the request is refused. -/
def initializeNode (e : Engine NID N D) (now : Nat) (m : Membership NID N) :
    Engine NID N D × Option (InitializeError NID) :=
  match e.checkInitialize m with
  | some err => (e, some err)
  | none =>
    let leaderId : LeaderId NID := ⟨0, e.config.id⟩
    let e := { e with state := { e.state with
      vote := e.state.vote.update now 0 ⟨leaderId, true⟩ } }
    (e.doAppendEntries [⟨⟨leaderId.toCommitted e.config.mode, 0⟩, .membership m⟩], none)

/-! ### Startup, snapshots and purges -/

/-- `Engine::startup`. -/
def startup (e : Engine NID N D) (now : Nat) : Engine NID N D :=
  if e.state.isLeader e.config.id then
    if e.config.enableLeaderRestore then e.updateInternalServerState now
    else
      { e with state := { e.state with
        vote := e.state.vote.update now 0 e.state.voteRef.toNonCommitted } }
  else e

/-- `Engine::on_building_snapshot_done`. -/
def onBuildingSnapshotDone (e : Engine NID N D) (m : SnapshotMeta NID N) : Engine NID N D :=
  let io := e.state.ioState
  let snapshot :=
    match m.lastLogId with
    | some last => io.snapshot.tryUpdateAll LogId.gt last
    | none => io.snapshot
  let e := { e with state := { e.state with
    ioState := { io with buildingSnapshot := false, snapshot := snapshot } } }
  let (e, updated) := e.updateSnapshot m
  if !updated then e else e.schedulePolicyBasedPurge.tryPurgeLog

/-- `Engine::trigger_purge_log`. The `unwrap` of a log id that is not there stops the node. -/
def triggerPurgeLog (e : Engine NID N D) (index : Nat) : Option (Engine NID N D) :=
  match e.state.snapshotMeta.lastLogId with
  | none => some e
  | some snapshotLast =>
    if index < nextIndex e.state.purgeUpto then some e
    else
      match e.state.getLogId (min index snapshotLast.index) with
      | none => none
      | some logId => some (e.updatePurgeUpto logId).tryPurgeLog

/-- `Engine::next_progress_driven_command`: the log ids to apply, the last applied one and the
    one to apply up to. -/
def nextProgressDrivenCommand (e : Engine NID N D) : Option (Command NID N D) :=
  let log := e.state.ioState.logProgress
  let app := e.state.ioState.applyProgress
  if log.submitted.map (·.toVote) = log.accepted.map (·.toVote) then
    let applicableUpto := min (log.submitted.bind (·.lastLogId)) app.accepted
    match applicableUpto with
    | some upto =>
      if nextIndex app.submitted < nextIndex applicableUpto then
        some (.saveCommittedAndApply app.submitted upto)
      else none
    | none => none
  else none

end Engine

end ZenohRaft
