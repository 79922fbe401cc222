/-
  One node at run time: `core/raft_core.rs`, `core/sm/worker.rs`, `storage/helper.rs`, with a
  log store and a state machine that keep to the contracts of `storage/*`.

  * Log store. An append returns at once and becomes durable later, in order; its callback then
    adds an IO id to `ioDone`. Writes are serialized: saving a vote, truncating and purging are
    durable when they return, and they return only after every earlier append is durable. So
    these commands run when `pending` is empty.
  * State machine. Its state is the list of the entries applied so far. Its worker takes one
    command at a time from `smQueue` and reports to `smDone`. An installed or built snapshot is
    durable; the applied state after it may be lost in a crash.
  * A crash keeps the durable part of the store, any number of the entries that were appended
    and not yet reported, the snapshot, and any prefix of the applied state. The node then
    starts again through `getInitialState` and `Engine.startup`.
  * `sent` collects every message the node ever sent. A message may be delivered any number of
    times, in any order, or never.

  Replication tasks are not modelled step by step: while the streams of a leader are open, a
  request may be sent for any part of the readable log, and so may the current snapshot.

  Left out: client responders, linearizable reads, and the merging of consecutive append
  commands, which only changes how many entries one storage write holds.
-/
import ZenohRaft.Engine

namespace ZenohRaft

open Lib

variable {NID N D : Type} [LinearOrder NID]

/-! ## Storage -/

/-- A log store: what is durable, and the appends that are not yet reported durable. -/
structure LogStore (NID N D : Type) where
  vote : Option (Vote NID)
  committed : Option (LogId NID)
  purged : Option (LogId NID)
  entries : List (Entry NID N D)
  pending : List (IOId NID × List (Entry NID N D))

namespace LogStore

/-- The entries a log reader can read. -/
def readable (s : LogStore NID N D) : List (Entry NID N D) :=
  s.entries ++ s.pending.flatMap (·.2)

/-- `RaftLogStorage::append`. -/
def append (s : LogStore NID N D) (io : IOId NID) (entries : List (Entry NID N D)) :
    LogStore NID N D :=
  { s with pending := s.pending ++ [(io, entries)] }

/-- `RaftLogStorage::truncate_after`. -/
def truncateAfter (s : LogStore NID N D) (after : Option (LogId NID)) : LogStore NID N D :=
  { s with entries := s.entries.filter fun ent => decide (ent.logId.index < nextIndex after) }

/-- `RaftLogStorage::purge`. -/
def purge (s : LogStore NID N D) (upto : LogId NID) : LogStore NID N D :=
  { s with
    purged := some upto
    entries := s.entries.filter fun ent => decide (upto.index < ent.logId.index) }

/-- What a crash leaves, when `keep` of the entries not yet reported have reached the disk. -/
def crash (s : LogStore NID N D) (keep : Nat) : LogStore NID N D :=
  { s with entries := s.entries ++ (s.pending.flatMap (·.2)).take keep, pending := [] }

end LogStore

/-- The memberships among some entries, with their log ids. -/
def storedMemberships (entries : List (Entry NID N D)) : List (StoredMembership NID N) :=
  entries.filterMap fun ent => ent.payload.getMembership.map fun m => ⟨some ent.logId, m⟩

omit [LinearOrder NID] in
theorem storedMemberships_append (l l' : List (Entry NID N D)) :
    storedMemberships (l ++ l') = storedMemberships l ++ storedMemberships l' :=
  List.filterMap_append

/-- The last membership among some entries. -/
def lastMembershipIn (entries : List (Entry NID N D)) : StoredMembership NID N :=
  (storedMemberships entries).getLast?.getD .default

/-- A state machine: the entries applied to it, and the current snapshot. -/
structure StateMachine (NID N D : Type) where
  applied : List (Entry NID N D)
  snapshot : Option (Snapshot NID N D)

namespace StateMachine

/-- The first component of `RaftStateMachine::applied_state`. -/
def lastApplied (sm : StateMachine NID N D) : Option (LogId NID) :=
  sm.applied.getLast?.map Entry.logId

/-- The second component of `RaftStateMachine::applied_state`. -/
def lastMembership (sm : StateMachine NID N D) : StoredMembership NID N :=
  (storedMemberships sm.applied).getLast?.getD .default

/-- `RaftSnapshotBuilder::build_snapshot`. -/
def buildSnapshot (sm : StateMachine NID N D) : Snapshot NID N D :=
  ⟨⟨sm.lastApplied, sm.lastMembership⟩, sm.applied⟩

/-- `RaftStateMachine::install_snapshot`. -/
def installSnapshot (_ : StateMachine NID N D) (s : Snapshot NID N D) : StateMachine NID N D :=
  ⟨s.data, some s⟩

/-- `StorageHelper::restore_from_snapshot`. -/
def restoreFromSnapshot (sm : StateMachine NID N D) : StateMachine NID N D :=
  match sm.snapshot with
  | some s => if sm.lastApplied < s.snapshotMeta.lastLogId then sm.installSnapshot s else sm
  | none => sm

end StateMachine

/-- The entries of a log reader from index `start` up to `stop`, if it has all of them. -/
def readRange (entries : List (Entry NID N D)) (start stop : Nat) :
    Option (List (Entry NID N D)) :=
  let range := entries.filter fun ent =>
    decide (start ≤ ent.logId.index) && decide (ent.logId.index < stop)
  if range.head?.map (·.logId.index) = some start ∧
      range.getLast?.map (·.logId.index + 1) = some stop then some range
  else none

/-- `StorageHelper::get_membership`. -/
def getMembership (store : LogStore NID N D) (sm : StateMachine NID N D) :
    MembershipState NID N :=
  let since := max (nextIndex store.purged) (nextIndex sm.lastApplied)
  let inLog := storedMemberships (store.entries.filter fun ent =>
    decide (since ≤ ent.logId.index))
  match inLog.drop (inLog.length - 2) with
  | [a, b] => ⟨a, b⟩
  | [a] => ⟨sm.lastMembership, a⟩
  | _ => ⟨sm.lastMembership, sm.lastMembership⟩

/-- The last log id in `RaftLogStorage::get_log_state`. -/
def LogStore.lastLogId (store : LogStore NID N D) : Option (LogId NID) :=
  (store.entries.getLast?.map Entry.logId).or store.purged

/-- The part of `StorageHelper::get_initial_state` that brings the state machine to the last log
    id known to be committed, with that log id. -/
def reapplyCommitted (store : LogStore NID N D) (sm : StateMachine NID N D) :
    Option (StateMachine NID N D × Option (LogId NID)) :=
  let committed := max store.committed sm.lastApplied
  let sm := sm.restoreFromSnapshot
  if sm.lastApplied < committed then
    if nextIndex sm.lastApplied < nextIndex store.purged then none
    else
      (readRange store.entries (nextIndex sm.lastApplied) (nextIndex committed)).map
        fun entries => ({ sm with applied := sm.applied ++ entries }, committed)
  else some (sm, sm.lastApplied)

/-- The part of `StorageHelper::get_initial_state` that removes the logs which an installed
    snapshot has made obsolete. -/
def cleanHole (store : LogStore NID N D) : Option (LogId NID) → Option (LogStore NID N D)
  | some applied =>
    if store.lastLogId < some applied then
      if nextIndex (some applied) ≤ nextIndex store.lastLogId then none
      else some (store.purge applied)
    else some store
  | none => some store

/-- The part of `StorageHelper::get_initial_state` that builds a snapshot if logs are purged and
    there is none. -/
def StateMachine.ensureSnapshot (sm : StateMachine NID N D) (purged : Option (LogId NID)) :
    StateMachine NID N D :=
  if sm.snapshot.isNone && purged.isSome then { sm with snapshot := some sm.buildSnapshot }
  else sm

/-- The `RaftState` that `StorageHelper::get_initial_state` returns. -/
def RaftState.recovered (now : Nat) (vote : Vote NID) (store : LogStore NID N D)
    (sm : StateMachine NID N D) (membershipState : MembershipState NID N)
    (lastApplied : Option (LogId NID)) : RaftState NID N :=
  let snapshotMeta := (sm.snapshot.map (·.snapshotMeta)).getD ⟨none, .default⟩
  { vote := .new now 0 vote
    logIds := ⟨store.purged, store.entries.map Entry.logId⟩
    membershipState := membershipState
    snapshotMeta := snapshotMeta
    lastInflightId := 0
    ioState := .new vote lastApplied snapshotMeta.lastLogId store.purged
    purgeUpto := store.purged
    progressIdGen := 1 }

/-- `StorageHelper::get_initial_state`. `none` is one of its errors. -/
def getInitialState (id : NID) (now : Nat) (store : LogStore NID N D)
    (sm : StateMachine NID N D) :
    Option (RaftState NID N × LogStore NID N D × StateMachine NID N D) :=
  let vote := store.vote.getD ⟨⟨0, id⟩, false⟩
  if store.lastLogId < store.purged then none
  else
    (reapplyCommitted store sm).bind fun (sm, lastApplied) =>
      (cleanHole store lastApplied).map fun cleaned =>
        let final := sm.ensureSnapshot cleaned.purged
        (RaftState.recovered now vote cleaned final (getMembership store sm) lastApplied,
          cleaned, final)

/-! ## The node -/

/-- What nodes send to each other. A response carries what the task that receives it knows. -/
inductive Message (NID N D : Type) where
  | vote (isPreVote : Bool) (src dst : NID) (req : VoteRequest NID)
  | voteResp (isPreVote : Bool) (src dst : NID) (candidateVote : LeaderId NID)
      (resp : VoteResponse NID)
  | appendEntries (ctx : StreamCtx NID) (req : AppendEntriesRequest NID N D)
  | appendEntriesResp (ctx : StreamCtx NID)
      (result : Except (StreamAppendError NID) (Option (LogId NID)))
  | installFullSnapshot (ctx : StreamCtx NID) (vote : Vote NID) (snapshot : Snapshot NID N D)
  | installFullSnapshotResp (ctx : StreamCtx NID) (lastLogId : Option (LogId NID))
      (vote : Vote NID)
  | transferLeader (dst : NID) (vote : LeaderId NID) (target : NID)
      (lastLogId : Option (LogId NID))
  /-- the answer to the application that asked `node` to form a cluster -/
  | initializeResp (node : NID) (error : Option (InitializeError NID))

/-- The node a message is for. -/
def Message.dst : Message NID N D → NID
  | .vote _ _ dst _ => dst
  | .voteResp _ _ dst _ _ => dst
  | .appendEntries ctx _ => ctx.target
  | .appendEntriesResp ctx _ => ctx.leader
  | .installFullSnapshot ctx _ _ => ctx.target
  | .installFullSnapshotResp ctx _ _ => ctx.leader
  | .transferLeader dst _ _ _ => dst
  | .initializeResp node _ => node

/-- `Respond::send`, by the node `src`. -/
def Respond.toMessage (src : NID) : Respond NID → Message NID N D
  | .vote isPreVote candidate candidateVote resp =>
    .voteResp isPreVote src candidate candidateVote resp
  | .appendEntries ctx result => .appendEntriesResp ctx result
  | .installFullSnapshot ctx lastLogId v => .installFullSnapshotResp ctx lastLogId v
  | .initialized error => .initializeResp src error

/-- `sm::Response`. -/
inductive SmResponse (NID N : Type) where
  | buildSnapshotDone (snapshotMeta : SnapshotMeta NID N)
  | installSnapshot (logIoId : LogIOId NID) (snapshotMeta : SnapshotMeta NID N)
  | apply (lastApplied : LogId NID)

/-- `RaftCore` with its storage, its state machine worker and its replication tasks. -/
structure Node (NID N D : Type) where
  engine : Engine NID N D
  store : LogStore NID N D
  sm : StateMachine NID N D
  /-- the commands in the channel to the state machine worker -/
  smQueue : List (SmCommand NID N D)
  /-- the `LocalIO` notifications -/
  ioDone : List (IOId NID)
  /-- the `StateMachine` notifications -/
  smDone : List (SmResponse NID N)
  /-- the replication streams: the leader they work for, and the targets with stream ids -/
  streams : Option (LeaderId NID × List (NID × Nat))
  /-- `io_broadcast.committed` -/
  committedWatch : Option (LogId NID)
  incarnation : Nat
  stopped : Bool
  sent : List (Message NID N D)

namespace Node

/-- The id of the node. -/
def id (n : Node NID N D) : NID := n.engine.config.id

/-- Replace the engine. -/
def withEngine (n : Node NID N D) (e : Engine NID N D) : Node NID N D := { n with engine := e }

/-- The node after a handler of the engine; `none` means that the handler stopped the node. -/
def afterEngine (n : Node NID N D) : Option (Engine NID N D) → Node NID N D
  | some e => n.withEngine e
  | none => { n with stopped := true }

/-- Update the state of the engine. -/
def mapState (n : Node NID N D) (f : RaftState NID N → RaftState NID N) : Node NID N D :=
  n.withEngine { n.engine with state := f n.engine.state }

/-- Update the cursors of the engine. -/
def mapIo (n : Node NID N D) (f : IOState NID → IOState NID) : Node NID N D :=
  n.mapState fun s => { s with ioState := f s.ioState }

/-- Send messages. -/
def send (n : Node NID N D) (ms : List (Message NID N D)) : Node NID N D :=
  { n with sent := n.sent ++ ms }

/-- `log_progress_mut().submit`. -/
def submitLog (n : Node NID N D) (io : IOId NID) : Node NID N D :=
  n.mapIo fun s => { s with logProgress := s.logProgress.submit io }

/-! ### Commands -/

/-- `RaftCore::run_update_io_progress`. -/
def runUpdateIoProgress (n : Node NID N D) (io : IOId NID) : Node NID N D :=
  { n.submitLog io with ioDone := n.ioDone ++ [io] }

/-- `RaftCore::run_append_entries`. -/
def runAppendEntries (n : Node NID N D) (committedVote : LeaderId NID)
    (entries : List (Entry NID N D)) : Node NID N D :=
  let io := IOId.newLogIo committedVote (entries.getLast?.map Entry.logId)
  { n.submitLog io with store := n.store.append io entries }

/-- `RaftCore::run_save_vote`. -/
def runSaveVote (n : Node NID N D) (vote : Vote NID) : Node NID N D :=
  let io := IOId.new vote
  let n := { n.submitLog io with
    store := { n.store with vote := some vote }
    ioDone := n.ioDone ++ [io] }
  if vote.committed then n
  else n.send [.voteResp false n.id n.id vote.leaderId ⟨vote, true, none⟩]

/-- `RaftCore::run_purge_log`. -/
def runPurgeLog (n : Node NID N D) (upto : LogId NID) : Node NID N D :=
  { n.mapIo fun s => { s with purged := some upto } with store := n.store.purge upto }

/-- `RaftCore::run_truncate_log`. -/
def runTruncateLog (n : Node NID N D) (after : Option (LogId NID)) : Node NID N D :=
  { n with store := n.store.truncateAfter after }

/-- `RaftCore::run_save_committed_and_apply`. -/
def runSaveCommittedAndApply (n : Node NID N D) (alreadyApplied : Option (LogId NID))
    (upto : LogId NID) : Node NID N D :=
  let n := { n.mapIo fun s => { s with applyProgress := s.applyProgress.submit upto } with
    store := { n.store with committed := some upto } }
  match n.engine.state.getLogId (nextIndex alreadyApplied) with
  | some first => { n with smQueue := n.smQueue ++ [.apply first upto] }
  | none => { n with stopped := true }

/-- `RaftCore::run_state_machine`. -/
def runStateMachine (n : Node NID N D) (command : SmCommand NID N D) : Node NID N D :=
  let n :=
    match command with
    | .installFullSnapshot io snapshot =>
      let n := n.submitLog (.log io)
      match snapshot.snapshotMeta.lastLogId with
      | some last => n.mapIo fun s => { s with
          applyProgress := s.applyProgress.submit last
          snapshot := s.snapshot.submit last }
      | none => n
    | _ => n
  { n with smQueue := n.smQueue ++ [command] }

/-- The voters other than this node, to which `broadcast_to_voters` sends. -/
def otherVoters (n : Node NID N D) : List NID :=
  n.engine.state.membershipState.effective.membership.ids.filter fun t => decide (t ≠ n.id)

/-- The body of `RaftCore::run_command`, for a command whose condition is met. `none` means that
    the log store has to finish an append first. -/
def execCommand (n : Node NID N D) : Command NID N D → Option (Node NID N D)
  | .updateIOProgress _ io => some (n.runUpdateIoProgress io)
  | .appendEntries committedVote entries => some (n.runAppendEntries committedVote entries)
  | .replicateCommitted committed =>
    some { n with committedWatch := max n.committedWatch committed }
  | .saveCommittedAndApply alreadyApplied upto =>
    some (n.runSaveCommittedAndApply alreadyApplied upto)
  | .replicate _ _ => some n
  | .replicateSnapshot _ _ _ => some n
  | .broadcastTransferLeader vote target lastLogId =>
    some (n.send (n.otherVoters.map fun t => .transferLeader t vote target lastLogId))
  | .closeReplicationStreams => some { n with streams := none }
  | .failPendingReads => some n
  | .rebuildReplicationStreams leaderVote targets _ =>
    some { n with streams := some (leaderVote, targets) }
  | .saveVote vote => if n.store.pending.isEmpty then some (n.runSaveVote vote) else none
  | .sendVote isPreVote req =>
    some (n.send (n.otherVoters.map fun t => .vote isPreVote n.id t req))
  | .purgeLog upto => if n.store.pending.isEmpty then some (n.runPurgeLog upto) else none
  | .truncateLog after => if n.store.pending.isEmpty then some (n.runTruncateLog after) else none
  | .stateMachine command => some (n.runStateMachine command)
  | .respond _ resp => some (n.send [resp.toMessage n.id])

/-- Replace the queue of commands. -/
def withCommands (n : Node NID N D) (cs : List (Command NID N D)) : Node NID N D :=
  n.withEngine { n.engine with output := { n.engine.output with commands := cs } }

/-- Whether the condition of a command is met. -/
def canRun (n : Node NID N D) (c : Command NID N D) : Bool :=
  match c.condition with
  | some cond => cond.isMet n.engine.config.mode n.engine.state.ioState
  | none => true

/-- `EngineOutput::postpone_command` for a respond that waits for `cond`. -/
def postponeRespond (n : Node NID N D) (cond : Condition NID) (resp : Respond NID) :
    Node NID N D :=
  let out := n.engine.output
  let pending :=
    match cond with
    | .ioFlushed io => { out.pendingResponds with
        onLogIo := out.pendingResponds.onLogIo ++ [(io, resp)] }
    | .snapshot logId => { out.pendingResponds with
        onSnapshot := out.pendingResponds.onSnapshot ++ [(logId, resp)] }
  n.withEngine { n.engine with output := { out with pendingResponds := pending } }

/-- One round of the loop of `RaftCore::run_engine_commands`. A respond whose condition is not
    met is put aside; any other such command blocks the queue. -/
def runCommand (n : Node NID N D) : Option (Node NID N D) :=
  match n.engine.output.commands with
  | [] => none
  | c :: cs =>
    if n.canRun c then (n.withCommands cs).execCommand c
    else
      match c with
      | .respond (some cond) resp => some ((n.withCommands cs).postponeRespond cond resp)
      | _ => none

/-- Whether `run_engine_commands` leaves its loop. -/
def commandsDone (n : Node NID N D) : Bool :=
  match n.engine.output.commands with
  | [] => true
  | .respond _ _ :: _ => false
  | c :: _ => !n.canRun c

/-- One round of `RaftCore::run_progress_driven_command`. -/
def runProgressDrivenCommand (n : Node NID N D) : Option (Node NID N D) :=
  if n.commandsDone then n.engine.nextProgressDrivenCommand.bind n.execCommand else none

/-- One round of `RaftCore::send_satisfied_responds` on the responds that wait for log IO. -/
def sendSatisfiedOnLogIo (n : Node NID N D) : Option (Node NID N D) :=
  let out := n.engine.output
  match out.pendingResponds.onLogIo with
  | [] => none
  | (io, resp) :: rest =>
    if (Condition.ioFlushed io).isMet n.engine.config.mode n.engine.state.ioState then
      some ((n.withEngine { n.engine with output := { out with
        pendingResponds := { out.pendingResponds with onLogIo := rest } } }).send
          [resp.toMessage n.id])
    else none

/-- One round of `RaftCore::send_satisfied_responds` on the responds that wait for a
    snapshot. -/
def sendSatisfiedOnSnapshot (n : Node NID N D) : Option (Node NID N D) :=
  let out := n.engine.output
  match out.pendingResponds.onSnapshot with
  | [] => none
  | (logId, resp) :: rest =>
    if (Condition.snapshot logId).isMet n.engine.config.mode n.engine.state.ioState then
      some ((n.withEngine { n.engine with output := { out with
        pendingResponds := { out.pendingResponds with onSnapshot := rest } } }).send
          [resp.toMessage n.id])
    else none

/-! ### Storage -/

/-- The log store makes its first append durable and reports it. -/
def flush (n : Node NID N D) : Option (Node NID N D) :=
  match n.store.pending with
  | [] => none
  | (io, entries) :: rest => some { n with
      store := { n.store with entries := n.store.entries ++ entries, pending := rest }
      ioDone := n.ioDone ++ [io] }

/-- One round of `Worker::worker_loop`. -/
def workerLoop (n : Node NID N D) : Option (Node NID N D) :=
  match n.smQueue with
  | [] => none
  | .buildSnapshot :: rest =>
    let snapshot := n.sm.buildSnapshot
    some { n with
      sm := { n.sm with snapshot := some snapshot }
      smQueue := rest
      smDone := n.smDone ++ [.buildSnapshotDone snapshot.snapshotMeta] }
  | .installFullSnapshot io snapshot :: rest =>
    some { n with
      sm := n.sm.installSnapshot snapshot
      smQueue := rest
      smDone := n.smDone ++ [.installSnapshot io snapshot.snapshotMeta] }
  | .apply first last :: rest =>
    match readRange n.store.readable first.index (last.index + 1) with
    | some entries => some { n with
        sm := { n.sm with applied := n.sm.applied ++ entries }
        smQueue := rest
        smDone := n.smDone ++ [.apply last] }
    | none => some { n with stopped := true }

/-- `RaftCore::handle_local_io`. -/
def handleLocalIo (n : Node NID N D) (io : IOId NID) : Node NID N D :=
  let n := n.mapIo fun s => { s with
    logProgress := s.logProgress.tryFlush (IOId.gt n.engine.config.mode) io }
  match io, n.engine.leader with
  | .log logIo, some l =>
    if logIo.committedVote = l.committedVote then
      n.afterEngine (n.engine.updateLocalProgress l logIo.logId)
    else n
  | _, _ => n

/-- `RaftCore::handle_state_machine_result`. -/
def handleStateMachineResult (n : Node NID N D) : SmResponse NID N → Node NID N D
  | .buildSnapshotDone m => n.withEngine (n.engine.onBuildingSnapshotDone m)
  | .installSnapshot io m =>
    let n := n.mapIo fun s => { s with
      logProgress := s.logProgress.tryFlush (IOId.gt n.engine.config.mode) (.log io) }
    match m.lastLogId with
    | some last => n.mapIo fun s => { s with
        applyProgress := s.applyProgress.tryFlush LogId.gt last
        snapshot := s.snapshot.tryFlush LogId.gt last }
    | none => n
  | .apply lastApplied => n.mapIo fun s => { s with
      applyProgress := s.applyProgress.tryFlush LogId.gt lastApplied }

/-! ### Requests and responses -/

/-- `RaftCore::handle_vote_request`. -/
def handleVoteRequest (n : Node NID N D) (now : Nat) (src : NID) (req : VoteRequest NID) :
    Node NID N D :=
  let (e, resp) := n.engine.handleVoteReq now req
  n.withEngine (e.pushCommand (.respond (some (.ioFlushed (.new e.state.voteRef)))
    (.vote false src req.vote.leaderId resp)))

/-- `RaftCore::handle_pre_vote_request`. -/
def handlePreVoteRequest (n : Node NID N D) (now : Nat) (src : NID) (req : VoteRequest NID) :
    Node NID N D :=
  let resp := n.engine.handlePreVoteReq now req
  n.withEngine (n.engine.pushCommand (.respond none (.vote true src req.vote.leaderId resp)))

/-- `RaftCore::handle_append_entries_request`. -/
def handleAppendEntriesRequest (n : Node NID N D) (now : Nat) (ctx : StreamCtx NID)
    (req : AppendEntriesRequest NID N D) : Node NID N D :=
  let e := n.engine.handleAppendEntries now ctx req.vote req.prevLogId req.entries
  n.withEngine { e with
    state := e.state.updateCommitted e.config.mode ⟨req.vote.leaderId, req.leaderCommit⟩ }

/-- The `VoteResponse` and `PreVoteResponse` notifications. -/
def handleVoteResponse (n : Node NID N D) (now : Nat) (isPreVote : Bool) (src : NID)
    (candidateVote : LeaderId NID) (resp : VoteResponse NID) : Node NID N D :=
  let candidate := if isPreVote then n.engine.preCandidate else n.engine.candidate
  if candidate.map (·.vote.leaderId) = some candidateVote then
    if isPreVote then n.withEngine (n.engine.handlePreVoteResp now src resp)
    else n.afterEngine (n.engine.handleVoteResp now src resp)
  else n

/-- The `HigherVote` notification. -/
def handleHigherVote (n : Node NID N D) (now : Nat) (leaderVote : LeaderId NID)
    (higher : Vote NID) : Node NID N D :=
  if n.engine.leader.map (·.committedVote) = some leaderVote then
    n.withEngine (n.engine.updateVote now higher).1
  else n

/-- The `ReplicationProgress` notification. -/
def handleReplicationProgress (n : Node NID N D) (ctx : StreamCtx NID)
    (result : Engine.ReplicationResult NID) : Node NID N D :=
  match n.engine.leader with
  | some l =>
    n.afterEngine (n.engine.updateProgress l ctx.target ctx.streamId result ctx.inflightId)
  | none => n

/-- The `HeartbeatProgress` notification. -/
def handleHeartbeatProgress (n : Node NID N D) (ctx : StreamCtx NID) : Node NID N D :=
  n.withEngine (n.engine.withLeader fun e l =>
    e.tryUpdateLeaderClock l ctx.streamId ctx.target ctx.sendingTime)

/-- What a replication task or a heartbeat worker reports of a response, the clock apart. -/
def handleAppendEntriesResponse (n : Node NID N D) (now : Nat) (ctx : StreamCtx NID) :
    Except (StreamAppendError NID) (Option (LogId NID)) → Node NID N D
  | .ok none => n
  | .ok (some matching) =>
    if ctx.heartbeat then n else n.handleReplicationProgress ctx (.matching (some matching))
  | .error (.conflict expect) => n.handleReplicationProgress ctx (.conflict expect)
  | .error (.higherVote higher) => n.handleHigherVote now ctx.leaderVote higher

/-- What a snapshot transmitter reports of a response, the clock apart. -/
def handleInstallSnapshotResponse (n : Node NID N D) (now : Nat) (ctx : StreamCtx NID)
    (lastLogId : Option (LogId NID)) (vote : Vote NID) : Node NID N D :=
  if vote.gt n.engine.config.mode ⟨ctx.leaderVote, true⟩ then
    n.handleHigherVote now ctx.leaderVote vote
  else n.handleReplicationProgress ctx (.matching lastLogId)

/-- `RaftMsg::HandleTransferLeader`. -/
def handleTransferLeader (n : Node NID N D) (now : Nat) (vote : LeaderId NID) (target : NID)
    (lastLogId : Option (LogId NID)) : Node NID N D :=
  let e := n.engine
  if e.state.voteRef = ⟨vote, true⟩ then
    let e := { e with state := { e.state with vote := e.state.vote.disableLease } }
    if n.id = target ∧ ¬ e.state.lastLogId < lastLogId then n.withEngine (e.doElect now true)
    else n.withEngine e
  else n

/-! ### Requests of the application -/

/-- `RaftCore::ensure_leader_handler`. -/
def ensureLeaderHandler (n : Node NID N D) : Option (Leader NID N) :=
  n.engine.leader.filter fun l => l.transferTo.isNone

/-- `RaftCore::ensure_writable_leader_handler`. -/
def ensureWritableLeaderHandler (n : Node NID N D) (now : Nat) : Option (Leader NID N) :=
  n.ensureLeaderHandler.filter fun l => l.isLeaseValid now n.engine.config.leaderLease

/-- `RaftCore::write_entries`. -/
def writeEntries (n : Node NID N D) (now : Nat) (payloads : List (Payload NID N D)) :
    Node NID N D :=
  match n.ensureWritableLeaderHandler now with
  | some l => n.withEngine (n.engine.leaderAppendEntries l payloads)
  | none => n

/-- `RaftCore::change_membership`. A panic of `Membership::change` stops the node. -/
def changeMembership (n : Node NID N D) (now : Nat) (changes : ChangeMembers NID N)
    (retain : Bool) : Node NID N D :=
  match n.ensureLeaderHandler with
  | none => n
  | some _ =>
    match n.engine.state.membershipState.nextMembership changes retain with
    | none => { n with stopped := true }
    | some (.error _) => n
    | some (.ok m) => n.writeEntries now [.membership m]

/-- `RaftCore::ensure_leader_log_committed`. -/
def ensureLeaderLogCommitted (state : RaftState NID N) (l : Leader NID N) :
    Except (ChangeMembershipError NID N) Unit :=
  if some l.noopLogId ≤ state.clusterCommitted then .ok ()
  else .error (.uncommittedLeaderLog state.clusterCommitted l.noopLogId)

/-- `RaftCore::append_membership`. -/
def appendMembership [DecidableEq N] (n : Node NID N D) (now : Nat) (m : Membership NID N) :
    Node NID N D :=
  match n.ensureWritableLeaderHandler now with
  | none => n
  | some l =>
    match ensureLeaderLogCommitted n.engine.state l with
    | .error _ => n
    | .ok () =>
      match n.engine.state.membershipState.validateAppendMembership m with
      | .error _ => n
      | .ok () => n.writeEntries now [.membership m]

/-- `RaftCore::handle_initialize`. -/
def handleInitialize (n : Node NID N D) (now : Nat) (memberNodes : NodeMap NID N) :
    Node NID N D :=
  let (e, error) := n.engine.initializeNode now (.ofNodes memberNodes)
  match error with
  | some err => n.withEngine (e.pushCommand (.respond none (.initialized (some err))))
  | none =>
    let condition := e.state.acceptedLogIo.map .ioFlushed
    n.withEngine ((e.pushCommand (.respond condition (.initialized none))).doElect now false)

/-! ### Replication tasks -/

/-- The log ids of the log of this node, the purged ones included. -/
def knownLogIds (n : Node NID N D) : List (LogId NID) :=
  (n.sm.applied ++ n.store.readable).map Entry.logId

/-- The context of a request on the stream to `target`. -/
def streamCtx (n : Node NID N D) (leaderVote : LeaderId NID) (target : NID) (streamId : Nat)
    (heartbeat : Bool) (inflightId : Option Nat) (now : Nat) : StreamCtx NID :=
  ⟨n.id, n.incarnation, leaderVote, target, streamId, heartbeat, inflightId, now⟩

/-- A request of `StreamState::next_request`: up to `count` entries after `prev`. -/
def sendAppendEntries (n : Node NID N D) (now : Nat) (target : NID) (prev : Option (LogId NID))
    (count : Nat) (inflightId : Option Nat) : Option (Node NID N D) := do
  let (leaderVote, targets) ← n.streams
  let streamId ← targets.lookup target
  if prev.all (fun p => decide (p ∈ n.knownLogIds)) then
    let entries := (n.store.readable.filter fun ent =>
      decide (nextIndex prev ≤ ent.logId.index)).take count
    -- the reader returns the entries from the next index on, or none of them
    let entries :=
      if entries.head?.map (·.logId.index) = some (nextIndex prev) then entries else []
    some (n.send [.appendEntries (n.streamCtx leaderVote target streamId false inflightId now)
      ⟨⟨leaderVote, true⟩, prev, entries, n.committedWatch⟩])
  else none

/-- A request of a heartbeat worker. -/
def sendHeartbeat (n : Node NID N D) (now : Nat) (target : NID) : Option (Node NID N D) := do
  let (leaderVote, targets) ← n.streams
  let streamId ← targets.lookup target
  let l ← n.engine.leader
  let item ← l.progress.tryGet target
  if l.committedVote = leaderVote then
    some (n.send [.appendEntries (n.streamCtx leaderVote target streamId true none now)
      ⟨⟨leaderVote, true⟩, item.progress, [], n.engine.state.clusterCommitted⟩])
  else none

/-- `SnapshotTransmitter::send_snapshot`. -/
def sendSnapshot (n : Node NID N D) (now : Nat) (target : NID) (inflightId : Option Nat) :
    Option (Node NID N D) := do
  let (leaderVote, targets) ← n.streams
  let streamId ← targets.lookup target
  let snapshot ← n.sm.snapshot
  some (n.send [.installFullSnapshot
    (n.streamCtx leaderVote target streamId false inflightId now) ⟨leaderVote, true⟩ snapshot])

/-- A request on the stream to a target: it carries the vote of the leader it is for. -/
inductive SendsOnStream (n : Node NID N D) : Node NID N D → Prop
  | appendEntries {V : LeaderId NID} {ts : List (NID × Nat)} {target : NID} {streamId : Nat}
      (hst : n.streams = some (V, ts)) (ht : ts.lookup target = some streamId) (heartbeat : Bool)
      (inflightId : Option Nat) (now : Nat) (prev : Option (LogId NID))
      (entries : List (Entry NID N D)) (committed : Option (LogId NID)) :
      SendsOnStream n (n.send [.appendEntries
        (n.streamCtx V target streamId heartbeat inflightId now)
        ⟨⟨V, true⟩, prev, entries, committed⟩])
  | snapshot {V : LeaderId NID} {ts : List (NID × Nat)} {target : NID} {streamId : Nat}
      (hst : n.streams = some (V, ts)) (ht : ts.lookup target = some streamId)
      (inflightId : Option Nat) (now : Nat) (snapshot : Snapshot NID N D) :
      SendsOnStream n (n.send [.installFullSnapshot
        (n.streamCtx V target streamId false inflightId now) ⟨V, true⟩ snapshot])

section Streams

variable {n n' : Node NID N D} {now : Nat} {target : NID} {inflightId : Option Nat}

theorem sendAppendEntries_sends {prev : Option (LogId NID)} {count : Nat}
    (he : n.sendAppendEntries now target prev count inflightId = some n') :
    n.SendsOnStream n' := by
  obtain ⟨⟨V, ts⟩, hst, he⟩ := Option.bind_eq_some_iff.1 he
  obtain ⟨streamId, ht, he⟩ := Option.bind_eq_some_iff.1 he
  obtain ⟨-, he⟩ := Option.ite_none_right_eq_some.1 he
  obtain rfl := Option.some.inj he
  exact .appendEntries hst ht ..

theorem sendHeartbeat_sends (he : n.sendHeartbeat now target = some n') :
    n.SendsOnStream n' := by
  obtain ⟨⟨V, ts⟩, hst, he⟩ := Option.bind_eq_some_iff.1 he
  obtain ⟨streamId, ht, he⟩ := Option.bind_eq_some_iff.1 he
  obtain ⟨l, -, he⟩ := Option.bind_eq_some_iff.1 he
  obtain ⟨item, -, he⟩ := Option.bind_eq_some_iff.1 he
  obtain ⟨-, he⟩ := Option.ite_none_right_eq_some.1 he
  obtain rfl := Option.some.inj he
  exact .appendEntries hst ht ..

theorem sendSnapshot_sends (he : n.sendSnapshot now target inflightId = some n') :
    n.SendsOnStream n' := by
  obtain ⟨⟨V, ts⟩, hst, he⟩ := Option.bind_eq_some_iff.1 he
  obtain ⟨streamId, ht, he⟩ := Option.bind_eq_some_iff.1 he
  obtain ⟨snapshot, -, he⟩ := Option.bind_eq_some_iff.1 he
  obtain rfl := Option.some.inj he
  exact .snapshot hst ht ..

end Streams

/-! ### Start and restart -/

/-- `Raft::new`: a node that starts on what is in its storage, if it can start. -/
def start (config : EngineConfig NID) (incarnation : Nat) (sent : List (Message NID N D))
    (now : Nat) (store : LogStore NID N D) (sm : StateMachine NID N D) :
    Option (Node NID N D) :=
  (getInitialState config.id now store sm).map fun (state, store, sm) =>
    { engine := (Engine.new state config).startup now
      store := store
      sm := sm
      smQueue := []
      ioDone := []
      smDone := []
      streams := none
      committedWatch := none
      incarnation := incarnation
      stopped := false
      sent := sent }

/-- A crash and a restart: `keep` of the entries that were appended and not reported durable,
    and the first `appliedKeep` applied entries are kept. A node that cannot start is
    stopped. -/
def restart (n : Node NID N D) (now keep appliedKeep : Nat) : Node NID N D :=
  let store := n.store.crash keep
  let sm := { n.sm with applied := n.sm.applied.take appliedKeep }
  (start n.engine.config (n.incarnation + 1) n.sent now store sm).getD
    { n with store := store, sm := sm, stopped := true }

end Node

/-! ## Events -/

/-- What can happen at a node. -/
inductive Event (NID N D : Type) where
  /-- a request or response arrives -/
  | receive (m : Message NID N D)
  /-- the clock part of a response arrives -/
  | receiveClock (m : Message NID N D)
  | runCommand
  | runProgressDrivenCommand
  | sendSatisfiedOnLogIo
  | sendSatisfiedOnSnapshot
  | flush
  | workerLoop
  | localIo (io : IOId NID)
  | stateMachineResult
  | elect
  | preElect
  | triggerSnapshot
  | purgeLog (index : Nat)
  | triggerTransferLeader (target : NID)
  | refreshServerState
  /-- `trigger_routine_actions` -/
  | initiateReplication
  | replicationError (target : NID) (streamId : Nat) (inflightId : Option Nat)
  | write (data : List D)
  | changeMembership (changes : ChangeMembers NID N) (retain : Bool)
  | appendMembership (m : Membership NID N)
  | sendAppendEntries (target : NID) (prev : Option (LogId NID)) (count : Nat)
      (inflightId : Option Nat)
  | sendHeartbeat (target : NID)
  | sendSnapshot (target : NID) (inflightId : Option Nat)
  | restart (keep appliedKeep : Nat)

/-- Whether an event is a restart. -/
def Event.isRestart : Event NID N D → Bool
  | .restart _ _ => true
  | _ => false

namespace Node

/-- A message arrives. A response to a request that was sent before a restart is lost. -/
def receive (n : Node NID N D) (now : Nat) : Message NID N D → Option (Node NID N D)
  | .vote false src _ req => some (n.handleVoteRequest now src req)
  | .vote true src _ req => some (n.handlePreVoteRequest now src req)
  | .voteResp isPreVote src _ candidateVote resp =>
    some (n.handleVoteResponse now isPreVote src candidateVote resp)
  | .appendEntries ctx req => some (n.handleAppendEntriesRequest now ctx req)
  | .appendEntriesResp ctx result =>
    if ctx.incarnation = n.incarnation then
      some (n.handleAppendEntriesResponse now ctx result)
    else none
  | .installFullSnapshot ctx vote snapshot =>
    some (n.afterEngine (n.engine.handleInstallFullSnapshot now ctx vote snapshot))
  | .installFullSnapshotResp ctx lastLogId vote =>
    if ctx.incarnation = n.incarnation then
      some (n.handleInstallSnapshotResponse now ctx lastLogId vote)
    else none
  | .transferLeader _ vote target lastLogId =>
    some (n.handleTransferLeader now vote target lastLogId)
  | .initializeResp _ _ => none

/-- The clock part of a response: any answer but a higher vote shows that the leader was
    accepted when the request was sent. -/
def receiveClock (n : Node NID N D) : Message NID N D → Option (Node NID N D)
  | .appendEntriesResp ctx (.ok _) =>
    if ctx.incarnation = n.incarnation then some (n.handleHeartbeatProgress ctx) else none
  | .appendEntriesResp ctx (.error (.conflict _)) =>
    if ctx.incarnation = n.incarnation ∧ ctx.heartbeat then
      some (n.handleHeartbeatProgress ctx)
    else none
  | .installFullSnapshotResp ctx _ vote =>
    if ctx.incarnation = n.incarnation ∧
        ¬ vote.gt n.engine.config.mode ⟨ctx.leaderVote, true⟩ then
      some (n.handleHeartbeatProgress ctx)
    else none
  | _ => none

/-- What an event does. `none` means that it cannot happen in this state. -/
def perform [DecidableEq N] (n : Node NID N D) (now : Nat) : Event NID N D → Option (Node NID N D)
  | .receive m => n.receive now m
  | .receiveClock m => n.receiveClock m
  | .runCommand => n.runCommand
  | .runProgressDrivenCommand => n.runProgressDrivenCommand
  | .sendSatisfiedOnLogIo => n.sendSatisfiedOnLogIo
  | .sendSatisfiedOnSnapshot => n.sendSatisfiedOnSnapshot
  | .flush => n.flush
  | .workerLoop => n.workerLoop
  | .localIo io => if io ∈ n.ioDone then some (n.handleLocalIo io) else none
  | .stateMachineResult =>
    match n.smDone with
    | [] => none
    | r :: rest => some ({ n with smDone := rest }.handleStateMachineResult r)
  | .elect => some (n.withEngine (n.engine.doElect now false))
  | .preElect => some (n.withEngine (n.engine.preElect now))
  | .triggerSnapshot => some (n.withEngine n.engine.triggerSnapshot)
  | .purgeLog index => some (n.afterEngine (n.engine.triggerPurgeLog index))
  | .triggerTransferLeader target => some (n.withEngine
      (n.engine.withLeader fun e l => e.transferLeader l target))
  | .refreshServerState => some (n.withEngine (n.engine.updateInternalServerState now))
  | .initiateReplication => some (n.withEngine (n.engine.withLeader .initiateReplication))
  | .replicationError target streamId inflightId =>
    n.engine.leader.map fun l =>
      n.afterEngine (n.engine.updateProgress l target streamId .error inflightId)
  | .write data => some (n.writeEntries now (data.map .normal))
  | .changeMembership changes retain => some (n.changeMembership now changes retain)
  | .appendMembership m => some (n.appendMembership now m)
  | .sendAppendEntries target prev count inflightId =>
    n.sendAppendEntries now target prev count inflightId
  | .sendHeartbeat target => n.sendHeartbeat now target
  | .sendSnapshot target inflightId => n.sendSnapshot now target inflightId
  | .restart keep appliedKeep => some (n.restart now keep appliedKeep)

/-- One step of a node. A stopped node can only be restarted. -/
def step [DecidableEq N] (n : Node NID N D) (now : Nat) (ev : Event NID N D) :
    Option (Node NID N D) :=
  if n.stopped && !ev.isRestart then none else n.perform now ev

end Node

end ZenohRaft
