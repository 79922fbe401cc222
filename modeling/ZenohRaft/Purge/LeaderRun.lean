/-
  Runs of a leader: replication progress, finished snapshot builds, purges by the policy and by
  the user, writes, and the commands that wait in the queue, in any order.

  The history of a run is the list of all log ids that the leader's log has had. It only serves
  to say which log ids can be reported: a follower acknowledges log ids of the leader, at or
  behind the start of the range that was sent to it (`ReportOK`), and a snapshot ends at a
  committed log id (`Fits`).

  * `purge_safe`: along every such run, from a state that passes `RaftState::validate` and whose
    cursors are in its log, a purge runs only when a snapshot that covers it is flushed, every
    log range in flight starts at or behind the last purged log id, and `trigger_purge_log`
    finds the log id it looks for.
  * `triggerPurgeLog_fails`: `validate` alone is not enough. It compares log ids, and log ids are
    ordered by leader first.
-/
import ZenohRaft.Lib.PartialRun
import ZenohRaft.Purge.Leader
import ZenohRaft.Purge.Schedule

namespace ZenohRaft

open Lib

variable {NID N D : Type} [LinearOrder NID]

namespace Node

variable {n n' : Node NID N D} {H : List (LogId NID)}

/-- The leader of the node goes on; its store is not purged beyond its log. -/
def Continues (n : Node NID N D) (H : List (LogId NID)) : Prop :=
  n.engine.GoesOn H (nextIndex n.store.purged)

/-- The node leads, with a log that has had the ids `H`. -/
def Leads (n : Node NID N D) (H : List (LogId NID)) : Prop :=
  ∃ l, n.engine.Leads H (nextIndex n.store.purged) l

theorem Leads.continues (h : n.Leads H) : n.Continues H := by
  obtain ⟨l, hl⟩ := h
  exact hl.goesOn

/-- The engine and the purge of the store are all that counts. -/
theorem Leads.congr (h : n.Leads H) (he : n'.engine = n.engine)
    (hs : n'.store.purged = n.store.purged) : n'.Leads H := by
  unfold Leads
  rw [he, hs]
  exact h

/-- The log of a leader that goes on tells its history. -/
theorem Continues.leads (h : n.Continues H) :
    n.Leads (H ++ n.engine.state.logIds.ids.drop
      (H.length - n.engine.state.logIds.firstIndex)) := by
  obtain ⟨H', l, hpre, hfirst, hl⟩ := h
  have heq : H ++ n.engine.state.logIds.ids.drop
      (H.length - n.engine.state.logIds.firstIndex) = H' := by
    obtain ⟨new, rfl⟩ := hpre
    rw [hl.tail.ids, List.drop_drop, Nat.add_sub_cancel' hfirst, List.drop_left]
  rw [heq]
  exact ⟨l, hl⟩

/-! ### Commands -/

/-- Cursors that only the runtime moves. -/
theorem Leads.mapIo (h : n.Leads H) {f : IOState NID → IOState NID}
    (happly : (f n.engine.state.ioState).applyProgress.accepted =
      n.engine.state.ioState.applyProgress.accepted)
    (hsnap : (f n.engine.state.ioState).snapshot.flushed =
      n.engine.state.ioState.snapshot.flushed) : (n.mapIo f).Leads H := by
  obtain ⟨l, hl⟩ := h
  exact ⟨l, hl.step rfl rfl (hl.cursors.congr rfl rfl rfl happly) hsnap (fun _ hc => hc) hl.leader
    rfl rfl hl.progress⟩

theorem Leads.submitLog (h : n.Leads H) (io : IOId NID) : (n.submitLog io).Leads H :=
  h.mapIo rfl rfl

/-- A purge of the store. -/
theorem Leads.runPurgeLog (h : n.Leads H) {upto : LogId NID}
    (hupto : upto.index < n.engine.state.logIds.firstIndex) : (n.runPurgeLog upto).Leads H := by
  obtain ⟨l, hl⟩ := h.mapIo (f := fun s => { s with purged := some upto }) rfl rfl
  exact ⟨l, { hl with stored := hupto }⟩

theorem Leads.runSaveCommittedAndApply (h : n.Leads H) (applied : Option (LogId NID))
    (upto : LogId NID) : (n.runSaveCommittedAndApply applied upto).Leads H := by
  have hio := h.mapIo (f := fun s => { s with applyProgress := s.applyProgress.submit upto })
    rfl rfl
  unfold Node.runSaveCommittedAndApply
  dsimp only
  split
  · exact hio.congr rfl rfl
  · exact hio.congr rfl rfl

theorem Leads.runStateMachine (h : n.Leads H) (c : SmCommand NID N D) :
    (n.runStateMachine c).Leads H := by
  unfold Node.runStateMachine
  cases c with
  | buildSnapshot => exact h.congr rfl rfl
  | apply first last => exact h.congr rfl rfl
  | installFullSnapshot io snapshot =>
    have hs := h.submitLog (.log io)
    dsimp only
    cases snapshot.snapshotMeta.lastLogId with
    | none => exact hs.congr rfl rfl
    | some last =>
      have hio := hs.mapIo (f := fun s => { s with
        applyProgress := s.applyProgress.submit last
        snapshot := s.snapshot.submit last }) rfl rfl
      exact hio.congr rfl rfl

/-- The body of `run_command`. -/
theorem Leads.execCommand (h : n.Leads H) {c : Command NID N D}
    (hc : ∀ upto, c = .purgeLog upto → upto.index < n.engine.state.logIds.firstIndex)
    (he : n.execCommand c = some n') : n'.Leads H := by
  cases c with
  | updateIOProgress _ io =>
    obtain rfl := Option.some.inj he
    exact (h.submitLog io).congr rfl rfl
  | appendEntries vote entries =>
    obtain rfl := Option.some.inj he
    exact (h.submitLog _).congr rfl rfl
  | saveCommittedAndApply applied upto =>
    obtain rfl := Option.some.inj he
    exact h.runSaveCommittedAndApply applied upto
  | saveVote vote =>
    obtain ⟨-, he⟩ := Option.ite_none_right_eq_some.1 he
    obtain rfl := Option.some.inj he
    unfold Node.runSaveVote
    dsimp only
    split
    · exact (h.submitLog _).congr rfl rfl
    · exact (h.submitLog _).congr rfl rfl
  | purgeLog upto =>
    obtain ⟨-, he⟩ := Option.ite_none_right_eq_some.1 he
    obtain rfl := Option.some.inj he
    exact h.runPurgeLog (hc upto rfl)
  | truncateLog after =>
    obtain ⟨-, he⟩ := Option.ite_none_right_eq_some.1 he
    obtain rfl := Option.some.inj he
    exact h.congr rfl rfl
  | stateMachine c =>
    obtain rfl := Option.some.inj he
    exact h.runStateMachine c
  | replicateCommitted _ | replicate _ _ | replicateSnapshot _ _ _ | closeReplicationStreams
  | failPendingReads | rebuildReplicationStreams _ _ _ | broadcastTransferLeader _ _ _
  | sendVote _ _ | respond _ _ =>
    obtain rfl := Option.some.inj he
    exact h.congr rfl rfl

/-- Taking a command out of the queue. -/
theorem Leads.withCommands (h : n.Leads H) {cs : List (Command NID N D)}
    (hcs : ∀ c ∈ cs, c ∈ n.engine.output.commands) : (n.withCommands cs).Leads H := by
  obtain ⟨l, hl⟩ := h
  exact ⟨l, hl.step rfl rfl hl.cursors rfl (fun upto hupto => hcs _ hupto) hl.leader rfl rfl
    hl.progress⟩

theorem Leads.runCommand (h : n.Leads H) (he : n.runCommand = some n') : n'.Leads H := by
  have hleads := h
  obtain ⟨l, hl⟩ := hleads
  unfold Node.runCommand at he
  cases hcmds : n.engine.output.commands with
  | nil =>
    rw [hcmds] at he
    cases he
  | cons c cs =>
    rw [hcmds] at he
    have hrest : (n.withCommands cs).Leads H := h.withCommands fun c' hc' => by
      rw [hcmds]
      exact List.mem_cons_of_mem c hc'
    dsimp only at he
    split at he
    · refine hrest.execCommand (fun upto hupto => ?_) he
      exact (hl.commands upto (by rw [hcmds, hupto]; simp)).2
    · split at he
      · obtain rfl := Option.some.inj he
        obtain ⟨l', hl'⟩ := hrest
        exact ⟨l', hl'.step rfl rfl hl'.cursors rfl (fun _ hc => hc) hl'.leader rfl rfl
          hl'.progress⟩
      · cases he

/-- A purge at the head of the queue waits for its snapshot. -/
theorem flushed_of_runCommand {upto : LogId NID} {cs : List (Command NID N D)}
    (hcmds : n.engine.output.commands = .purgeLog upto :: cs) (he : n.runCommand = some n') :
    ∃ last, n.engine.state.ioState.snapshot.flushed = some last ∧ upto ≤ last := by
  unfold Node.runCommand at he
  rw [hcmds] at he
  dsimp only at he
  split at he
  · rename_i hmet
    cases hf : n.engine.state.ioState.snapshot.flushed with
    | none =>
      simp [canRun, Command.condition, Condition.isMet, hf] at hmet
    | some last =>
      simp only [canRun, Command.condition, Condition.isMet, hf, decide_eq_true_eq] at hmet
      exact ⟨last, rfl, hmet⟩
  · cases he

/-! ### Reports -/

/-- The node after a handler of the engine. -/
theorem Leads.afterEngine (h : n.Leads H) {r : Option (Engine NID N D)}
    (hr : ∀ e, r = some e → ∃ l, e.Leads H (nextIndex n.store.purged) l) :
    (n.afterEngine r).Leads H := by
  cases r with
  | none => exact h.congr rfl rfl
  | some e => exact hr e rfl

theorem Leads.handleReplicationProgress (h : n.Leads H) {ctx : StreamCtx NID}
    {result : Engine.ReplicationResult NID}
    (hack : ∀ m, result = .matching m → ∀ l ∈ n.engine.leader,
      ∀ item ∈ l.progress.tryGet ctx.target, ItemOK.Acknowledges H item m ctx.inflightId) :
    (n.handleReplicationProgress ctx result).Leads H := by
  have hleads := h
  obtain ⟨l, hl⟩ := hleads
  unfold Node.handleReplicationProgress
  rw [hl.leader]
  refine h.afterEngine fun e he => ?_
  exact hl.updateProgress (fun m hm item hitem => hack m hm l hl.leader item hitem) he

theorem Leads.handleHeartbeatProgress (h : n.Leads H) (ctx : StreamCtx NID) :
    (n.handleHeartbeatProgress ctx).Leads H := by
  obtain ⟨l, hl⟩ := h
  unfold Node.handleHeartbeatProgress
  rw [hl.withLeader]
  unfold Engine.tryUpdateLeaderClock
  split
  · exact ⟨_, hl.step rfl rfl hl.cursors rfl (fun _ hc => hc) rfl rfl rfl hl.progress⟩
  · exact ⟨l, hl⟩

theorem Leads.handleLocalIo (h : n.Leads H) {io : IOId NID}
    (hio : ∀ logIo, io = .log logIo → ∀ l ∈ n.engine.leader,
      logIo.committedVote = l.committedVote → InLogOpt H logIo.logId) :
    (n.handleLocalIo io).Leads H := by
  have hm : (n.mapIo fun s => { s with
      logProgress := s.logProgress.tryFlush (IOId.gt n.engine.config.mode) io }).Leads H :=
    h.mapIo rfl rfl
  have hleads := hm
  obtain ⟨l, hl⟩ := hleads
  unfold Node.handleLocalIo
  dsimp only
  cases io with
  | vote v => exact hm
  | log logIo =>
    rw [hl.leader]
    dsimp only
    split
    · rename_i hvote
      refine hm.afterEngine fun e he => ?_
      exact hl.updateLocalProgress (hio logIo rfl l hl.leader hvote) he
    · exact hm

/-- What the state machine worker reports: a snapshot that was built ends at a committed log id, and
    so does one that was installed before the node became the leader. -/
def ResultOK (n : Node NID N D) (H : List (LogId NID)) : SmResponse NID N → Prop
  | .buildSnapshotDone m => n.engine.BuildOK m ∧ InLogOpt H m.lastLogId
  | .installSnapshot _ m => InLogOpt H m.lastLogId
  | .apply _ => True

instance (n : Node NID N D) (H : List (LogId NID)) : (r : SmResponse NID N) →
    Decidable (n.ResultOK H r)
  | .buildSnapshotDone m => inferInstanceAs
      (Decidable (n.engine.BuildOK m ∧ InLogOpt H m.lastLogId))
  | .installSnapshot _ m => inferInstanceAs (Decidable (InLogOpt H m.lastLogId))
  | .apply _ => isTrue trivial

omit [LinearOrder NID] in
theorem tryFlush_flushed {T : Type} (gt : T → T → Bool) (p : IOProgress T) (v : T) :
    (p.tryFlush gt v).flushed = p.flushed ∨ (p.tryFlush gt v).flushed = some v := by
  unfold IOProgress.tryFlush
  split
  · exact Or.inr rfl
  · exact Or.inl rfl

theorem Leads.handleStateMachineResult (h : n.Leads H) {r : SmResponse NID N}
    (hr : n.ResultOK H r) : (n.handleStateMachineResult r).Leads H := by
  cases r with
  | buildSnapshotDone m =>
    obtain ⟨l, hl⟩ := h
    exact ⟨l, hl.onBuildingSnapshotDone hr.1 hr.2⟩
  | apply lastApplied => exact h.mapIo (IOProgress.tryFlush_accepted _ _ _) rfl
  | installSnapshot io m =>
    have hm : (n.mapIo fun s => { s with
        logProgress := s.logProgress.tryFlush (IOId.gt n.engine.config.mode) (.log io) }).Leads H :=
      h.mapIo rfl rfl
    unfold Node.handleStateMachineResult
    dsimp only
    cases hlast : m.lastLogId with
    | none => exact hm
    | some last =>
      have ha := hm.mapIo (f := fun s => { s with
        applyProgress := s.applyProgress.tryFlush LogId.gt last })
          (IOProgress.tryFlush_accepted _ _ _) rfl
      obtain ⟨l, hl⟩ := ha
      refine ⟨l, { hl with cursors := hl.cursors.congr rfl rfl rfl rfl, flushed := ?_ }⟩
      rcases tryFlush_flushed LogId.gt n.engine.state.ioState.snapshot last with heq | heq
      · show InLogOpt H (n.engine.state.ioState.snapshot.tryFlush LogId.gt last).flushed
        rw [heq]
        exact hl.flushed
      · show InLogOpt H (n.engine.state.ioState.snapshot.tryFlush LogId.gt last).flushed
        rw [heq, ← hlast]
        exact hr

theorem Leads.receiveClock (h : n.Leads H) {m : Message NID N D} (he : n.receiveClock m = some n') :
    n'.Leads H := by
  unfold Node.receiveClock at he
  split at he
  · obtain ⟨-, he⟩ := Option.ite_none_right_eq_some.1 he
    obtain rfl := Option.some.inj he
    exact h.handleHeartbeatProgress _
  · obtain ⟨-, he⟩ := Option.ite_none_right_eq_some.1 he
    obtain rfl := Option.some.inj he
    exact h.handleHeartbeatProgress _
  · obtain ⟨-, he⟩ := Option.ite_none_right_eq_some.1 he
    obtain rfl := Option.some.inj he
    exact h.handleHeartbeatProgress _
  · cases he

/-! ### What the rest of the node does -/

theorem Leads.runProgressDrivenCommand (h : n.Leads H)
    (he : n.runProgressDrivenCommand = some n') : n'.Leads H := by
  obtain ⟨-, he⟩ := Option.ite_none_right_eq_some.1 he
  obtain ⟨c, hc, he⟩ := Option.bind_eq_some_iff.1 he
  refine h.execCommand (fun upto hupto => ?_) he
  -- a progress driven command is no purge
  rw [hupto] at hc
  unfold Engine.nextProgressDrivenCommand at hc
  dsimp only at hc
  obtain ⟨-, hc⟩ := Option.ite_none_right_eq_some.1 hc
  split at hc
  · obtain ⟨-, hc⟩ := Option.ite_none_right_eq_some.1 hc
    cases Option.some.inj hc
  · cases hc

/-- Responds that waited are sent. -/
theorem Leads.withResponds (h : n.Leads H) (pending : PendingResponds NID)
    (ms : List (Message NID N D)) :
    ((n.withEngine { n.engine with output := { n.engine.output with
      pendingResponds := pending } }).send ms).Leads H := by
  obtain ⟨l, hl⟩ := h
  exact ⟨l, hl.step rfl rfl hl.cursors rfl (fun _ hc => hc) hl.leader rfl rfl hl.progress⟩

theorem Leads.sendSatisfiedOnLogIo (h : n.Leads H) (he : n.sendSatisfiedOnLogIo = some n') :
    n'.Leads H := by
  unfold Node.sendSatisfiedOnLogIo at he
  dsimp only at he
  split at he
  · cases he
  · obtain ⟨-, he⟩ := Option.ite_none_right_eq_some.1 he
    obtain rfl := Option.some.inj he
    exact h.withResponds _ _

theorem Leads.sendSatisfiedOnSnapshot (h : n.Leads H) (he : n.sendSatisfiedOnSnapshot = some n') :
    n'.Leads H := by
  unfold Node.sendSatisfiedOnSnapshot at he
  dsimp only at he
  split at he
  · cases he
  · obtain ⟨-, he⟩ := Option.ite_none_right_eq_some.1 he
    obtain rfl := Option.some.inj he
    exact h.withResponds _ _

theorem Leads.flush (h : n.Leads H) (he : n.flush = some n') : n'.Leads H := by
  unfold Node.flush at he
  split at he
  · cases he
  · obtain rfl := Option.some.inj he
    exact h.congr rfl rfl

theorem Leads.workerLoop (h : n.Leads H) (he : n.workerLoop = some n') : n'.Leads H := by
  unfold Node.workerLoop at he
  split at he
  · cases he
  · obtain rfl := Option.some.inj he
    exact h.congr rfl rfl
  · obtain rfl := Option.some.inj he
    exact h.congr rfl rfl
  · split at he
    · obtain rfl := Option.some.inj he
      exact h.congr rfl rfl
    · obtain rfl := Option.some.inj he
      exact h.congr rfl rfl

theorem Leads.sendOnStream (h : n.Leads H) (hsend : n.SendsOnStream n') : n'.Leads H := by
  cases hsend <;> exact h.congr rfl rfl

/-! ### Writes -/

theorem Leads.writeEntries (h : n.Leads H) (now : Nat) (payloads : List (Payload NID N D)) :
    (n.writeEntries now payloads).Continues H := by
  unfold Node.writeEntries
  cases hw : n.ensureWritableLeaderHandler now with
  | none => exact h.continues
  | some l' =>
    obtain ⟨l, hl⟩ := h
    have hl' : n.engine.leader = some l' := by
      unfold ensureWritableLeaderHandler ensureLeaderHandler at hw
      exact (Option.filter_eq_some_iff.1 (Option.filter_eq_some_iff.1 hw).1).1
    obtain rfl : l = l' := Option.some.inj (hl.leader.symm.trans hl')
    exact hl.leaderAppendEntries payloads

theorem Leads.changeMembership (h : n.Leads H) (now : Nat) (changes : ChangeMembers NID N)
    (retain : Bool) : (n.changeMembership now changes retain).Continues H := by
  unfold Node.changeMembership
  split
  · exact h.continues
  · split
    · exact (h.congr rfl rfl).continues
    · exact h.continues
    · exact h.writeEntries now _

theorem Leads.appendMembership [DecidableEq N] (h : n.Leads H) (now : Nat) (m : Membership NID N) :
    (n.appendMembership now m).Continues H := by
  unfold Node.appendMembership
  split
  · exact h.continues
  · split
    · exact h.continues
    · split
      · exact h.continues
      · exact h.writeEntries now _

end Node

/-! ## Runs -/

/-- The log id up to which a command purges the store. -/
def Command.purges : Command NID N D → Option (LogId NID)
  | .purgeLog upto => some upto
  | _ => none

/-- A leader, with all the log ids its log has had. -/
structure LeaderRun (NID N D : Type) where
  node : Node NID N D
  history : List (LogId NID)

namespace LeaderRun

variable {s s' : LeaderRun NID N D}

/-- One step; what was appended goes to the history. -/
def step [DecidableEq N] (s : LeaderRun NID N D) (o : Nat × Event NID N D) :
    Option (LeaderRun NID N D) :=
  (s.node.step o.1 o.2).map fun n =>
    let ids := n.engine.state.logIds
    ⟨n, s.history ++ ids.ids.drop (s.history.length - ids.firstIndex)⟩

/-- A follower acknowledges a log id of the leader, at or behind the start of the range that is in
    flight to it. -/
def ReportOK (s : LeaderRun NID N D) (ctx : StreamCtx NID) (m : Option (LogId NID)) : Prop :=
  ∀ l ∈ s.node.engine.leader, ∀ item ∈ l.progress.tryGet ctx.target,
    ItemOK.Acknowledges s.history item m ctx.inflightId

/-- The events of a leader. Those that can end the leadership are left out. -/
def Fits (s : LeaderRun NID N D) : Event NID N D → Prop
  | .receive (.appendEntriesResp ctx (.ok m)) => s.ReportOK ctx m
  | .receive (.appendEntriesResp _ (.error (.conflict _))) => True
  | .receive (.installFullSnapshotResp ctx last vote) =>
    vote.gt s.node.engine.config.mode ⟨ctx.leaderVote, true⟩ = false ∧ s.ReportOK ctx last
  | .receive _ => False
  | .localIo (.log io) => ∀ l ∈ s.node.engine.leader,
      io.committedVote = l.committedVote → InLogOpt s.history io.logId
  | .stateMachineResult => ∀ r ∈ s.node.smDone.head?, s.node.ResultOK s.history r
  | .elect | .preElect | .refreshServerState | .restart _ _ => False
  | _ => True

instance (s : LeaderRun NID N D) (ctx : StreamCtx NID) (m : Option (LogId NID)) :
    Decidable (s.ReportOK ctx m) :=
  inferInstanceAs (Decidable (∀ l ∈ s.node.engine.leader, ∀ item ∈ l.progress.tryGet ctx.target,
    InLogOpt s.history m ∧ (_ → ∀ prev ∈ item.data.inflight.start, _)))

instance (s : LeaderRun NID N D) : (ev : Event NID N D) → Decidable (s.Fits ev)
  | .receive (.appendEntriesResp ctx (.ok m)) => inferInstanceAs (Decidable (s.ReportOK ctx m))
  | .receive (.appendEntriesResp _ (.error (.conflict _))) => isTrue trivial
  | .receive (.installFullSnapshotResp ctx last vote) => inferInstanceAs (Decidable
      (vote.gt s.node.engine.config.mode ⟨ctx.leaderVote, true⟩ = false ∧ s.ReportOK ctx last))
  | .receive (.appendEntriesResp _ (.error (.higherVote _))) | .receive (.vote _ _ _ _)
  | .receive (.voteResp _ _ _ _ _) | .receive (.appendEntries _ _)
  | .receive (.installFullSnapshot _ _ _) | .receive (.transferLeader _ _ _ _)
  | .receive (.initializeResp _ _) => isFalse fun h => h
  | .localIo (.log io) => inferInstanceAs (Decidable (∀ l ∈ s.node.engine.leader,
      io.committedVote = l.committedVote → InLogOpt s.history io.logId))
  | .localIo (.vote _) => isTrue trivial
  | .stateMachineResult => inferInstanceAs (Decidable
      (∀ r ∈ s.node.smDone.head?, s.node.ResultOK s.history r))
  | .elect | .preElect | .refreshServerState | .restart _ _ => isFalse fun h => h
  | .receiveClock _ | .runCommand | .runProgressDrivenCommand | .sendSatisfiedOnLogIo
  | .sendSatisfiedOnSnapshot | .flush | .workerLoop | .triggerSnapshot | .purgeLog _
  | .triggerTransferLeader _ | .initiateReplication | .replicationError _ _ _ | .write _
  | .changeMembership _ _ | .appendMembership _ | .sendAppendEntries _ _ _ _ | .sendHeartbeat _
  | .sendSnapshot _ _ => isTrue trivial

/-- The leader at the start of a run: its state passes `validate`, the cursors are in its log, and
    what it knows of the followers is. -/
structure Validated (s : LeaderRun NID N D) : Prop where
  valid : s.node.engine.state.validate s.node.engine.config.mode = true
  full : FullLog s.history
  tail : s.node.engine.state.logIds.TailOf s.history
  purgeUpto : InLogOpt s.history s.node.engine.state.purgeUpto
  snapshot : InLogOpt s.history s.node.engine.state.snapshotMeta.lastLogId
  committed : InLogOpt s.history s.node.engine.state.localCommitted
  flushed : InLogOpt s.history s.node.engine.state.ioState.snapshot.flushed
  stored : nextIndex s.node.store.purged ≤ s.node.engine.state.logIds.firstIndex
  commands : ∀ c ∈ s.node.engine.output.commands, ∀ upto ∈ c.purges,
    InLog s.history upto ∧ upto.index < s.node.engine.state.logIds.firstIndex
  leader : ∃ l ∈ s.node.engine.leader, nextIndex l.lastLogId = s.history.length ∧
    (∀ x ∈ s.history, x.leaderId ≤ l.committedVote.toCommitted s.node.engine.config.mode) ∧
    (∀ item ∈ l.progress.entries,
      ItemOK s.history s.node.engine.state.logIds.firstIndex item) ∧
    InLogOpt s.history l.progress.quorumAccepted

theorem Validated.leads (h : s.Validated) : s.node.Leads s.history := by
  obtain ⟨l, hl, hlast, hnewest, hitems, haccepted⟩ := h.leader
  have hvalid := h.valid
  unfold RaftState.validate at hvalid
  simp only [Bool.and_eq_true, decide_eq_true_eq] at hvalid
  obtain ⟨⟨⟨⟨⟨⟨-, hpurged⟩, hupto⟩, hsnapshot⟩, -⟩, -⟩, -⟩ := hvalid
  have hfirst : s.node.engine.state.logIds.firstIndex ≤
      nextIndex s.node.engine.state.purgeUpto :=
    (h.full.le_iff h.tail.purged h.purgeUpto).1 hpurged
  have hcom : nextIndex s.node.engine.state.purgeUpto ≤
      nextIndex s.node.engine.state.localCommitted := by
    refine (h.full.le_iff h.purgeUpto h.committed).1 ?_
    split at hupto
    · exact of_decide_eq_true hupto
    · exact (of_decide_eq_true hupto).trans hsnapshot
  have hsnap : s.node.engine.state.logIds.HasOpt s.node.engine.state.snapshotMeta.lastLogId := by
    intro y hy
    rw [if_neg (by rw [hy]; simp), decide_eq_true_eq] at hupto
    exact h.tail.hasOpt h.full h.snapshot
      (hfirst.trans ((h.full.le_iff h.purgeUpto h.snapshot).1 hupto)) y hy
  refine ⟨l, hl, h.full, h.tail, ?_, hlast, hnewest, ⟨hitems, haccepted⟩, h.flushed, h.stored,
    fun upto hupto => h.commands _ hupto upto rfl⟩
  exact RaftState.cursors_of_validate h.valid (h.tail.ordered h.full)
    (h.tail.hasOpt h.full h.purgeUpto hfirst) hsnap
    (h.tail.hasOpt h.full h.committed (hfirst.trans hcom))

/-- One event of a leader. -/
theorem perform_continues [DecidableEq N] (h : s.node.Leads s.history) {now : Nat}
    {ev : Event NID N D} (hfits : s.Fits ev) {n : Node NID N D}
    (hn : s.node.perform now ev = some n) : n.Continues s.history := by
  have hleads := h
  obtain ⟨l, hl⟩ := hleads
  cases ev with
  | receive m =>
    cases m with
    | appendEntriesResp ctx result =>
      obtain ⟨-, hn⟩ := Option.ite_none_right_eq_some.1 hn
      obtain rfl := Option.some.inj hn
      cases result with
      | ok m =>
        cases m with
        | none => exact h.continues
        | some m =>
          unfold Node.handleAppendEntriesResponse
          dsimp only
          split
          · exact h.continues
          · refine (h.handleReplicationProgress fun m' hm' => ?_).continues
            obtain rfl := Engine.ReplicationResult.matching.inj hm'
            exact hfits
      | error err =>
        cases err with
        | conflict x => exact (h.handleReplicationProgress fun _ hm' => by cases hm').continues
        | higherVote v => exact hfits.elim
    | installFullSnapshotResp ctx last vote =>
      obtain ⟨-, hn⟩ := Option.ite_none_right_eq_some.1 hn
      obtain rfl := Option.some.inj hn
      obtain ⟨hvote, hreport⟩ := hfits
      unfold Node.handleInstallSnapshotResponse
      rw [hvote]
      refine (h.handleReplicationProgress fun m' hm' => ?_).continues
      obtain rfl := Engine.ReplicationResult.matching.inj hm'
      exact hreport
    | vote | voteResp | appendEntries | installFullSnapshot | transferLeader | initializeResp =>
      exact hfits.elim
  | receiveClock m => exact (h.receiveClock hn).continues
  | runCommand => exact (h.runCommand hn).continues
  | runProgressDrivenCommand => exact (h.runProgressDrivenCommand hn).continues
  | sendSatisfiedOnLogIo => exact (h.sendSatisfiedOnLogIo hn).continues
  | sendSatisfiedOnSnapshot => exact (h.sendSatisfiedOnSnapshot hn).continues
  | flush => exact (h.flush hn).continues
  | workerLoop => exact (h.workerLoop hn).continues
  | localIo io =>
    obtain ⟨-, hn⟩ := Option.ite_none_right_eq_some.1 hn
    obtain rfl := Option.some.inj hn
    refine (h.handleLocalIo fun logIo hio => ?_).continues
    rw [hio] at hfits
    exact hfits
  | stateMachineResult =>
    unfold Node.perform at hn
    cases hdone : s.node.smDone with
    | nil =>
      rw [hdone] at hn
      cases hn
    | cons r rest =>
      rw [hdone] at hn
      obtain rfl := Option.some.inj hn
      have hr : s.node.ResultOK s.history r := hfits r (by rw [hdone]; rfl)
      have h' : Node.Leads { s.node with smDone := rest } s.history := h.congr rfl rfl
      refine (h'.handleStateMachineResult ?_).continues
      cases r with
      | buildSnapshotDone m => exact hr
      | installSnapshot io m => exact hr
      | apply last => exact hr
  | triggerSnapshot =>
    obtain rfl := Option.some.inj hn
    exact hl.triggerSnapshot.goesOn
  | purgeLog index =>
    obtain rfl := Option.some.inj hn
    refine (h.afterEngine fun e he => ?_).continues
    obtain ⟨e', he', hl'⟩ := hl.triggerPurgeLog index
    obtain rfl := Option.some.inj (he'.symm.trans he)
    exact ⟨l, hl'⟩
  | triggerTransferLeader target =>
    obtain rfl := Option.some.inj hn
    rw [hl.withLeader]
    exact (hl.transferLeader target).goesOn
  | initiateReplication =>
    obtain rfl := Option.some.inj hn
    rw [hl.withLeader]
    obtain ⟨l', hl', -⟩ := hl.initiateReplication
    exact hl'.goesOn
  | replicationError target streamId inflightId =>
    obtain ⟨l', hl', rfl⟩ := Option.map_eq_some_iff.1 hn
    obtain rfl : l = l' := Option.some.inj (hl.leader.symm.trans hl')
    refine (h.afterEngine fun e he => ?_).continues
    exact hl.updateProgress (fun _ hm => by cases hm) he
  | write data =>
    obtain rfl := Option.some.inj hn
    exact h.writeEntries now _
  | changeMembership changes retain =>
    obtain rfl := Option.some.inj hn
    exact h.changeMembership now changes retain
  | appendMembership m =>
    obtain rfl := Option.some.inj hn
    exact h.appendMembership now m
  | sendAppendEntries target prev count inflightId =>
    exact (h.sendOnStream (Node.sendAppendEntries_sends hn)).continues
  | sendHeartbeat target => exact (h.sendOnStream (Node.sendHeartbeat_sends hn)).continues
  | sendSnapshot target inflightId =>
    exact (h.sendOnStream (Node.sendSnapshot_sends hn)).continues
  | elect | preElect | refreshServerState | restart _ _ => exact hfits.elim

/-- Along every run of a leader, from a validated state whose cursors are in its log: a purge runs
    only when a snapshot that covers it is flushed; every log range in flight starts at or behind
    the last purged log id, and the store is not purged beyond its start; and `trigger_purge_log`
    finds the log id it looks for, for every index. -/
theorem purge_safe [DecidableEq N] {ops : List (Nat × Event NID N D)} (hs : s.Validated)
    (hops : FitAll step (fun s o => s.Fits o.2) s ops) (hrun : runPartial step s ops = some s') :
    (∀ upto cs n, s'.node.engine.output.commands = .purgeLog upto :: cs →
      s'.node.runCommand = some n → ∃ last, s'.node.engine.state.ioState.snapshot.flushed =
        some last ∧ upto ≤ last ∧ upto.index ≤ last.index) ∧
    (∀ l, s'.node.engine.leader = some l → ∀ item ∈ l.progress.entries, ∀ prev,
      item.data.inflight.start = some prev → s'.node.engine.state.logIds.purged ≤ prev ∧
        s'.node.engine.state.logIds.firstIndex ≤ nextIndex prev ∧
        nextIndex s'.node.store.purged ≤ nextIndex prev) ∧
    ∀ index, (s'.node.engine.triggerPurgeLog index).isSome = true := by
  have hleads : s'.node.Leads s'.history := by
    refine hops.invariant (P := fun s => s.node.Leads s.history) hs.leads ?_ hrun
    intro s o s1 hfits h hs1
    obtain ⟨n, hn, rfl⟩ := Option.map_eq_some_iff.1 hs1
    unfold Node.step at hn
    obtain ⟨-, hn⟩ := Option.ite_none_left_eq_some.1 hn
    exact (perform_continues h hfits hn).leads
  obtain ⟨l, hl⟩ := hleads
  refine ⟨fun upto cs n hcmds hn => ?_, fun l' hl' item hitem prev hprev => ?_, fun index => ?_⟩
  · obtain ⟨last, hlast, hle⟩ := Node.flushed_of_runCommand hcmds hn
    obtain ⟨hin, -⟩ := hl.commands upto (by rw [hcmds]; simp)
    exact ⟨last, hlast, hle, hl.full.index_le_of_le hin (hl.flushed last hlast) hle⟩
  · obtain rfl : l = l' := Option.some.inj (hl.leader.symm.trans hl')
    obtain ⟨hin, hfirst⟩ := (hl.progress.entries item hitem).inflight prev hprev
    exact ⟨(hl.full.le_iff hl.tail.purged hin).2 hfirst, hfirst, hl.stored.trans hfirst⟩
  · obtain ⟨e', he', -⟩ := hl.triggerPurgeLog index
    rw [he']
    rfl

end LeaderRun

namespace Three

/-- The leader of `slowLeader`, whose state machine has built a snapshot up to index 7. -/
def slowRun : LeaderRun (Fin 3) Unit Nat :=
  ⟨{ cluster false 0 with
      engine := slowLeader
      smDone := [.buildSnapshotDone (snapshotMeta 7)] },
    firstEntry.logId :: (List.range 9).map fun i => ⟨⟨1, none⟩, i + 1⟩⟩

/-- The acknowledgement of the entries that are in flight to node 1. -/
def slowAck : Event (Fin 3) Unit Nat :=
  .receive (.appendEntriesResp ⟨0, 0, ⟨1, 0⟩, 1, 2, false, some 1, 0⟩ (.ok (some ⟨⟨1, none⟩, 1⟩)))

/-- The snapshot arrives, the user purges up to any index, and node 1 catches up. -/
def slowOps : List (Nat × Event (Fin 3) Unit Nat) :=
  [(0, .stateMachineResult), (0, .purgeLog (2 ^ 64 - 1)), (0, slowAck)]

theorem slowRun_validated : slowRun.Validated := by
  refine ⟨?_, ?_, ?_, ?_, ?_, ?_, ?_, ?_, ?_, ?_⟩
  all_goals decide +kernel

/-- The run reaches a state in which the log is purged up to index 7. -/
theorem purge_safe_slowRun : slowRun.Validated ∧
    FitAll LeaderRun.step (fun s o => s.Fits o.2) slowRun slowOps ∧
    ∃ s, runPartial LeaderRun.step slowRun slowOps = some s ∧
      s.node.engine.state.logIds.purged = some ⟨⟨1, none⟩, 7⟩ ∧
      ∀ index, (s.node.engine.triggerPurgeLog index).isSome = true := by
  have hops : FitAll LeaderRun.step (fun s o => s.Fits o.2) slowRun slowOps := by decide +kernel
  have hpurged : (runPartial LeaderRun.step slowRun slowOps).any (fun s =>
      decide (s.node.engine.state.logIds.purged = some ⟨⟨1, none⟩, 7⟩)) = true := by decide +kernel
  obtain ⟨hsome, hdec⟩ := (Option.any_eq_true_iff_get _ _).1 hpurged
  have hs := (Option.some_get hsome).symm
  have hsafe := LeaderRun.purge_safe slowRun_validated hops hs
  exact ⟨slowRun_validated, hops, _, hs, of_decide_eq_true hdec, hsafe.2.2⟩

/-- A leader of term 2 whose snapshot ends at the committed log id `(1, 5)`, while its log ends at
    `(2, 1)`, which is greater. -/
def staleLeader : Engine (Fin 3) Unit Nat :=
  { slowLeader with state := { slowLeader.state with
      logIds := ⟨none, [firstEntry.logId, ⟨⟨2, none⟩, 1⟩]⟩
      snapshotMeta := snapshotMeta 5
      ioState := .new ⟨⟨2, 0⟩, true⟩ (some ⟨⟨1, none⟩, 5⟩) (some ⟨⟨1, none⟩, 5⟩) none } }

/-- Its state passes `validate`, and the lookup of `trigger_purge_log` fails. -/
theorem triggerPurgeLog_fails : staleLeader.leader.isSome = true ∧
    staleLeader.state.validate .std = true ∧ (staleLeader.triggerPurgeLog 5).isNone = true := by
  decide +kernel

end Three


end ZenohRaft
