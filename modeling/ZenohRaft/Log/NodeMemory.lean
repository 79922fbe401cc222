/-
  The memory of a node that runs, against the log in its store.

  A handler of the engine changes the memory at once and leaves commands behind; the store follows
  later, command by command. `Node.final` is the view of the log store when all commands that wait
  are carried out. `Node.InOrder` says that the memory and the role of the engine agree with it, and
  that every command that waits is in order where it will be carried out.

  * `InOrder.engine`: a handler of the engine.
  * `InOrder.next`, `InOrder.runCommand`: a command is carried out. The view of the store makes the
    step that the engine has made already, so the final view stays.
  * `InOrder.keep`: what the log store and the state machine do in between.
-/
import ZenohRaft.Log.Campaign

namespace ZenohRaft

open Lib

variable {NID N D : Type} [LinearOrder NID]

namespace Node

variable (h : History NID N D) (n : Node NID N D)

/-- The stored vote and log, with the last log id `io` that was appended under this vote and the
    last io that was submitted. -/
def view (io : Option (LogId NID)) (sub : IOId NID) : View NID N D :=
  ⟨n.store.vote.getD ⟨⟨0, n.id⟩, false⟩, n.store.purged, n.store.readable, io, sub,
    n.streams.map Prod.fst, n.committedWatch⟩

/-- The view when all commands that wait are carried out. -/
def final (io : Option (LogId NID)) (sub : IOId NID) : View NID N D :=
  runOps View.step (n.view io sub) n.engine.output.commands

/-- The memory of a node agrees with its log. -/
structure InOrder (io : Option (LogId NID)) (sub : IOId NID) : Prop where
  ok : (n.view io sub).OK n.engine.config.mode h
  queue : AllSteps View.step (fun X c => c.LogOK n.engine.config.mode h n.id X) (n.view io sub)
    n.engine.output.commands
  mem : n.engine.Mem h (n.final io sub)
  role : n.engine.Role h (n.final io sub)

variable {h n} {n' : Node NID N D} {io io' : Option (LogId NID)} {sub sub' : IOId NID}
variable {X' : View NID N D} {e' : Engine NID N D} {c : Command NID N D}
variable {cs : List (Command NID N D)}

omit [LinearOrder NID] in
theorem id_of_config (hc : n'.engine.config = n.engine.config) : n'.id = n.id :=
  congrArg EngineConfig.id hc

/-! ## Handlers -/

omit [LinearOrder NID] in
theorem view_withEngine (hc : e'.config = n.engine.config) :
    (n.withEngine e').view io sub = n.view io sub := by
  have hid : (n.withEngine e').id = n.id := congrArg EngineConfig.id hc
  unfold view
  rw [hid]
  rfl

/-- The commands after a handler lead to the view that it leads to. -/
theorem final_withEngine (hm : Engine.Moves h (n.final io sub) n.engine X' e') :
    (n.withEngine e').final io sub = X' := by
  obtain ⟨cs, ⟨pre, hpre, hcs⟩, -, hrun⟩ := hm.commands
  have hidle : runOps View.step (n.view io sub) pre = n.view io sub :=
    runOps_eq_of_idle fun c hc X => by rw [hpre c hc]; rfl
  unfold final
  rw [view_withEngine hm.config]
  show runOps View.step _ e'.output.commands = X'
  rw [hcs, runOps_append, hidle, runOps_append]
  exact hrun

theorem queue_withEngine (hm : Engine.Moves h (n.final io sub) n.engine X' e')
    (hq : AllSteps View.step (fun X c => c.LogOK n.engine.config.mode h n.id X) (n.view io sub)
      n.engine.output.commands) :
    AllSteps View.step (fun X c => c.LogOK n.engine.config.mode h n.id X) (n.view io sub)
      e'.output.commands := by
  obtain ⟨cs, ⟨pre, hpre, hcs⟩, hall, -⟩ := hm.commands
  have hidle : runOps View.step (n.view io sub) pre = n.view io sub :=
    runOps_eq_of_idle fun c hc X => by rw [hpre c hc]; rfl
  have hpreok : AllSteps View.step (fun X c => c.LogOK n.engine.config.mode h n.id X)
      (n.view io sub) pre :=
    allSteps_of_idle fun c hc => by
      rw [hpre c hc]
      exact ⟨rfl, trivial⟩
  rw [hcs]
  refine allSteps_append.2 ⟨hpreok, ?_⟩
  rw [hidle]
  exact allSteps_append.2 ⟨hq, hall⟩

/-- A handler of the engine. -/
theorem InOrder.engine (hn : n.InOrder h io sub)
    (hk : Engine.Keeps h (n.final io sub) n.engine X' e') :
    (n.withEngine e').InOrder h io sub := by
  have hfinal := final_withEngine hk.moves
  have hc : (n.withEngine e').engine.config = n.engine.config := hk.config
  have hid := id_of_config hc
  refine ⟨?_, ?_, ?_, ?_⟩
  · rw [view_withEngine hk.config, hc]
    exact hn.ok
  · rw [view_withEngine hk.config, hc, hid]
    exact queue_withEngine hk.moves hn.queue
  · rw [hfinal]
    exact hk.mem
  · rw [hfinal]
    exact hk.role

/-! ## Commands -/

/-- The engine has the same log and role, and other cursors of the storage. -/
structure SameRole (e e' : Engine NID N D) : Prop where
  config : e'.config = e.config
  vote : e'.state.voteRef = e.state.voteRef
  logIds : e'.state.logIds = e.state.logIds
  membershipState : e'.state.membershipState = e.state.membershipState
  snapshotMeta : e'.state.snapshotMeta = e.state.snapshotMeta
  purgeUpto : e'.state.purgeUpto = e.state.purgeUpto
  accepted : e'.state.acceptedLogIo = e.state.acceptedLogIo
  committed : e'.state.localCommitted = e.state.localCommitted
  cluster : e'.state.ioState.clusterCommitted = e.state.ioState.clusterCommitted
  leader : e'.leader = e.leader
  candidate : e'.candidate = e.candidate
  building : e'.state.ioState.snapshot.accepted = e.state.ioState.snapshot.accepted

namespace SameRole

variable {e e' e'' : Engine NID N D} {X : View NID N D}

omit [LinearOrder NID] in
theorem refl (e : Engine NID N D) : SameRole e e :=
  ⟨rfl, rfl, rfl, rfl, rfl, rfl, rfl, rfl, rfl, rfl, rfl, rfl⟩

theorem mem (hs : SameRole e e') (hm : e.Mem h X) : e'.Mem h X := by
  unfold Engine.Mem at *
  rw [hs.config]
  exact hm.of_accepted hs.vote hs.logIds hs.membershipState hs.snapshotMeta hs.purgeUpto
    hs.committed hs.cluster hs.building (by rw [hs.accepted]; exact hm.accepted)

theorem role (hs : SameRole e e') (hr : e.Role h X) : e'.Role h X := by
  have hleading : e'.leading = e.leading := by
    unfold Engine.leading
    rw [hs.leader]
  refine ⟨?_, ?_, ?_⟩
  · intro c hc
    rw [hleading] at hc
    have hl := hr.leader c hc
    refine ⟨by rw [hs.vote]; exact hl.voteRef,
      by rw [hs.config]; exact hl.own, hl.last, hl.streams, ?_⟩
    rw [hs.config]
    exact hl.progress
  · intro hnone
    rw [hleading] at hnone
    refine ⟨(hr.follower hnone).1, ?_⟩
    have hnot := (hr.follower hnone).2
    unfold RaftState.isLeader RaftState.isLeading at hnot ⊢
    rw [hs.config, hs.vote, hs.membershipState]
    exact hnot
  · intro c hc
    rw [hs.candidate] at hc
    have hcand := hr.candidate c hc
    exact ⟨by rw [hs.vote]; exact hcand.voteRef, hcand.vote, by rw [hs.config]; exact hcand.own,
      hcand.committed, hcand.last, hcand.granted⟩

end SameRole

theorem InOrder.head (hn : n.InOrder h io sub) (hcs : n.engine.output.commands = c :: cs) :
    c.LogOK n.engine.config.mode h n.id (n.view io sub) := by
  have hq := hn.queue
  rw [hcs] at hq
  exact hq.1

/-- A command is carried out: the stored view makes the step that the engine has made already. -/
theorem InOrder.next (hs : h.Sound n.engine.config.mode) (hn : n.InOrder h io sub)
    (hcs : n.engine.output.commands = c :: cs) (hrole : SameRole n.engine n'.engine)
    (hcs' : n'.engine.output.commands = cs) (hview : n'.view io' sub' = (n.view io sub).step c) :
    n'.InOrder h io' sub' := by
  have hfinal : n'.final io' sub' = n.final io sub := by
    unfold final
    rw [hview, hcs', hcs]
    rfl
  have hid := id_of_config hrole.config
  have hq := hn.queue
  rw [hcs] at hq
  refine ⟨?_, ?_, ?_, ?_⟩
  · rw [hview, hrole.config]
    exact hn.ok.step hs n.id hq.1
  · rw [hview, hcs', hrole.config, hid]
    exact hq.2
  · rw [hfinal]
    exact hrole.mem hn.mem
  · rw [hfinal]
    exact hrole.role hn.role

/-- Nothing that concerns the view has changed. -/
theorem InOrder.keep (hn : n.InOrder h io sub) (hrole : SameRole n.engine n'.engine)
    (hcs : n'.engine.output.commands = n.engine.output.commands)
    (hview : n'.view io sub = n.view io sub) : n'.InOrder h io sub := by
  have hfinal : n'.final io sub = n.final io sub := by
    unfold final
    rw [hview, hcs]
  have hid := id_of_config hrole.config
  refine ⟨?_, ?_, ?_, ?_⟩
  · rw [hview, hrole.config]
    exact hn.ok
  · rw [hview, hcs, hrole.config, hid]
    exact hn.queue
  · rw [hfinal]
    exact hrole.mem hn.mem
  · rw [hfinal]
    exact hrole.role hn.role

section

omit [LinearOrder NID]

theorem sameRole_withCommands (n : Node NID N D) (cs : List (Command NID N D)) :
    SameRole n.engine (n.withCommands cs).engine :=
  ⟨rfl, rfl, rfl, rfl, rfl, rfl, rfl, rfl, rfl, rfl, rfl, rfl⟩

theorem readable_append (s : LogStore NID N D) (a : IOId NID) (es : List (Entry NID N D)) :
    (s.append a es).readable = s.readable ++ es := by
  simp [LogStore.readable, LogStore.append, List.flatMap_append]

theorem readable_of_isEmpty {s : LogStore NID N D} (hp : s.pending.isEmpty = true) :
    s.readable = s.entries := by
  rw [LogStore.readable, List.isEmpty_iff.1 hp]
  exact List.append_nil _

end

/-- A command of the queue is carried out. -/
theorem InOrder.execCommand (hs : h.Sound n.engine.config.mode) (hn : n.InOrder h io sub)
    (hcs : n.engine.output.commands = c :: cs)
    (he : (n.withCommands cs).execCommand c = some n') :
    SameRole n.engine n'.engine ∧ ∃ io' sub', n'.InOrder h io' sub' := by
  have hsame := sameRole_withCommands n cs
  have light : ∀ n' : Node NID N D, SameRole n.engine n'.engine → n'.engine.output.commands = cs →
      n'.view io sub = (n.view io sub).step c →
        SameRole n.engine n'.engine ∧ ∃ io' sub', n'.InOrder h io' sub' :=
    fun n' hrole hcs' hview => ⟨hrole, io, sub, hn.next hs hcs hrole hcs' hview⟩
  cases c with
  | updateIOProgress cond a =>
    obtain rfl := Option.some.inj he
    have hrole : SameRole n.engine ((n.withCommands cs).runUpdateIoProgress a).engine :=
      ⟨rfl, rfl, rfl, rfl, rfl, rfl, rfl, rfl, rfl, rfl, rfl, rfl⟩
    exact ⟨hrole, io, a, hn.next hs hcs hrole rfl rfl⟩
  | appendEntries V es =>
    obtain rfl := Option.some.inj he
    have hrole : SameRole n.engine ((n.withCommands cs).runAppendEntries V es).engine :=
      ⟨rfl, rfl, rfl, rfl, rfl, rfl, rfl, rfl, rfl, rfl, rfl, rfl⟩
    refine ⟨hrole, tipId es, .newLogIo V (tipId es), hn.next hs hcs hrole rfl ?_⟩
    show (⟨_, _, (n.store.append _ es).readable, _, _, _, _⟩ : View NID N D) = _
    rw [readable_append]
    rfl
  | replicateCommitted x =>
    obtain rfl := Option.some.inj he
    exact light _ hsame rfl rfl
  | saveCommittedAndApply a b => exact (hn.head hcs).elim
  | replicate a b =>
    obtain rfl := Option.some.inj he
    exact light _ hsame rfl rfl
  | replicateSnapshot a b d =>
    obtain rfl := Option.some.inj he
    exact light _ hsame rfl rfl
  | broadcastTransferLeader V target last =>
    obtain rfl := Option.some.inj he
    exact light _ hsame rfl rfl
  | closeReplicationStreams =>
    obtain rfl := Option.some.inj he
    exact light _ hsame rfl rfl
  | failPendingReads =>
    obtain rfl := Option.some.inj he
    exact light _ hsame rfl rfl
  | rebuildReplicationStreams V targets closeOld =>
    obtain rfl := Option.some.inj he
    exact light _ hsame rfl rfl
  | saveVote v =>
    unfold Node.execCommand at he
    dsimp only at he
    split at he
    · obtain rfl := Option.some.inj he
      have hrole : SameRole n.engine ((n.withCommands cs).runSaveVote v).engine := by
        unfold Node.runSaveVote
        dsimp only
        split
        · exact ⟨rfl, rfl, rfl, rfl, rfl, rfl, rfl, rfl, rfl, rfl, rfl, rfl⟩
        · exact ⟨rfl, rfl, rfl, rfl, rfl, rfl, rfl, rfl, rfl, rfl, rfl, rfl⟩
      refine ⟨hrole, none, .new v, hn.next hs hcs hrole ?_ ?_⟩
      · unfold Node.runSaveVote
        dsimp only
        split <;> rfl
      · unfold Node.runSaveVote
        dsimp only
        split <;> rfl
    · cases he
  | sendVote isPreVote req =>
    obtain rfl := Option.some.inj he
    exact light _ hsame rfl rfl
  | purgeLog upto =>
    unfold Node.execCommand at he
    dsimp only at he
    split at he
    · rename_i hp
      obtain rfl := Option.some.inj he
      have hp : n.store.pending.isEmpty = true := hp
      refine light _ ⟨rfl, rfl, rfl, rfl, rfl, rfl, rfl, rfl, rfl, rfl, rfl, rfl⟩ rfl ?_
      show (⟨_, _, (n.store.purge upto).readable, _, _, _, _⟩ : View NID N D) = _
      have hread : (n.store.purge upto).readable = (n.store.purge upto).entries :=
        readable_of_isEmpty hp
      rw [hread]
      unfold view View.step
      dsimp only
      rw [readable_of_isEmpty hp]
      rfl
    · cases he
  | truncateLog after =>
    unfold Node.execCommand at he
    dsimp only at he
    split at he
    · rename_i hp
      obtain rfl := Option.some.inj he
      have hp : n.store.pending.isEmpty = true := hp
      refine light _ hsame rfl ?_
      show (⟨_, _, (n.store.truncateAfter after).readable, _, _, _, _⟩ : View NID N D) = _
      have hread : (n.store.truncateAfter after).readable =
          (n.store.truncateAfter after).entries := readable_of_isEmpty hp
      rw [hread]
      unfold view View.step
      dsimp only
      rw [readable_of_isEmpty hp]
      rfl
    · cases he
  | stateMachine command =>
    obtain rfl := Option.some.inj he
    cases command with
    | buildSnapshot => exact light _ hsame rfl rfl
    | apply first last => exact (hn.head hcs).elim
    | installFullSnapshot a snapshot =>
      have hrole : SameRole n.engine
          ((n.withCommands cs).runStateMachine (.installFullSnapshot a snapshot)).engine := by
        unfold Node.runStateMachine
        dsimp only
        split
        · exact ⟨rfl, rfl, rfl, rfl, rfl, rfl, rfl, rfl, rfl, rfl, rfl, rfl⟩
        · exact ⟨rfl, rfl, rfl, rfl, rfl, rfl, rfl, rfl, rfl, rfl, rfl, rfl⟩
      refine ⟨hrole, io, .log a, hn.next hs hcs hrole ?_ ?_⟩
      · unfold Node.runStateMachine
        dsimp only
        split <;> rfl
      · unfold Node.runStateMachine
        dsimp only
        split <;> rfl
  | respond cond r =>
    obtain rfl := Option.some.inj he
    exact light _ hsame rfl rfl

/-- A round of `RaftCore::run_engine_commands`. -/
theorem InOrder.runCommand (hs : h.Sound n.engine.config.mode) (hn : n.InOrder h io sub)
    (he : n.runCommand = some n') :
    SameRole n.engine n'.engine ∧ ∃ io' sub', n'.InOrder h io' sub' := by
  unfold Node.runCommand at he
  cases hcs : n.engine.output.commands with
  | nil =>
    rw [hcs] at he
    cases he
  | cons c cs =>
    rw [hcs] at he
    dsimp only at he
    split at he
    · exact hn.execCommand hs hcs he
    · -- only a response does not block the queue
      rcases c with _ | _ | _ | _ | _ | _ | _ | _ | _ | _ | _ | _ | _ | _ | _ | ⟨_ | cond, r⟩ <;>
        cases he
      have hrole : SameRole n.engine ((n.withCommands cs).postponeRespond cond r).engine :=
        ⟨rfl, rfl, rfl, rfl, rfl, rfl, rfl, rfl, rfl, rfl, rfl, rfl⟩
      exact ⟨hrole, io, sub, hn.next hs hcs hrole rfl rfl⟩

end Node

end ZenohRaft
