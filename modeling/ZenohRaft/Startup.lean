/-
  Starting a node: `RaftCore::handle_initialize`.

  The answer to a request to form a cluster waits for the IO that the log cursor shows as
  accepted. `Engine::initialize` appends the first entry without moving that cursor, so that the
  answer waits for an IO that was flushed long before: on a node that accepts the request it can
  be sent while the first entry is still in the log store's queue. `initialized_after_flush_iff`
  says that the answer keeps its promise for refused requests only.
-/
import ZenohRaft.Cluster

namespace ZenohRaft

open Lib

variable {NID N D : Type} [LinearOrder NID] [DecidableEq N]

/-! ## Runs of one node -/

/-- A run of one node: the events of a list, one after the other. -/
def Node.run (n : Node NID N D) (now : Nat) : List (Event NID N D) → Option (Node NID N D)
  | [] => some n
  | ev :: evs => (n.step now ev).bind fun n => n.run now evs

/-- Whether an event is about the commands of a node and the completion of its log writes. -/
def Event.isLogIo : Event NID N D → Bool
  | .runCommand => true
  | .sendSatisfiedOnLogIo => true
  | .flush => true
  | .localIo _ => true
  | _ => false

/-! ## Forming a cluster -/

omit [DecidableEq N] in
/-- A campaign of a member that does not lead puts its commands at the end of the queue. -/
theorem Engine.doElect_member {e : Engine NID N D} (hl : e.leader = none)
    (hm : e.state.membershipState.effective.membership.contains e.config.id = true)
    (now : Nat) (transfer : Bool) : ∃ rest,
      (e.doElect now transfer).output.commands = e.output.commands ++ rest ∧
      (e.doElect now transfer).config = e.config ∧
      (e.doElect now transfer).state.ioState.logProgress.flushed =
        e.state.ioState.logProgress.flushed := by
  let vote : Vote NID := ⟨⟨e.state.voteRef.leaderId.term + 1, e.config.id⟩, false⟩
  have hgt : vote.gt e.config.mode e.state.voteRef = true := by
    rw [Vote.gt_iff, Vote.rank_lt_iff, CommittedLeaderId.lt_iff]
    simp [vote]
  have hge : vote.ge e.config.mode e.state.voteRef = true :=
    Vote.ge_iff.2 (Or.inr (Vote.gt_iff.1 hgt))
  -- the engine that has taken over the vote of the campaign
  obtain ⟨e1, he1⟩ : ∃ e1 : Engine NID N D, e1 = Engine.adoptVote { e with
    preCandidate := none, candidate := some (e.createCandidate vote) } now vote := ⟨_, rfl⟩
  have hadopt : e1.output.commands = e.output.commands ++ [.saveVote vote] ∧
      e1.config = e.config ∧ e1.state.voteRef = vote ∧
      e1.state.membershipState = e.state.membershipState ∧
      e1.state.ioState.logProgress.flushed = e.state.ioState.logProgress.flushed := by
    rw [he1]
    unfold Engine.adoptVote Engine.acceptLogIo
    rw [if_pos (by exact hgt)]
    dsimp only
    rw [RaftState.acceptLogIo_eq]
    exact ⟨rfl, rfl, rfl, rfl, rfl⟩
  obtain ⟨hcmds, hconfig, hvote, hms, hfl⟩ := hadopt
  have hserver : e1.updateInternalServerState now = e1 := by
    have hleading : e1.state.isLeading e1.config.id = true := by
      simp [RaftState.isLeading, hms, hm, hvote, hconfig, vote]
    have hleader : e1.state.isLeader e1.config.id = false := by
      simp [RaftState.isLeader, hvote, vote]
    simp [Engine.updateInternalServerState, hleading, hleader]
  have helect : e.doElect now transfer =
      e1.pushCommand (.sendVote false ⟨vote, e.state.lastLogId, transfer⟩) := by
    unfold Engine.doElect Engine.updateVote
    dsimp only
    rw [if_neg (by simp [hl]), if_pos (by exact hge), ← hserver, he1]
    rfl
  refine ⟨[.saveVote vote, .sendVote false ⟨vote, e.state.lastLogId, transfer⟩], ?_, ?_, ?_⟩
  · rw [helect]
    simp [Engine.pushCommand, hcmds]
  · rw [helect]
    exact hconfig
  · rw [helect]
    exact hfl

namespace Node

/-- A node without logs and in the first term that has nothing to do. -/
structure Uninitialized (n : Node NID N D) : Prop where
  fresh : n.engine.state.isInitialized = false
  synced : n.engine.state.ioState.logProgress.flushed = n.engine.state.ioState.logProgress.accepted
  follower : n.engine.leader = none
  idle : n.engine.output = ⟨[], ⟨[], []⟩⟩
  running : n.stopped = false
  empty : n.store.entries = []
  silent : ∀ k, Message.initializeResp k none ∉ n.sent

/-- However the log writes complete, the application is not told that the node is initialized
    before the entry at index 0 is durable. -/
def InitializedAfterFlush (n : Node NID N D) (now : Nat) (memberNodes : NodeMap NID N) : Prop :=
  ∀ evs n', (∀ ev ∈ evs, ev.isLogIo = true) →
    (n.handleInitialize now memberNodes).run now evs = some n' →
    .initializeResp n.id none ∈ n'.sent → ∃ ent ∈ n'.store.entries, ent.logId.index = 0

variable {n n' : Node NID N D}

omit [DecidableEq N] in
theorem uninitialized_start {config : EngineConfig NID} {incarnation now : Nat}
    {vote : Option (Vote NID)} (hv : ∀ v ∈ vote, v.leaderId.term = 0)
    (hn : start config incarnation [] now ⟨vote, none, none, [], []⟩ ⟨[], none⟩ = some n) :
    n.Uninitialized := by
  have hterm : (vote.getD ⟨⟨0, config.id⟩, false⟩).leaderId.term = 0 := by
    cases vote with
    | none => rfl
    | some v => exact hv v rfl
  obtain rfl : _ = n := Option.some.inj hn
  refine ⟨?_, rfl, rfl, rfl, rfl, rfl, nofun⟩
  show RaftState.isInitialized (RaftState.recovered now (vote.getD ⟨⟨0, config.id⟩, false⟩)
    (⟨vote, none, none, [], []⟩ : LogStore NID N D) ⟨[], none⟩ _ none) = false
  simp [RaftState.isInitialized, RaftState.lastLogId, RaftState.recovered, LogIds.last,
    RaftState.voteRef, Leased.new, hterm]

/-! ### A refused request -/

/-- The state of a node that has refused a request, until it has answered and after it. -/
structure Refused (n : Node NID N D) : Prop where
  follower : n.engine.leader = none
  commands : n.engine.output.commands = [] ∨
    ∃ err, n.engine.output.commands = [.respond none (.initialized (some err))]
  pending : n.engine.output.pendingResponds = ⟨[], []⟩
  silent : ∀ k, Message.initializeResp k none ∉ n.sent

theorem Refused.step (h : n.Refused) {now : Nat} {ev : Event NID N D} (hev : ev.isLogIo = true)
    (hn : n.step now ev = some n') : n'.Refused := by
  unfold Node.step at hn
  split at hn
  · cases hn
  cases ev with
  | runCommand =>
    rcases h.commands with hc | ⟨err, hc⟩
    · simp [Node.perform, Node.runCommand, hc] at hn
    · simp only [Node.perform, Node.runCommand, hc, Node.canRun, Command.condition, if_true,
        Node.execCommand, Option.some.injEq] at hn
      subst hn
      refine ⟨h.follower, Or.inl rfl, h.pending, ?_⟩
      intro k hk
      rcases List.mem_append.1 hk with hk | hk
      · exact h.silent k hk
      · cases List.mem_singleton.1 hk
  | sendSatisfiedOnLogIo => simp [Node.perform, Node.sendSatisfiedOnLogIo, h.pending] at hn
  | flush =>
    simp only [Node.perform, Node.flush] at hn
    split at hn
    · cases hn
    · obtain rfl := Option.some.inj hn
      exact ⟨h.follower, h.commands, h.pending, h.silent⟩
  | localIo io =>
    simp only [Node.perform, Option.ite_none_right_eq_some, Option.some.injEq] at hn
    obtain ⟨-, rfl⟩ := hn
    have hio : n.handleLocalIo io = n.mapIo fun s => { s with
        logProgress := s.logProgress.tryFlush (IOId.gt n.engine.config.mode) io } := by
      cases io <;> simp [Node.handleLocalIo, Node.mapIo, Node.mapState, Node.withEngine, h.follower]
    rw [hio]
    exact ⟨h.follower, h.commands, h.pending, h.silent⟩
  | _ => cases hev

theorem Refused.run (h : n.Refused) {now : Nat} {evs : List (Event NID N D)}
    (hevs : ∀ ev ∈ evs, ev.isLogIo = true) (hn : n.run now evs = some n') : n'.Refused := by
  induction evs generalizing n with
  | nil => exact Option.some.inj hn ▸ h
  | cons ev evs ih =>
    obtain ⟨n1, hn1, hrun⟩ := Option.bind_eq_some_iff.1 hn
    have hstep := h.step (hevs ev (by simp)) hn1
    exact ih hstep (fun ev hev => hevs ev (by simp [hev])) hrun

omit [DecidableEq N] in
theorem Uninitialized.refused (h : n.Uninitialized) {now : Nat} {memberNodes : NodeMap NID N}
    (hid : n.engine.config.id ∉ memberNodes) : (n.handleInitialize now memberNodes).Refused := by
  have hvoter : (Membership.ofNodes memberNodes).isVoter n.engine.config.id = false := by
    simpa [Membership.ofNodes, Membership.isVoter, Finmap.mem_keys] using hid
  have hcheck : n.engine.checkInitialize (.ofNodes memberNodes) =
      some (.notInMembers n.engine.config.id [memberNodes.keys]) := by
    simp only [Engine.checkInitialize, h.fresh, hvoter]
    rfl
  simp only [Node.handleInitialize, Engine.initializeNode, hcheck]
  refine ⟨h.follower, Or.inr ⟨.notInMembers n.engine.config.id [memberNodes.keys], ?_⟩, ?_,
    h.silent⟩
  · simp only [Node.withEngine, Engine.pushCommand, h.idle]
    rfl
  · simp only [Node.withEngine, Engine.pushCommand, h.idle]

/-! ### An accepted request -/

omit [DecidableEq N] in
/-- What is in the queue when an accepted request has been handled: the first entry, the answer,
    and the commands of the campaign. The cursor of flushed IO is where it was. -/
theorem Uninitialized.accepted (h : n.Uninitialized) (now : Nat) {memberNodes : NodeMap NID N}
    (hid : n.engine.config.id ∈ memberNodes) : ∃ V entries rest e,
      n.handleInitialize now memberNodes = n.withEngine e ∧
      e.output.commands = .appendEntries V entries ::
        .respond (n.engine.state.acceptedLogIo.map .ioFlushed) (.initialized none) :: rest ∧
      e.config = n.engine.config ∧
      e.state.ioState.logProgress.flushed = n.engine.state.ioState.logProgress.flushed := by
  have hvoter : (Membership.ofNodes memberNodes).isVoter n.engine.config.id = true := by
    simpa [Membership.ofNodes, Membership.isVoter, Finmap.mem_keys] using hid
  have hcheck : n.engine.checkInitialize (.ofNodes memberNodes) = none := by
    simp only [Engine.checkInitialize, h.fresh, hvoter]
    rfl
  let V : LeaderId NID := ⟨0, n.engine.config.id⟩
  let entry : Entry NID N D :=
    ⟨⟨V.toCommitted n.engine.config.mode, 0⟩, .membership (.ofNodes memberNodes)⟩
  -- the engine before the campaign
  let e1 : Engine NID N D := Engine.pushCommand (Engine.doAppendEntries { n.engine with
    state := { n.engine.state with vote := n.engine.state.vote.update now 0 ⟨V, true⟩ } } [entry])
      (.respond (n.engine.state.acceptedLogIo.map .ioFlushed) (.initialized none))
  have hcmds : e1.output.commands = [.appendEntries V [entry],
      .respond (n.engine.state.acceptedLogIo.map .ioFlushed) (.initialized none)] := by
    simp only [e1, Engine.pushCommand, Engine.doAppendEntries, h.idle]
    rfl
  obtain ⟨rest, hrest, hconfig, hflushed⟩ :=
    Engine.doElect_member (e := e1) h.follower (decide_eq_true hid) now false
  refine ⟨V, [entry], rest, e1.doElect now false, ?_, ?_, hconfig, hflushed⟩
  · simp only [Node.handleInitialize, Engine.initializeNode, hcheck]
    rfl
  · rw [hrest, hcmds]
    rfl

/-- The answer is sent right after the first entry is handed to the log store. -/
theorem Uninitialized.early (h : n.Uninitialized) (now : Nat) {memberNodes : NodeMap NID N}
    (hid : n.engine.config.id ∈ memberNodes) : ∃ n',
      (n.handleInitialize now memberNodes).run now [.runCommand, .runCommand] = some n' ∧
      .initializeResp n.id none ∈ n'.sent ∧ n'.store.entries = [] := by
  obtain ⟨V, entries, rest, e, he, hcmds, hconfig, hflushed⟩ := h.accepted now hid
  rw [he]
  have hmet : ∀ c ∈ n.engine.state.acceptedLogIo.map Condition.ioFlushed,
      c.isMet e.config.mode { e.state.ioState with
        logProgress := e.state.ioState.logProgress.submit
          (.newLogIo V (entries.getLast?.map Entry.logId)) } = true := by
    intro c hc
    obtain ⟨io, hio, rfl⟩ := Option.map_eq_some_iff.1 hc
    have hfl : e.state.ioState.logProgress.flushed = some io := by
      rw [hflushed, h.synced]
      exact hio
    simp only [Condition.isMet, IOProgress.submit, hfl]
    exact IOId.ge_iff.2 (Or.inr ⟨rfl, le_rfl⟩)
  generalize n.engine.state.acceptedLogIo.map Condition.ioFlushed = when at *
  let n1 : Node NID N D :=
    ((n.withEngine e).withCommands (.respond when (.initialized none) :: rest)).runAppendEntries V
      entries
  have hfirst : (n.withEngine e).step now .runCommand = some n1 := by
    simp [Node.step, Event.isRestart, Node.perform, Node.runCommand, Node.withEngine, h.running,
      hcmds, Node.canRun, Command.condition, Node.execCommand, n1]
  have hrun : n1.canRun (.respond when (.initialized none)) = true := by
    cases when with
    | none => rfl
    | some c => exact hmet c rfl
  have hsecond : n1.step now .runCommand =
      some ((n1.withCommands rest).send [.initializeResp n1.id none]) := by
    have hcmds1 : n1.engine.output.commands = .respond when (.initialized none) :: rest := rfl
    have hstop : n1.stopped = false := h.running
    simp only [Node.step, hstop, Event.isRestart, Node.perform, Node.runCommand, hcmds1, hrun]
    rfl
  have hid1 : n1.id = n.id := congrArg EngineConfig.id hconfig
  refine ⟨(n1.withCommands rest).send [.initializeResp n1.id none], ?_, ?_, h.empty⟩
  · simp only [Node.run, hfirst, hsecond, Option.bind_some]
  · rw [hid1]
    exact List.mem_append.2 (Or.inr (by simp))

/-- The application hears of an initialized node only after the first entry is durable exactly
    when it never hears of it: when the node is not among the members. -/
theorem initialized_after_flush_iff (h : n.Uninitialized) (now : Nat)
    (memberNodes : NodeMap NID N) :
    n.InitializedAfterFlush now memberNodes ↔ n.engine.config.id ∉ memberNodes := by
  constructor
  · intro hsafe hid
    obtain ⟨n', hrun, hsent, hentries⟩ := h.early now hid
    obtain ⟨ent, hent, -⟩ := hsafe _ n' (by simp [Event.isLogIo]) hrun hsent
    rw [hentries] at hent
    cases hent
  · intro hid evs n' hevs hrun hsent
    exact absurd hsent (((h.refused hid).run hevs hrun).silent _)

/-- A node on empty storage. -/
def blankNode : Node (Fin 3) Unit Nat :=
  (start (Three.config true 0) 0 [] 0 ⟨none, none, none, [], []⟩ ⟨[], none⟩).get (by decide +kernel)

theorem blankNode_uninitialized : blankNode.Uninitialized := by
  have hvote : ∀ v ∈ (none : Option (Vote (Fin 3))), v.leaderId.term = 0 := nofun
  exact uninitialized_start hvote (Option.some_get _).symm

theorem initialized_after_flush_iff_blank : blankNode.Uninitialized ∧
    (blankNode.InitializedAfterFlush 0 Three.membership.nodes ↔
      blankNode.engine.config.id ∉ Three.membership.nodes) :=
  ⟨blankNode_uninitialized, initialized_after_flush_iff blankNode_uninitialized 0 _⟩

/-- Node 0 forms a cluster of three: the application is told so while the log is empty. -/
theorem initialized_before_flush :
    ((blankNode.handleInitialize 0 Three.membership.nodes).run 0 [.runCommand, .runCommand]).any
      (fun n => n.sent.any (fun m => match m with | .initializeResp 0 none => true | _ => false) &&
        n.store.entries.isEmpty) = true := by
  decide +kernel

end Node

end ZenohRaft
