/-
  Runs of a node in a cluster whose history is sound.

  `Node.EventOK` says what the history has to say about an event: a request of a leader carries a
  part of its log, a candidate that asks for a vote is on record with the end of its log, an
  acknowledgement is of an entry that is stored or committed, what the leader writes is on record.
  Messages may come in any order, any number of times, or never, and the commands, the log store
  and the state machine take their steps at any time.

  `InOrder.step`: every event but a restart keeps the memory in agreement with the log, and
  `local_committed` does not go back. The lemmas before it are one for each handler.
-/
import ZenohRaft.Election.Node
import ZenohRaft.Log.NodeMemory
import ZenohRaft.PendingResponds

namespace ZenohRaft

open Lib

variable {NID N D : Type} [LinearOrder NID]

namespace Node

/-! ## Events that fit a history -/

variable (h : History NID N D) (n : Node NID N D)

/-- The log of the node when the commands that wait are carried out. -/
def wholeLog : List (Entry NID N D) := h.upTo n.engine.state.lastLogId

/-- What the node `id` acknowledges to the leader that this node is, if it is for this leader. -/
def AcksOK (current : Leader NID N → Prop) (id : NID) (acked : Option (LogId NID)) : Prop :=
  ∀ l, n.engine.leader = some l → current l → ∀ y, acked = some y →
    HasId (n.wholeLog h) y ∧ h.Acked n.engine.config.mode id l.committedVote y

/-- What the leader that this node is writes, if it may write: on record its log goes on with these
    payloads behind the log of the node. -/
def WritesOK (now : Nat) (payloads : List (Payload NID N D)) : Prop :=
  ∀ l, n.ensureWritableLeaderHandler now = some l →
    n.wholeLog h ++ entriesAt (l.committedVote.toCommitted n.engine.config.mode)
      (n.wholeLog h).length payloads <+: h.log (l.committedVote.toCommitted n.engine.config.mode)

/-- What the history has to say about a message that arrives. -/
def MessageOK : Message NID N D → Prop
  | .vote false _ _ req => req.vote.leaderId.nodeId ≠ n.id ∧ req.vote.committed = false ∧
      h.asked req.vote.leaderId req.lastLogId
  | .voteResp false src _ _ resp => n.engine.VoteRespOK h src resp
  | .voteResp true _ _ _ resp => resp.vote.leaderId.nodeId = n.id →
      resp.vote.toNonCommitted.gt n.engine.config.mode n.engine.state.voteRef = false
  | .appendEntries ctx req => ∃ V, Engine.RequestOK n.engine.config.mode h n.id V ctx req
  | .appendEntriesResp ctx (.ok acked) =>
    n.AcksOK h (·.isReplicationStreamValid ctx.target ctx.streamId) ctx.target acked
  | .appendEntriesResp _ (.error (.higherVote v)) => n.engine.SeenOK h v
  | .installFullSnapshot ctx vote snapshot =>
    ∃ V, Engine.InstallOK n.engine.config.mode h n.id V ctx vote snapshot
  | .installFullSnapshotResp ctx last vote =>
    n.AcksOK h (·.isReplicationStreamValid ctx.target ctx.streamId) ctx.target last ∧
      n.engine.SeenOK h vote
  | _ => True

/-- What the history has to say about an event. -/
def EventOK [DecidableEq N] (now : Nat) : Event NID N D → Prop
  | .receive m => n.MessageOK h m
  | .localIo a => n.AcksOK h (fun l => a.toVote = ⟨l.committedVote, true⟩) n.id a.lastLogId
  | .stateMachineResult => ∀ m rest, n.smDone = .buildSnapshotDone m :: rest →
      Holds (n.wholeLog h) m.lastLogId ∧
        nextIndex m.lastLogId ≤ nextIndex n.engine.state.localCommitted
  | .write data => n.WritesOK h now (data.map .normal)
  | .changeMembership changes retain => ∀ m,
      n.engine.state.membershipState.nextMembership changes retain = some (.ok m) →
        n.WritesOK h now [.membership m]
  | .appendMembership m => n.engine.state.membershipState.validateAppendMembership m = .ok () →
      n.WritesOK h now [.membership m]
  | .restart _ _ => False
  | _ => True

/-- An event fits the history, and so does what the leader then counts as accepted. -/
def Fits [DecidableEq N] (o : Nat × Event NID N D) : Prop :=
  n.EventOK h o.1 o.2 ∧ ∀ n', n.stepAt o = some n' → n'.engine.CommitsIn h

/-- Where an event leads to: the memory agrees with the log, and no less is committed. -/
structure Reaches (n' : Node NID N D) : Prop where
  config : n'.engine.config = n.engine.config
  committed : n.engine.state.localCommitted ≤ n'.engine.state.localCommitted
  inOrder : ∃ io sub, n'.InOrder h io sub

variable {h n} {n' n'' : Node NID N D} {io : Option (LogId NID)} {sub : IOId NID}

theorem Reaches.trans (h1 : Reaches h n n') (h2 : Reaches h n' n'') : Reaches h n n'' :=
  ⟨h2.config.trans h1.config, h1.committed.trans h2.committed, h2.inOrder⟩

theorem InOrder.full_eq (hn : n.InOrder h io sub) : (n.final io sub).full h = n.wholeLog h :=
  hn.mem.full_eq

/-! ## Handlers -/

theorem InOrder.reaches (hn : n.InOrder h io sub) {X' : View NID N D} {e' : Engine NID N D}
    (hk : Engine.Keeps h (n.final io sub) n.engine X' e') : Reaches h n (n.withEngine e') :=
  ⟨hk.config, hk.moves.grows.committed, io, sub, hn.engine hk⟩

theorem InOrder.stays (hn : n.InOrder h io sub) {X' : View NID N D} {e' : Engine NID N D}
    (hst : Engine.Stays h (n.final io sub) n.engine X' e') : Reaches h n (n.withEngine e') :=
  hn.reaches (.of_stays hn.role hst)

/-- The log, the vote and the role are the same, and so are the view and the commands. -/
theorem InOrder.aside (hn : n.InOrder h io sub) (hrole : SameRole n.engine n'.engine)
    (hcs : n'.engine.output.commands = n.engine.output.commands)
    (hview : n'.view io sub = n.view io sub) : Reaches h n n' :=
  ⟨hrole.config, hrole.committed.ge, io, sub, hn.keep hrole hcs hview⟩

theorem InOrder.same (hn : n.InOrder h io sub) : Reaches h n n := hn.aside (.refl _) rfl rfl

theorem InOrder.afterEngine (hn : n.InOrder h io sub) {r : Option (Engine NID N D)}
    (hr : ∀ e', r = some e' → ∃ X', Engine.Keeps h (n.final io sub) n.engine X' e') :
    Reaches h n (n.afterEngine r) := by
  cases r with
  | none => exact hn.aside (.refl _) rfl rfl
  | some e' =>
    obtain ⟨X', hk⟩ := hr e' rfl
    exact hn.reaches hk

variable (hs : h.Sound n.engine.config.mode)
include hs

theorem InOrder.handleReplicationProgress (hn : n.InOrder h io sub) {ctx : StreamCtx NID}
    {result : Engine.ReplicationResult NID}
    (hack : ∀ acked, result = .matching acked →
      n.AcksOK h (·.isReplicationStreamValid ctx.target ctx.streamId) ctx.target acked)
    (hcom : (n.handleReplicationProgress ctx result).engine.CommitsIn h) :
    Reaches h n (n.handleReplicationProgress ctx result) := by
  unfold Node.handleReplicationProgress at hcom ⊢
  cases hl : n.engine.leader with
  | none => exact hn.same
  | some l =>
    rw [hl] at hcom
    dsimp only at hcom ⊢
    refine hn.afterEngine fun e' he' => ?_
    rw [he'] at hcom
    refine Engine.updateProgress_keeps hs hn.mem hn.role hl ?_ he' hcom
    intro hvalid acked hres y hy
    rw [hn.full_eq]
    exact hack acked hres l hl hvalid y hy

theorem InOrder.handleHigherVote (hn : n.InOrder h io sub) (now : Nat) (V : LeaderId NID)
    {v : Vote NID} (hv : n.engine.SeenOK h v) : Reaches h n (n.handleHigherVote now V v) := by
  unfold Node.handleHigherVote
  split
  · obtain ⟨X', hk, -⟩ := Engine.updateVote_seen hs hn.mem hn.role hv now
    exact hn.reaches hk
  · exact hn.same

theorem InOrder.handleTransferLeader (hn : n.InOrder h io sub) (now : Nat) (V : LeaderId NID)
    (target : NID) (last : Option (LogId NID)) :
    Reaches h n (n.handleTransferLeader now V target last) := by
  have hst : ∀ e1 : Engine NID N D, e1 = { n.engine with
      state := { n.engine.state with vote := n.engine.state.vote.disableLease } } →
        Engine.Stays h (n.final io sub) n.engine (n.final io sub) e1 := by
    rintro e1 rfl
    exact .of_mem (LogMem.of_sameLog hn.mem ⟨rfl, rfl, rfl, rfl, rfl, rfl⟩) rfl rfl
      (.of_eq rfl) rfl rfl rfl rfl
  have helect : ∀ e1 : Engine NID N D, e1 = { n.engine with
      state := { n.engine.state with vote := n.engine.state.vote.disableLease } } →
        ∃ X', Engine.Keeps h (n.final io sub) n.engine X' (e1.doElect now true) := by
    intro e1 he1
    have hst1 := hst e1 he1
    obtain ⟨X', hk⟩ := Engine.doElect_keeps (by rw [hst1.config]; exact hs) hst1.mem
      (hn.role.of_stays hst1) now true
    exact ⟨X', (Engine.Keeps.of_stays hn.role hst1).trans hk⟩
  unfold Node.handleTransferLeader
  dsimp only
  split
  · split
    · obtain ⟨X', hk⟩ := helect _ rfl
      exact hn.reaches hk
    · exact hn.stays (hst _ rfl)
  · exact hn.same

theorem InOrder.handleVoteResponse (hn : n.InOrder h io sub) (now : Nat) (isPreVote : Bool)
    (src dst : NID) (V : LeaderId NID) {resp : VoteResponse NID}
    (hm : n.MessageOK h (.voteResp isPreVote src dst V resp)) :
    Reaches h n (n.handleVoteResponse now isPreVote src V resp) := by
  cases isPreVote with
  | true =>
    obtain ⟨X', hk⟩ := Engine.handlePreVoteResp_keeps hs hn.mem hn.role hm now
    show Reaches h n (if n.engine.preCandidate.map (·.vote.leaderId) = some V then
      n.withEngine (n.engine.handlePreVoteResp now src resp) else n)
    split
    · exact hn.reaches hk
    · exact hn.same
  | false =>
    show Reaches h n (if n.engine.candidate.map (·.vote.leaderId) = some V then
      n.afterEngine (n.engine.handleVoteResp now src resp) else n)
    split
    · exact hn.afterEngine fun e' he' => Engine.handleVoteResp_keeps hs hn.mem hn.role hm he'
    · exact hn.same

omit hs in
theorem InOrder.handleHeartbeatProgress (hn : n.InOrder h io sub) (ctx : StreamCtx NID) :
    Reaches h n (n.handleHeartbeatProgress ctx) := by
  unfold Node.handleHeartbeatProgress Engine.withLeader
  split
  · rename_i l hl
    have hst : Engine.Stays h (n.final io sub) n.engine (n.final io sub)
        (n.engine.tryUpdateLeaderClock l ctx.streamId ctx.target ctx.sendingTime) := by
      unfold Engine.tryUpdateLeaderClock
      split
      · refine .of_mem hn.mem rfl rfl (.refl _) rfl rfl ?_ rfl
        rw [Engine.leading_eq hl]
        rfl
      · exact .refl hn.mem
    exact hn.stays hst
  · exact hn.same

/-- What the leader writes. -/
theorem InOrder.writeEntries (hn : n.InOrder h io sub) (now : Nat)
    {payloads : List (Payload NID N D)} (hw : n.WritesOK h now payloads)
    (hone : ∀ l, (storedMemberships (n.engine.proposals l payloads)).length ≤ 1) :
    Reaches h n (n.writeEntries now payloads) := by
  unfold Node.writeEntries
  cases hl : n.ensureWritableLeaderHandler now with
  | none => exact hn.same
  | some l =>
    have hleader : n.engine.leader = some l :=
      ensureLeaderHandler_some (Option.filter_eq_some_iff.1 hl).1
    dsimp only
    by_cases hne : payloads = []
    · -- no log ids are assigned
      have heq : n.engine.leaderAppendEntries l payloads = n.engine := by
        unfold Engine.leaderAppendEntries Leader.assignLogIds
        rw [hne]
        rfl
      rw [heq]
      exact hn.same
    · refine hn.reaches (Engine.leaderAppendEntries_keeps hs hn.mem hn.role hleader hne (hone l) ?_)
      rw [Engine.proposals_continue hn.mem hn.role hleader, hn.full_eq]
      exact hw l hl

omit hs [LinearOrder NID] in
theorem storedMemberships_proposals (l : Leader NID N) (data : List D) :
    storedMemberships (n.engine.proposals l (data.map .normal)) = [] := by
  unfold storedMemberships Engine.proposals
  rw [List.filterMap_eq_nil_iff]
  intro ent hent
  rw [List.zipWith_map_right] at hent
  obtain ⟨a, b, hab⟩ : ∃ a b, ent = (⟨a, .normal b⟩ : Entry NID N D) := by
    obtain ⟨i, hi⟩ := List.mem_iff_getElem?.1 hent
    rw [List.getElem?_zipWith_eq_some] at hi
    obtain ⟨a, b, -, -, rfl⟩ := hi
    exact ⟨a, b, rfl⟩
  rw [hab]
  rfl

omit hs [LinearOrder NID] in
theorem length_storedMemberships_proposals (l : Leader NID N) (p : Payload NID N D) :
    (storedMemberships (n.engine.proposals l [p])).length ≤ 1 :=
  (List.length_filterMap_le _ _).trans (Engine.length_proposals n.engine l [p]).le

/-! ## Events -/

theorem InOrder.receive (hn : n.InOrder h io sub) {now : Nat} {m : Message NID N D}
    (hm : n.MessageOK h m) (he : n.receive now m = some n') (hcom : n'.engine.CommitsIn h) :
    Reaches h n n' := by
  cases m with
  | vote isPreVote src dst req =>
    cases isPreVote with
    | true =>
      obtain rfl := Option.some.inj he
      exact hn.stays (.push _ hn.mem trivial rfl)
    | false =>
      obtain rfl := Option.some.inj he
      obtain ⟨X', hk⟩ := Engine.handleVoteReq_keeps hs hn.mem hn.role hm.1 hm.2.1 hm.2.2 now src
      exact hn.reaches hk
  | voteResp isPreVote src dst V resp =>
    obtain rfl := Option.some.inj he
    exact hn.handleVoteResponse hs now isPreVote src dst V hm
  | appendEntries ctx req =>
    obtain rfl := Option.some.inj he
    obtain ⟨V, hreq⟩ := hm
    obtain ⟨X', e1, he1, hk⟩ := Engine.handleAppendEntriesRequest_keeps hs hn.mem hn.role hreq now
    rw [he1] at hk
    exact hn.reaches hk
  | appendEntriesResp ctx result =>
    unfold Node.receive at he
    dsimp only at he
    split at he
    · obtain rfl := Option.some.inj he
      rcases result with (conflict | higher) | (_ | y)
      · exact hn.handleReplicationProgress hs (fun acked hres => by cases hres) hcom
      · exact hn.handleHigherVote hs now ctx.leaderVote hm
      · exact hn.same
      · unfold Node.handleAppendEntriesResponse at hcom ⊢
        dsimp only at hcom ⊢
        split
        · exact hn.same
        · rename_i hnot
          rw [if_neg hnot] at hcom
          refine hn.handleReplicationProgress hs (fun acked hres => ?_) hcom
          cases hres
          exact hm
    · cases he
  | installFullSnapshot ctx vote snapshot =>
    obtain rfl := Option.some.inj he
    obtain ⟨V, hreq⟩ := hm
    exact hn.afterEngine fun e' he' =>
      Engine.handleInstallFullSnapshot_keeps hs hn.mem hn.role hreq he'
  | installFullSnapshotResp ctx last vote =>
    unfold Node.receive at he
    dsimp only at he
    split at he
    · obtain rfl := Option.some.inj he
      unfold Node.handleInstallSnapshotResponse at hcom ⊢
      split
      · exact hn.handleHigherVote hs now ctx.leaderVote hm.2
      · rename_i hnot
        rw [if_neg hnot] at hcom
        refine hn.handleReplicationProgress hs (fun acked hres => ?_) hcom
        cases hres
        exact hm.1
    · cases he
  | transferLeader dst V target last =>
    obtain rfl := Option.some.inj he
    exact hn.handleTransferLeader hs now V target last
  | initializeResp node err => cases he

omit hs in
theorem InOrder.receiveClock (hn : n.InOrder h io sub) {m : Message NID N D}
    (he : n.receiveClock m = some n') : Reaches h n n' := by
  unfold Node.receiveClock at he
  split at he
  · split at he
    · obtain rfl := Option.some.inj he
      exact hn.handleHeartbeatProgress _
    · cases he
  · split at he
    · obtain rfl := Option.some.inj he
      exact hn.handleHeartbeatProgress _
    · cases he
  · split at he
    · obtain rfl := Option.some.inj he
      exact hn.handleHeartbeatProgress _
    · cases he
  · cases he

/-- `RaftCore::handle_local_io`. -/
theorem InOrder.handleLocalIo (hn : n.InOrder h io sub) {a : IOId NID}
    (hack : n.AcksOK h (fun l => a.toVote = ⟨l.committedVote, true⟩) n.id a.lastLogId)
    (hcom : (n.handleLocalIo a).engine.CommitsIn h) :
    Reaches h n (n.handleLocalIo a) := by
  obtain ⟨n1, hn1⟩ : ∃ n1, n1 = n.mapIo fun s => { s with
    logProgress := s.logProgress.tryFlush (IOId.gt n.engine.config.mode) a } := ⟨_, rfl⟩
  have hrole : SameRole n.engine n1.engine := by
    rw [hn1]
    exact ⟨rfl, rfl, rfl, rfl, rfl, rfl, IOProgress.tryFlush_accepted _ _ _, rfl, rfl, rfl,
      rfl, rfl⟩
  have hlast : n1.engine.state.lastLogId = n.engine.state.lastLogId := by
    rw [hn1]
    rfl
  have h1 : Reaches h n n1 := hn.aside hrole (by rw [hn1]; rfl) (by rw [hn1]; rfl)
  have hn1' : n1.InOrder h io sub := hn.keep hrole (by rw [hn1]; rfl) (by rw [hn1]; rfl)
  have hs1 : h.Sound n1.engine.config.mode := by
    rw [hrole.config]
    exact hs
  unfold Node.handleLocalIo at hcom ⊢
  dsimp only at hcom ⊢
  rw [← hn1] at hcom ⊢
  cases hl : n1.engine.leader with
  | none => cases a <;> exact h1
  | some l =>
    cases a with
    | vote V => exact h1
    | log logIo =>
      rw [hl] at hcom
      dsimp only at hcom ⊢
      split
      · rename_i hV
        rw [if_pos hV] at hcom
        refine h1.trans (hn1'.afterEngine fun e' he' => ?_)
        rw [he'] at hcom
        refine Engine.updateLocalProgress_keeps hs1 hn1'.mem hn1'.role hl ?_ he' hcom
        intro y hy
        have hvote : (IOId.log logIo).toVote = ⟨l.committedVote, true⟩ := by
          rw [← hV]
          rfl
        have hy' := hack l (by rw [← hrole.leader]; exact hl) hvote y hy
        rw [hn1'.full_eq, wholeLog, hlast, hrole.config]
        exact hy'
      · exact h1

/-- `RaftCore::handle_state_machine_result`. -/
theorem InOrder.stateMachineResult (hn : n.InOrder h io sub) {r : SmResponse NID N}
    {rest : List (SmResponse NID N)} (hd : n.smDone = r :: rest)
    (hok : ∀ m rest, n.smDone = .buildSnapshotDone m :: rest →
      Holds (n.wholeLog h) m.lastLogId ∧
        nextIndex m.lastLogId ≤ nextIndex n.engine.state.localCommitted) :
    Reaches h n ({ n with smDone := rest }.handleStateMachineResult r) := by
  obtain ⟨n1, hn1⟩ : ∃ n1 : Node NID N D, n1 = { n with smDone := rest } := ⟨_, rfl⟩
  have he1 : n1.engine = n.engine := by rw [hn1]
  have hrole : SameRole n.engine n1.engine := by
    rw [he1]
    exact .refl _
  have h1 : Reaches h n n1 := hn.aside hrole (by rw [he1]) (by rw [hn1]; rfl)
  have hn1' : n1.InOrder h io sub := hn.keep hrole (by rw [he1]) (by rw [hn1]; rfl)
  rw [← hn1]
  refine h1.trans ?_
  cases r with
  | buildSnapshotDone m =>
    obtain ⟨hholds, hle⟩ := hok m rest hd
    have hb : Engine.BuiltOK h (n1.final io sub) n1.engine.state m.lastLogId := by
      refine ⟨?_, by rw [he1]; exact hle⟩
      rw [hn1'.full_eq, wholeLog, he1]
      exact hholds
    obtain ⟨X', hst⟩ := Engine.onBuildingSnapshotDone_stays (by rw [he1]; exact hs) hn1'.mem hb
    exact hn1'.stays hst
  | installSnapshot a m =>
    have hrole1 : SameRole n1.engine
      (n1.handleStateMachineResult (.installSnapshot a m)).engine := by
      unfold Node.handleStateMachineResult
      dsimp only
      split
      · have hflush := IOProgress.tryFlush_accepted (T := LogId NID)
        exact ⟨rfl, rfl, rfl, rfl, rfl, rfl, IOProgress.tryFlush_accepted _ _ _, hflush _ _ _,
          rfl, rfl,
          rfl, hflush _ _ _⟩
      · exact ⟨rfl, rfl, rfl, rfl, rfl, rfl, IOProgress.tryFlush_accepted _ _ _, rfl, rfl, rfl, rfl,
          rfl⟩
    refine hn1'.aside hrole1 ?_ ?_
    · unfold Node.handleStateMachineResult
      dsimp only
      split <;> rfl
    · unfold Node.handleStateMachineResult
      dsimp only
      split <;> rfl
  | apply last =>
    have hrole1 : SameRole n1.engine (n1.handleStateMachineResult (.apply last)).engine :=
      ⟨rfl, rfl, rfl, rfl, rfl, rfl, rfl, IOProgress.tryFlush_accepted _ _ _, rfl, rfl, rfl, rfl⟩
    exact hn1'.aside hrole1 rfl rfl

section

omit hs

theorem InOrder.flush (hn : n.InOrder h io sub) (he : n.flush = some n') : Reaches h n n' := by
  unfold Node.flush at he
  cases hp : n.store.pending with
  | nil =>
    rw [hp] at he
    cases he
  | cons w rest =>
    rw [hp] at he
    obtain rfl := Option.some.inj he
    refine hn.aside ⟨rfl, rfl, rfl, rfl, rfl, rfl, rfl, rfl, rfl, rfl, rfl, rfl⟩ rfl ?_
    unfold view LogStore.readable
    dsimp only
    rw [hp, List.flatMap_cons, List.append_assoc]
    rfl

theorem InOrder.workerLoop (hn : n.InOrder h io sub) (he : n.workerLoop = some n') :
    Reaches h n n' := by
  have hout : ∀ n1 : Node NID N D, n1.engine = n.engine → n1.store = n.store →
      n1.streams = n.streams → n1.committedWatch = n.committedWatch → Reaches h n n1 := by
    intro n1 hengine hstore hstreams hwatch
    refine hn.aside (by rw [hengine]; exact .refl _) (by rw [hengine]) ?_
    unfold view Node.id
    rw [hengine, hstore, hstreams, hwatch]
  unfold Node.workerLoop at he
  split at he
  · cases he
  · obtain rfl := Option.some.inj he
    exact hout _ rfl rfl rfl rfl
  · obtain rfl := Option.some.inj he
    exact hout _ rfl rfl rfl rfl
  · split at he
    · obtain rfl := Option.some.inj he
      exact hout _ rfl rfl rfl rfl
    · obtain rfl := Option.some.inj he
      exact hout _ rfl rfl rfl rfl

theorem InOrder.sendSatisfiedOnLogIo (hn : n.InOrder h io sub)
    (he : n.sendSatisfiedOnLogIo = some n') : Reaches h n n' := by
  unfold Node.sendSatisfiedOnLogIo at he
  dsimp only at he
  split at he
  · cases he
  · split at he
    · obtain rfl := Option.some.inj he
      exact hn.aside ⟨rfl, rfl, rfl, rfl, rfl, rfl, rfl, rfl, rfl, rfl, rfl, rfl⟩ rfl rfl
    · cases he

theorem InOrder.sendSatisfiedOnSnapshot (hn : n.InOrder h io sub)
    (he : n.sendSatisfiedOnSnapshot = some n') : Reaches h n n' := by
  unfold Node.sendSatisfiedOnSnapshot at he
  dsimp only at he
  split at he
  · cases he
  · split at he
    · obtain rfl := Option.some.inj he
      exact hn.aside ⟨rfl, rfl, rfl, rfl, rfl, rfl, rfl, rfl, rfl, rfl, rfl, rfl⟩ rfl rfl
    · cases he

/-- `RaftCore::run_progress_driven_command`. -/
theorem InOrder.runProgressDrivenCommand (hn : n.InOrder h io sub)
    (he : n.runProgressDrivenCommand = some n') : Reaches h n n' := by
  unfold Node.runProgressDrivenCommand at he
  split at he
  · obtain ⟨c, hc, hexec⟩ := Option.bind_eq_some_iff.1 he
    obtain ⟨already, upto, rfl⟩ : ∃ already upto, c = .saveCommittedAndApply already upto := by
      unfold Engine.nextProgressDrivenCommand at hc
      dsimp only at hc
      split at hc
      · split at hc
        · split at hc
          · exact ⟨_, _, (Option.some.inj hc).symm⟩
          · cases hc
        · cases hc
      · cases hc
    obtain rfl := Option.some.inj hexec
    have hrole : SameRole n.engine (n.runSaveCommittedAndApply already upto).engine := by
      unfold Node.runSaveCommittedAndApply
      dsimp only
      split <;> exact ⟨rfl, rfl, rfl, rfl, rfl, rfl, rfl, rfl, rfl, rfl, rfl, rfl⟩
    refine hn.aside hrole ?_ ?_
    · unfold Node.runSaveCommittedAndApply
      dsimp only
      split <;> rfl
    · unfold Node.runSaveCommittedAndApply
      dsimp only
      split <;> rfl
  · cases he

theorem InOrder.triggerTransferLeader (hn : n.InOrder h io sub) (target : NID) :
    Reaches h n (n.withEngine (n.engine.withLeader fun e l => e.transferLeader l target)) := by
  unfold Engine.withLeader
  split
  · rename_i l hl
    obtain ⟨e1, he1⟩ : ∃ e1 : Engine NID N D, e1 = { n.engine with
      leader := some { l with transferTo := some target }
      state := { n.engine.state with vote := n.engine.state.vote.disableLease } } := ⟨_, rfl⟩
    have hst : Engine.Stays h (n.final io sub) n.engine (n.final io sub) e1 := by
      rw [he1]
      refine .of_mem (LogMem.of_sameLog hn.mem ⟨rfl, rfl, rfl, rfl, rfl, rfl⟩) rfl rfl
        (.of_eq rfl) rfl rfl ?_ rfl
      rw [Engine.leading_eq hl]
      rfl
    have hpush := hst.trans (.push (.broadcastTransferLeader l.committedVote target l.lastLogId)
      hst.mem trivial rfl)
    rw [he1] at hpush
    exact hn.stays hpush
  · exact hn.same

theorem InOrder.send (hn : n.InOrder h io sub) (ms : List (Message NID N D)) :
    Reaches h n (n.send ms) :=
  hn.aside ⟨rfl, rfl, rfl, rfl, rfl, rfl, rfl, rfl, rfl, rfl, rfl, rfl⟩ rfl rfl

theorem InOrder.sendOnStream (hn : n.InOrder h io sub) (hsend : n.SendsOnStream n') :
    Reaches h n n' := by
  cases hsend <;> exact hn.send _

end

/-- Every event that fits the history. -/
theorem InOrder.step [DecidableEq N] (hn : n.InOrder h io sub) {o : Nat × Event NID N D}
    (hfit : n.Fits h o) (he : n.stepAt o = some n') : Reaches h n n' := by
  obtain ⟨now, ev⟩ := o
  obtain ⟨hok, hcommits⟩ := hfit
  have hcom := hcommits n' he
  have he : n.perform now ev = some n' := perform_of_step he
  cases ev with
  | receive m => exact hn.receive hs hok he hcom
  | receiveClock m => exact hn.receiveClock he
  | runCommand =>
    obtain ⟨hrole, io', sub', hn'⟩ := InOrder.runCommand hs hn he
    exact ⟨hrole.config, hrole.committed.ge, io', sub', hn'⟩
  | runProgressDrivenCommand => exact hn.runProgressDrivenCommand he
  | sendSatisfiedOnLogIo => exact hn.sendSatisfiedOnLogIo he
  | sendSatisfiedOnSnapshot => exact hn.sendSatisfiedOnSnapshot he
  | flush => exact hn.flush he
  | workerLoop => exact hn.workerLoop he
  | localIo a =>
    unfold Node.perform at he
    dsimp only at he
    split at he
    · obtain rfl := Option.some.inj he
      exact hn.handleLocalIo hs hok hcom
    · cases he
  | stateMachineResult =>
    unfold Node.perform at he
    dsimp only at he
    split at he
    · cases he
    · rename_i r rest hd
      obtain rfl := Option.some.inj he
      exact hn.stateMachineResult hs hd hok
  | elect =>
    obtain rfl := Option.some.inj he
    obtain ⟨X', hk⟩ := Engine.doElect_keeps hs hn.mem hn.role now false
    exact hn.reaches hk
  | preElect =>
    obtain rfl := Option.some.inj he
    obtain ⟨X', hk⟩ := Engine.preElect_keeps hs hn.mem hn.role now
    exact hn.reaches hk
  | triggerSnapshot =>
    obtain rfl := Option.some.inj he
    exact hn.stays (Engine.triggerSnapshot_stays hn.mem)
  | purgeLog index =>
    obtain rfl := Option.some.inj he
    refine hn.afterEngine fun e' he' => ?_
    obtain ⟨X', hst⟩ := Engine.triggerPurgeLog_stays hs hn.mem he'
    exact ⟨X', .of_stays hn.role hst⟩
  | triggerTransferLeader target =>
    obtain rfl := Option.some.inj he
    exact hn.triggerTransferLeader target
  | refreshServerState =>
    obtain rfl := Option.some.inj he
    obtain ⟨X', hk, -⟩ := Engine.updateInternalServerState_keeps hs hn.mem hn.role now
    exact hn.reaches hk
  | initiateReplication =>
    obtain rfl := Option.some.inj he
    exact hn.reaches (Engine.withLeader_initiateReplication_keeps hn.mem hn.role)
  | replicationError target streamId inflightId =>
    obtain ⟨l, hl, rfl⟩ := Option.map_eq_some_iff.1 he
    refine hn.afterEngine fun e' he' => ?_
    rw [he'] at hcom
    exact Engine.updateProgress_keeps hs hn.mem hn.role hl (fun _ acked hres => by cases hres) he'
      hcom
  | write data =>
    obtain rfl := Option.some.inj he
    refine hn.writeEntries hs now hok fun l => ?_
    rw [storedMemberships_proposals]
    exact Nat.zero_le _
  | changeMembership changes retain =>
    obtain rfl := Option.some.inj he
    unfold Node.changeMembership
    split
    · exact hn.same
    · split
      · exact hn.aside ⟨rfl, rfl, rfl, rfl, rfl, rfl, rfl, rfl, rfl, rfl, rfl, rfl⟩ rfl rfl
      · exact hn.same
      · rename_i hnext
        exact hn.writeEntries hs now (hok _ hnext) fun l =>
          length_storedMemberships_proposals l _
  | appendMembership m =>
    obtain rfl := Option.some.inj he
    unfold Node.appendMembership
    split
    · exact hn.same
    · split
      · exact hn.same
      · split
        · exact hn.same
        · rename_i hvalid
          exact hn.writeEntries hs now (hok hvalid) fun l =>
            length_storedMemberships_proposals l _
  | sendAppendEntries target prev count inflightId =>
    exact hn.sendOnStream (sendAppendEntries_sends he)
  | sendHeartbeat target => exact hn.sendOnStream (sendHeartbeat_sends he)
  | sendSnapshot target inflightId => exact hn.sendOnStream (sendSnapshot_sends he)
  | restart keep appliedKeep => exact hok.elim

end Node

end ZenohRaft
