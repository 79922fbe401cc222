/-
  Responds that wait for an IO: `engine/pending_responds.rs`.

  A respond is pushed with the condition it waits for. If the condition is not met when the command
  is run, the respond is put at the back of one of two queues, and `drain_satisfied` takes responds
  from the front of each queue for as long as they are met.

  AppendEntries waits for the accepted log IO, a snapshot for its last log id: both only rise. A
  vote request, and a snapshot that is refused, wait for the vote alone. While the vote and entries
  under it are both on their way to the storage, that is less than what a respond ahead may wait
  for, and once the vote is stored the later respond is met and stays.

  * `Node.drains_all_met`: no respond that is met is left behind in any run in which each vote
    request raises the vote, or finds it stored or alone on its way, and each snapshot request
    comes under a vote that is not refused, or finds the same.
  * `LateVote.met_left_behind`: a run of three nodes in which one is left behind.
-/
import ZenohRaft.Cluster
import ZenohRaft.Lib.PartialRun
import ZenohRaft.Lib.Thresholds
import ZenohRaft.Log.Frame
import ZenohRaft.Purge.Cursors

namespace ZenohRaft

open Lib

variable {NID N D : Type} [LinearOrder NID]

/-! ## Draining -/

/-- The rounds of `pop_if_satisfied` on one queue: the responds taken, and those left. -/
def popSatisfied {T : Type} (met : T → Bool) :
    List (T × Respond NID) → List (Respond NID) × List (T × Respond NID)
  | [] => ([], [])
  | (waitFor, resp) :: rest =>
    if met waitFor then
      (resp :: (popSatisfied met rest).1, (popSatisfied met rest).2)
    else ([], (waitFor, resp) :: rest)

/-- `PendingResponds::drain_satisfied`, to its end. -/
def PendingResponds.drainSatisfied (mode : LeaderIdMode) (ioState : IOState NID)
    (p : PendingResponds NID) : List (Respond NID) × PendingResponds NID :=
  let logIo := popSatisfied (fun io => (Condition.ioFlushed io).isMet mode ioState) p.onLogIo
  let snapshot := popSatisfied (fun x => (Condition.snapshot x).isMet mode ioState) p.onSnapshot
  (logIo.1 ++ snapshot.1, ⟨logIo.2, snapshot.2⟩)

omit [LinearOrder NID] in
/-- What is left of a queue in order is not met. -/
theorem popSatisfied_unmet {T : Type} {le : T → T → Prop} {top : Option T} {met : T → Bool}
    {queued : List T} {waiting : List (T × Respond NID)}
    (h : Thresholds.InOrder le top (fun a => met a = true) ⟨waiting.map Prod.fst, queued⟩)
    (hdown : ∀ {a b}, le a b → met b = true → met a = true) :
    ∀ x ∈ (popSatisfied met waiting).2, met x.1 = false := by
  induction waiting with
  | nil =>
    intro x hx
    cases hx
  | cons first rest ih =>
    obtain ⟨waitFor, resp⟩ := first
    unfold popSatisfied
    by_cases hmet : met waitFor = true
    · rw [if_pos hmet]
      exact ih h.pop
    · rw [if_neg hmet]
      intro x hx
      have hnot := h.unmet hdown hmet x.1 (List.mem_map_of_mem hx)
      simpa using hnot

/-! ## The conditions of an engine -/

/-- The condition of a respond. -/
def Command.awaits : Command NID N D → Option (Condition NID)
  | .respond when _ => when
  | _ => none

/-- The log IO that a condition waits for. -/
def Condition.logIo : Condition NID → Option (IOId NID)
  | .ioFlushed ioId => some ioId
  | .snapshot _ => none

/-- The snapshot that a condition waits for. -/
def Condition.onSnapshot : Condition NID → Option (LogId NID)
  | .ioFlushed _ => none
  | .snapshot logId => some logId

/-- What was accepted was accepted under the vote of the state or an earlier leader's. -/
def RaftState.AcceptedUnderVote (mode : LeaderIdMode) (s : RaftState NID N) : Prop :=
  ∀ io ∈ s.acceptedLogIo,
    io.toVote.leaderId.toCommitted mode ≤ s.voteRef.leaderId.toCommitted mode

namespace Engine

/-- The conditions of the responds in the command queue. -/
def awaited (e : Engine NID N D) : List (Condition NID) :=
  e.output.commands.filterMap Command.awaits

/-- `Condition::is_met` in the state of the engine. -/
def meets (e : Engine NID N D) (c : Condition NID) : Bool :=
  c.isMet e.config.mode e.state.ioState

/-- The log IOs that responds wait for. -/
def logIoWaits (e : Engine NID N D) : Thresholds (IOId NID) :=
  ⟨e.output.pendingResponds.onLogIo.map Prod.fst, e.awaited.filterMap Condition.logIo⟩

/-- The snapshots that responds wait for. -/
def snapshotWaits (e : Engine NID N D) : Thresholds (LogId NID) :=
  ⟨e.output.pendingResponds.onSnapshot.map Prod.fst, e.awaited.filterMap Condition.onSnapshot⟩

/-- A condition that is met, or that is the latest there can be. -/
def InTurn (e : Engine NID N D) : Condition NID → Prop
  | .ioFlushed ioId => e.meets (.ioFlushed ioId) = true ∨ e.state.acceptedLogIo = some ioId
  | .snapshot logId =>
    e.meets (.snapshot logId) = true ∨ e.state.snapshotMeta.lastLogId = some logId

/-- The vote is stored, or it is the last thing accepted: no entries under it are on their way. -/
def VoteSettled (e : Engine NID N D) : Prop := e.InTurn (.ioFlushed (.new e.state.voteRef))

/-- A vote request that passes the checks of `handle_vote_req` and raises the vote. -/
def RaisesVote (e : Engine NID N D) (now : Nat) (req : VoteRequest NID) : Prop :=
  e.isLeaderLeaseValid now req.leadershipTransfer = false ∧
    ¬ req.lastLogId < e.state.lastLogId ∧ req.vote.gt e.config.mode e.state.voteRef = true

/-- Log IOs are waited for in order, below the accepted one, and snapshots below the current
    one. -/
structure WaitsInOrder (e : Engine NID N D) : Prop where
  underVote : e.state.AcceptedUnderVote e.config.mode
  logIo : Thresholds.InOrder (fun a b => b.ge e.config.mode a = true) e.state.acceptedLogIo
    (fun io => e.meets (.ioFlushed io) = true) e.logIoWaits
  snapshot : Thresholds.InOrder (· ≤ ·) e.state.snapshotMeta.lastLogId
    (fun x => e.meets (.snapshot x) = true) e.snapshotWaits

end Engine

/-! ## Cursors that rise -/

theorem Condition.isMet_ioFlushed {mode : LeaderIdMode} {s : IOState NID} {io : IOId NID} :
    (Condition.ioFlushed io).isMet mode s = true ↔
      ∃ f ∈ s.logProgress.flushed, f.ge mode io = true := by
  unfold Condition.isMet
  dsimp only
  cases s.logProgress.flushed with
  | none => simp
  | some f => simp

theorem Condition.isMet_snapshot {mode : LeaderIdMode} {s : IOState NID} {x : LogId NID} :
    (Condition.snapshot x).isMet mode s = true ↔ ∃ f ∈ s.snapshot.flushed, x ≤ f := by
  unfold Condition.isMet
  dsimp only
  cases s.snapshot.flushed with
  | none => simp
  | some f => simp

theorem exists_mem_of_optGe {T : Type} {ge : T → T → Bool} {a b : Option T}
    (h : IOProgress.optGe ge a b = true) : ∀ t ∈ b, ∃ t' ∈ a, ge t' t = true := by
  rintro t rfl
  cases a with
  | none => cases h
  | some t' => exact ⟨t', rfl, h⟩

theorem exists_mem_of_le {a b : Option (LogId NID)} (h : a ≤ b) : ∀ t ∈ a, ∃ t' ∈ b, t ≤ t' := by
  intro t ht
  obtain ⟨t', ht', hge⟩ := exists_mem_of_optGe (LogId.optGe_iff.2 h) t ht
  exact ⟨t', ht', of_decide_eq_true hge⟩

/-- From `s` to `s'` no cursor that a condition or a respond looks at is lowered. -/
structure RaftState.Rises (mode : LeaderIdMode) (s s' : RaftState NID N) : Prop where
  flushed : IOProgress.optGe (IOId.ge mode) s'.ioState.logProgress.flushed
    s.ioState.logProgress.flushed = true
  snapshotFlushed : s.ioState.snapshot.flushed ≤ s'.ioState.snapshot.flushed
  accepted : IOProgress.optGe (IOId.ge mode) s'.acceptedLogIo s.acceptedLogIo = true
  underVote : s.AcceptedUnderVote mode → s'.AcceptedUnderVote mode
  snapshotMeta : s.snapshotMeta.lastLogId ≤ s'.snapshotMeta.lastLogId

namespace RaftState.Rises

variable {mode : LeaderIdMode} {s s' s'' : RaftState NID N}

theorem refl (s : RaftState NID N) : Rises mode s s :=
  ⟨optGe_refl mode _, le_rfl, optGe_refl mode _, id, le_rfl⟩

theorem trans (h : Rises mode s s') (h' : Rises mode s' s'') : Rises mode s s'' :=
  ⟨optGe_trans h'.flushed h.flushed, h.snapshotFlushed.trans h'.snapshotFlushed,
    optGe_trans h'.accepted h.accepted, fun hs => h'.underVote (h.underVote hs),
    h.snapshotMeta.trans h'.snapshotMeta⟩

/-- A change of anything else. -/
theorem of_eq (hvote : s'.voteRef = s.voteRef)
    (hflushed : s'.ioState.logProgress.flushed = s.ioState.logProgress.flushed)
    (haccepted : s'.acceptedLogIo = s.acceptedLogIo)
    (hsnapshot : s'.ioState.snapshot.flushed = s.ioState.snapshot.flushed)
    (hmeta : s'.snapshotMeta = s.snapshotMeta) : Rises mode s s' := by
  refine ⟨?_, hsnapshot.ge, ?_, ?_, ?_⟩
  · rw [hflushed]
    exact optGe_refl mode _
  · rw [haccepted]
    exact optGe_refl mode _
  · unfold AcceptedUnderVote
    rw [haccepted, hvote]
    exact id
  · rw [hmeta]

theorem of_sameLog (h : s.SameLog s') : Rises mode s s' :=
  of_eq h.vote (by rw [h.ioState]) (by rw [acceptedLogIo, h.ioState, acceptedLogIo])
    (by rw [h.ioState]) h.snapshotMeta

/-- `accept_log_io` under the vote of the state. -/
theorem acceptLogIo (s : RaftState NID N) {io : IOId NID}
    (hio : io.toVote.leaderId.toCommitted mode ≤ s.voteRef.leaderId.toCommitted mode) :
    Rises mode s (s.acceptLogIo mode io) := by
  rw [acceptLogIo_eq]
  refine ⟨optGe_refl mode _, le_rfl, nextAccepted_ge mode s io, ?_, le_rfl⟩
  intro hs a ha
  change a ∈ s.nextAccepted mode io at ha
  unfold nextAccepted at ha
  split at ha
  · obtain rfl := Option.some.inj ha
    exact hio
  · exact hs a ha

/-- A greater vote is taken over, and its IO accepted. -/
theorem adopt (s : RaftState NID N) {vote : Vote NID} {leased : Leased (Vote NID)}
    (hleased : leased.data = vote) (hgt : vote.gt mode s.voteRef = true) :
    Rises mode s ({ s with vote := leased }.acceptLogIo mode (.new vote)) := by
  have hrank : s.voteRef.leaderId.toCommitted mode ≤ vote.leaderId.toCommitted mode := by
    rcases Vote.rank_lt_iff.1 (Vote.gt_iff.1 hgt) with h | h
    · exact h.le
    · exact h.1.le
  have hvote : ({ s with vote := leased } : RaftState NID N).voteRef = vote := hleased
  have hset : Rises mode s { s with vote := leased } := by
    refine ⟨optGe_refl mode _, le_rfl, optGe_refl mode _, ?_, le_rfl⟩
    intro hs io hio
    rw [hvote]
    exact (hs io hio).trans hrank
  refine hset.trans (acceptLogIo _ ?_)
  rw [IOId.toVote_new, hvote]

theorem updateLocalCommitted (s : RaftState NID N) (c : Option (LogId NID)) :
    Rises mode s (s.updateLocalCommitted c) := by
  unfold RaftState.updateLocalCommitted
  repeat' split
  · exact .refl s
  · exact .of_eq rfl rfl rfl rfl rfl
  · exact .refl s

theorem tryUpdateClusterCommitted (s : RaftState NID N) (cc : LogIOId NID) :
    Rises mode s { s with ioState := s.ioState.tryUpdateClusterCommitted mode cc } := by
  unfold IOState.tryUpdateClusterCommitted
  split
  · exact .of_eq rfl rfl rfl rfl rfl
  · exact .of_eq rfl rfl rfl rfl rfl

theorem updateCommitted (s : RaftState NID N) (cc : LogIOId NID) :
    Rises mode s (s.updateCommitted mode cc) :=
  (tryUpdateClusterCommitted s cc).trans (updateLocalCommitted _ _)

/-- What is met stays met. -/
theorem isMet (h : Rises mode s s') {c : Condition NID} (hc : c.isMet mode s.ioState = true) :
    c.isMet mode s'.ioState = true := by
  cases c with
  | ioFlushed io =>
    obtain ⟨f, hf, hge⟩ := Condition.isMet_ioFlushed.1 hc
    obtain ⟨f', hf', hrise⟩ := exists_mem_of_optGe h.flushed f hf
    exact Condition.isMet_ioFlushed.2 ⟨f', hf', IOId.ge_trans hrise hge⟩
  | snapshot x =>
    obtain ⟨f, hf, hle⟩ := Condition.isMet_snapshot.1 hc
    obtain ⟨f', hf', hrise⟩ := exists_mem_of_le h.snapshotFlushed f hf
    exact Condition.isMet_snapshot.2 ⟨f', hf', hle.trans hrise⟩

end RaftState.Rises

namespace Engine

variable {e e' e'' : Engine NID N D}

/-- A handler that answers nobody. -/
structure Advances (e e' : Engine NID N D) : Prop where
  config : e'.config = e.config
  state : e.state.Rises e.config.mode e'.state
  pending : e'.output.pendingResponds = e.output.pendingResponds
  awaited : e'.awaited = e.awaited

namespace Advances

theorem refl (e : Engine NID N D) : Advances e e := ⟨rfl, .refl _, rfl, rfl⟩

theorem trans (h : Advances e e') (h' : Advances e' e'') : Advances e e'' := by
  refine ⟨h'.config.trans h.config, h.state.trans ?_, h'.pending.trans h.pending,
    h'.awaited.trans h.awaited⟩
  rw [← h.config]
  exact h'.state

theorem ofState {s : RaftState NID N} (h : e.state.Rises e.config.mode s) :
    Advances e { e with state := s } :=
  ⟨rfl, h, rfl, rfl⟩

theorem push {c : Command NID N D} (hc : c.awaits = none) : Advances e (e.pushCommand c) := by
  refine ⟨rfl, .refl _, rfl, ?_⟩
  unfold Engine.awaited pushCommand
  simp [hc]

theorem ofStatePush {s : RaftState NID N} (h : e.state.Rises e.config.mode s)
    {c : Command NID N D} (hc : c.awaits = none) :
    Advances e (({ e with state := s } : Engine NID N D).pushCommand c) :=
  (ofState h).trans (push hc)

theorem of_quiet (hq : Quiet e e') : Advances e e' := by
  refine ⟨hq.config, .of_sameLog hq.state, hq.pending, ?_⟩
  obtain ⟨cs, ⟨pre, hpre, hcs⟩, hidle⟩ := hq.commands
  have hnone : cs.filterMap Command.awaits = [] := by
    rw [List.filterMap_eq_nil_iff]
    intro c hc
    have hc' := hidle c hc
    cases c with
    | respond _ _ => cases hc'
    | _ => rfl
  have hfail : pre.filterMap Command.awaits = [] := by
    rw [List.filterMap_eq_nil_iff]
    intro c hc
    rw [hpre c hc]
    rfl
  unfold Engine.awaited
  rw [hcs, List.filterMap_append, List.filterMap_append, hnone, hfail, List.append_nil,
    List.nil_append]

end Advances

namespace WaitsInOrder

theorem advance (h : e.WaitsInOrder) (ha : Advances e e') : e'.WaitsInOrder := by
  have hmet : ∀ c, e.meets c = true → e'.meets c = true := by
    intro c hc
    unfold meets at hc ⊢
    rw [ha.config]
    exact ha.state.isMet hc
  refine ⟨?_, ?_, ?_⟩
  · rw [ha.config]
    exact ha.state.underVote h.underVote
  · have hwaits : e'.logIoWaits = e.logIoWaits := by
      unfold logIoWaits
      rw [ha.pending, ha.awaited]
    rw [hwaits, ha.config]
    exact h.logIo.rise (fun hab hbc => IOId.ge_trans hbc hab)
      (exists_mem_of_optGe ha.state.accepted) (fun io => hmet (.ioFlushed io))
  · have hwaits : e'.snapshotWaits = e.snapshotWaits := by
      unfold snapshotWaits
      rw [ha.pending, ha.awaited]
    rw [hwaits]
    exact h.snapshot.rise (fun hab hbc => hab.trans hbc)
      (exists_mem_of_le ha.state.snapshotMeta) (fun x => hmet (.snapshot x))

/-- A respond is pushed whose condition is met, or is the latest there can be. -/
theorem pushRespond (h : e.WaitsInOrder) {c : Condition NID} (hc : e.InTurn c)
    (resp : Respond NID) : (e.pushCommand (.respond (some c) resp)).WaitsInOrder := by
  have hawaited : (e.pushCommand (.respond (some c) resp)).awaited = e.awaited ++ [c] := by
    unfold Engine.awaited pushCommand
    rw [List.filterMap_append]
    rfl
  have hlogIo : (e.pushCommand (.respond (some c) resp)).logIoWaits =
      ⟨e.logIoWaits.waiting, e.logIoWaits.queued ++ c.logIo.toList⟩ := by
    unfold logIoWaits
    rw [hawaited, List.filterMap_append]
    cases c <;> rfl
  have hsnapshot : (e.pushCommand (.respond (some c) resp)).snapshotWaits =
      ⟨e.snapshotWaits.waiting, e.snapshotWaits.queued ++ c.onSnapshot.toList⟩ := by
    unfold snapshotWaits
    rw [hawaited, List.filterMap_append]
    cases c <;> rfl
  refine ⟨h.underVote, ?_, ?_⟩
  · rw [hlogIo]
    cases c with
    | ioFlushed io => exact h.logIo.push (IOId.ge_refl _) hc
    | snapshot x =>
      rw [show (Condition.snapshot x).logIo.toList = [] from rfl, List.append_nil]
      exact h.logIo
  · rw [hsnapshot]
    cases c with
    | ioFlushed io =>
      rw [show (Condition.ioFlushed io).onSnapshot.toList = [] from rfl, List.append_nil]
      exact h.snapshot
    | snapshot x => exact h.snapshot.push (fun _ => le_rfl) hc

end WaitsInOrder

/-! ## Handlers that answer nobody -/

theorem becomeFollowing_advances (e : Engine NID N D) : Advances e e.becomeFollowing := by
  obtain ⟨hs, hc, hp⟩ := becomeFollowing_spec e
  refine ⟨hc, ?_, hp, ?_⟩
  · rw [hs]
    exact .refl _
  · unfold becomeFollowing Engine.awaited
    dsimp only
    split
    · show List.filterMap Command.awaits (e.output.commands ++ [.closeReplicationStreams]) = _
      rw [List.filterMap_append]
      exact List.append_nil _
    · rfl

theorem openStreams_advances (e : Engine NID N D) (now : Nat) :
    Advances e (e.openStreams now).1 := by
  obtain ⟨gen, targets, hc, hs, ho, -, -⟩ := openStreams_spec e now
  refine ⟨hc, ?_, ?_, ?_⟩
  · have hgen : e.state.Rises e.config.mode { e.state with progressIdGen := gen } :=
      .of_eq rfl rfl rfl rfl rfl
    rw [hs]
    exact hgen.trans (.acceptLogIo _ le_rfl)
  · rw [ho]
  · unfold Engine.awaited
    rw [ho]
    simp [Command.awaits]

theorem leaderExtendLog_advances {l : Leader NID N}
    (hl : l.committedVote = e.state.voteRef.leaderId)
    (entries : List (Entry NID N D)) : Advances e (e.leaderExtendLog l entries) := by
  have hset : Advances e ({ e with
      leader := some l
      state := { e.state with logIds := e.state.logIds.extend (entries.map Entry.logId) }
      } : Engine NID N D) :=
    ⟨rfl, .of_eq rfl rfl rfl rfl rfl, rfl, rfl⟩
  refine (hset.trans (.ofState (.acceptLogIo _ ?_))).trans (.push rfl)
  show l.committedVote.toCommitted _ ≤ _
  rw [hl]
  exact le_rfl

theorem becomeLeader_advances (e : Engine NID N D) (now : Nat) :
    Advances e (e.becomeLeader now) := by
  by_cases hlead : e.leaderVote = some e.state.voteRef.leaderId
  · rw [becomeLeader_of_leading hlead]
    exact .refl _
  · have hopen := openStreams_advances e now
    obtain ⟨gen, targets, hc, hs, -, hvote, -⟩ := openStreams_spec e now
    rw [becomeLeader_eq hlead]
    split
    · obtain ⟨l', hl', hquiet⟩ := leaderAppendEntries_blank (e.openStreams now).1
        (e.openStreams now).2
      refine (hopen.trans (leaderExtendLog_advances ?_ _)).trans (.of_quiet hquiet)
      rw [hl', hs, acceptLogIo_voteRef]
      exact hvote
    · exact hopen.trans (.of_quiet (initiateReplication_quiet _ _))

theorem updateInternalServerState_advances (e : Engine NID N D) (now : Nat) :
    Advances e (e.updateInternalServerState now) := by
  unfold updateInternalServerState
  split
  · exact becomeLeader_advances e now
  · split
    · exact .refl _
    · exact becomeFollowing_advances e

theorem adoptVote_advances (e : Engine NID N D) (now : Nat) (vote : Vote NID) :
    Advances e (e.adoptVote now vote) := by
  unfold adoptVote
  dsimp only
  split
  · rename_i hgt
    exact .ofStatePush (.adopt e.state rfl hgt) rfl
  · exact .ofState (.of_eq rfl rfl rfl rfl rfl)

theorem updateVote_advances (e : Engine NID N D) (now : Nat) (vote : Vote NID) :
    Advances e (e.updateVote now vote).1 := by
  unfold updateVote
  split
  · exact (adoptVote_advances e now vote).trans (updateInternalServerState_advances _ now)
  · exact .refl _

theorem truncateLogs_advances (e : Engine NID N D) (since : Nat) :
    Advances e (e.truncateLogs since) := by
  unfold truncateLogs
  split
  · exact .refl _
  · exact .ofStatePush (by exact .of_eq rfl rfl rfl rfl rfl) (by rfl)

theorem doAppendEntries_advances (e : Engine NID N D) (entries : List (Entry NID N D)) :
    Advances e (e.doAppendEntries entries) :=
  .ofStatePush (by exact .of_eq rfl rfl rfl rfl rfl) (by rfl)

theorem followingAppendEntries_advances (e : Engine NID N D) (prev : Option (LogId NID))
    (entries : List (Entry NID N D)) : Advances e (e.followingAppendEntries prev entries) := by
  have haccept : Advances e (e.acceptLogIo (e.acceptedIo prev entries)) :=
    .ofState (.acceptLogIo _ le_rfl)
  cases h : e.toAppend entries with
  | cons first rest =>
    rw [followingAppendEntries_cons h]
    exact (haccept.trans (truncateLogs_advances _ _)).trans (doAppendEntries_advances _ _)
  | nil =>
    rw [followingAppendEntries_nil h]
    split
    · exact haccept
    · exact haccept.trans (.push rfl)

theorem ensureLogConsecutive_advances (e : Engine NID N D) (prev : Option (LogId NID)) :
    Advances e (e.ensureLogConsecutive prev).1 := by
  unfold ensureLogConsecutive
  repeat' split
  · exact .refl _
  · exact .refl _
  · exact truncateLogs_advances _ _

theorem purgeLog_advances (e : Engine NID N D) : Advances e e.purgeLog := by
  unfold purgeLog
  split
  · exact .refl _
  · split
    · exact .refl _
    · exact .ofStatePush (by exact .of_eq rfl rfl rfl rfl rfl) (by rfl)

theorem tryPurgeLog_advances (e : Engine NID N D) : Advances e e.tryPurgeLog := by
  unfold tryPurgeLog tryPurgeLogLeader
  repeat' split
  · exact .refl _
  · exact .refl _
  · exact .refl _
  · exact purgeLog_advances e
  · exact purgeLog_advances e

theorem updateSnapshot_advances (e : Engine NID N D) (m : SnapshotMeta NID N) :
    Advances e (e.updateSnapshot m).1 := by
  unfold updateSnapshot
  split
  · exact .refl _
  · rename_i hlt
    exact .ofState ⟨optGe_refl _ _, le_rfl, optGe_refl _ _, id, (not_le.1 hlt).le⟩

theorem truncateForSnapshot_advances (e : Engine NID N D) (last : LogId NID) :
    Advances e (e.truncateForSnapshot last) := by
  unfold truncateForSnapshot
  repeat' split
  · exact .refl _
  · exact truncateLogs_advances _ _
  · exact .refl _

theorem acceptSnapshot_advances {io : LogIOId NID}
    (hio : io.committedVote = e.state.voteRef.leaderId) (snapshot : Snapshot NID N D)
    (last : LogId NID) : Advances e (e.acceptSnapshot io snapshot last) := by
  have haccept : Advances e (e.acceptLogIo (.log io)) := by
    refine .ofState (.acceptLogIo _ ?_)
    show io.committedVote.toCommitted _ ≤ _
    rw [hio]
  exact haccept.trans (.ofStatePush (by exact .of_eq rfl rfl rfl rfl rfl) (by rfl))

theorem onBuildingSnapshotDone_advances (e : Engine NID N D) (m : SnapshotMeta NID N) :
    Advances e (e.onBuildingSnapshotDone m) := by
  obtain ⟨p, hp, heq⟩ := onBuildingSnapshotDone_eq e m
  have hbuilt : Advances e (e.snapshotBuilt p) := by
    refine .ofState ⟨optGe_refl _ _, ?_, optGe_refl _ _, id, le_rfl⟩
    rw [hp]
    exact le_max_left _ _
  have hup := hbuilt.trans (updateSnapshot_advances (e.snapshotBuilt p) m)
  have hschedule : Advances e
    ((e.snapshotBuilt p).updateSnapshot m).1.schedulePolicyBasedPurge := by
    refine hup.trans ?_
    unfold schedulePolicyBasedPurge
    split
    · exact .ofState (.of_eq rfl rfl rfl rfl rfl)
    · exact .refl _
  rw [heq]
  split
  · exact hup
  · exact hschedule.trans (tryPurgeLog_advances _)

theorem purgeLog_snapshotMeta (e : Engine NID N D) :
    e.purgeLog.state.snapshotMeta = e.state.snapshotMeta := by
  unfold purgeLog
  split
  · rfl
  · split
    · rfl
    · rfl

/-- The end of a snapshot that is taken over becomes the end of the current one. -/
theorem installFullSnapshot_advances {snapshot : Snapshot NID N D}
    {condition : Option (Condition NID)}
    (h : e.installFullSnapshot snapshot = some (e', condition)) :
    Advances e e' ∧ ∀ c ∈ condition, e'.InTurn c := by
  unfold installFullSnapshot at h
  dsimp only at h
  split at h
  · cases h
    exact ⟨.refl _, by simp⟩
  · rename_i last hlast
    repeat' split at h
    · cases h
      exact ⟨.refl _, by simp⟩
    · cases h
    · cases h
    · cases h
      exact ⟨updateSnapshot_advances _ _, by simp⟩
    · rename_i hupdated
      obtain ⟨rfl, rfl⟩ := Prod.mk.inj (Option.some.inj h)
      obtain ⟨e1, he1⟩ : ∃ e1, e1 = ((e.updateSnapshot snapshot.snapshotMeta).1).truncateForSnapshot
        last := ⟨_, rfl⟩
      have hmeta : e1.state.snapshotMeta = snapshot.snapshotMeta := by
        rw [he1, truncateForSnapshot_snapshotMeta]
        unfold updateSnapshot at hupdated ⊢
        split
        · rename_i hle
          rw [if_pos hle] at hupdated
          exact absurd rfl hupdated
        · rfl
      have hvote : e1.state.voteRef = e.state.voteRef := by
        rw [he1, (truncateForSnapshot_keepsVote _ _).vote, (updateSnapshot_keepsVote _ _).vote]
      have hadv : Advances e e1 := by
        rw [he1]
        exact (updateSnapshot_advances _ _).trans (truncateForSnapshot_advances _ _)
      rw [← he1]
      refine ⟨(hadv.trans (acceptSnapshot_advances ?_ _ _)).trans (purgeLog_advances _), ?_⟩
      · rw [hvote]
      · rintro c hc
        obtain rfl := Option.some.inj hc
        refine Or.inr ?_
        rw [purgeLog_snapshotMeta, (acceptSnapshot_cursors e1 _ _ _).2.1, hmeta, hlast]

theorem tryCommitQuorumAccepted_advances (e : Engine NID N D) (granted : Option (LogId NID)) :
    Advances e (e.tryCommitQuorumAccepted granted) := by
  have hcluster : e.state.Rises e.config.mode _ :=
    .tryUpdateClusterCommitted e.state ⟨e.state.voteRef.leaderId, granted⟩
  have hrise := hcluster.trans (.updateLocalCommitted _ granted)
  unfold tryCommitQuorumAccepted
  dsimp only
  repeat' split
  · exact .refl _
  · exact .ofStatePush hrise rfl
  · exact .ofState hrise

theorem updateLocalProgress_advances {l : Leader NID N} {upto : Option (LogId NID)}
    (h : e.updateLocalProgress l upto = some e') : Advances e e' := by
  unfold updateLocalProgress at h
  repeat' split at h
  · obtain rfl := Option.some.inj h
    exact .refl _
  · obtain rfl := Option.some.inj h
    exact .refl _
  · obtain rfl := Option.some.inj h
    exact .refl _
  · dsimp only at h
    unfold updateMatching at h
    split at h
    · cases h
    · obtain rfl := Option.some.inj h
      exact ⟨rfl, .refl _, rfl, rfl⟩
    · obtain rfl := Option.some.inj h
      refine .trans ?_ (tryCommitQuorumAccepted_advances _ _)
      exact ⟨rfl, .refl _, rfl, rfl⟩

/-! ## Requests -/

/-- A greater vote of a candidate is beyond everything accepted. -/
theorem nextAccepted_newVote {mode : LeaderIdMode} {s : RaftState NID N} {vote : Vote NID}
    (hs : s.AcceptedUnderVote mode) (hgt : vote.gt mode s.voteRef = true)
    (hnot : vote.committed = false) : s.nextAccepted mode (.new vote) = some (.new vote) := by
  have hlt : s.voteRef.leaderId.toCommitted mode < vote.leaderId.toCommitted mode := by
    rcases Vote.rank_lt_iff.1 (Vote.gt_iff.1 hgt) with h | h
    · exact h
    · rw [hnot] at h
      exact absurd h.2 (by simp)
  unfold RaftState.nextAccepted
  refine if_pos ?_
  cases ha : s.acceptedLogIo with
  | none => rfl
  | some io =>
    refine IOId.gt_iff.2 (Or.inl (Vote.rank_lt_iff.2 (Or.inl ?_)))
    rw [IOId.toVote_new]
    exact (hs io ha).trans_lt hlt

/-- Under a vote that is not committed nobody starts to lead. -/
theorem updateInternalServerState_state (now : Nat) (h : e.state.voteRef.committed = false) :
    (e.updateInternalServerState now).state = e.state := by
  have hnot : e.state.isLeader e.config.id = false := by
    unfold RaftState.isLeader
    rw [h, Bool.and_false]
  unfold updateInternalServerState
  rw [hnot, if_neg Bool.false_ne_true]
  split
  · rfl
  · exact (becomeFollowing_spec e).1

theorem VoteSettled.congr (h : e.VoteSettled) (hconfig : e'.config = e.config)
    (hvote : e'.state.voteRef = e.state.voteRef) (hio : e'.state.ioState = e.state.ioState) :
    e'.VoteSettled := by
  unfold VoteSettled InTurn meets RaftState.acceptedLogIo at h ⊢
  dsimp only at h ⊢
  rw [hconfig, hvote, hio]
  exact h

theorem adoptVote_voteSettled (h : e.state.AcceptedUnderVote e.config.mode) {vote : Vote NID}
    (hnot : vote.committed = false) (hge : vote.ge e.config.mode e.state.voteRef = true) (now : Nat)
    (hcase : vote.gt e.config.mode e.state.voteRef = true ∨ e.VoteSettled) :
    (e.adoptVote now vote).VoteSettled ∧ (e.adoptVote now vote).state.voteRef = vote := by
  unfold adoptVote
  dsimp only
  generalize (if vote.committed then e.config.leaderLease else 0) = lease
  by_cases hgt : vote.gt e.config.mode e.state.voteRef = true
  · rw [if_pos hgt]
    have hvote : (({ e.state with vote := e.state.vote.update now lease vote } :
        RaftState NID N).acceptLogIo e.config.mode (.new vote)).voteRef = vote :=
      acceptLogIo_voteRef _ _ _
    refine ⟨Or.inr ?_, hvote⟩
    refine Eq.trans ?_ (congrArg (fun v => some (IOId.new v)) hvote.symm)
    rw [← nextAccepted_newVote h hgt hnot]
    exact congrArg RaftState.acceptedLogIo (RaftState.acceptLogIo_eq _ _ _)
  · rw [if_neg hgt]
    refine ⟨(hcase.resolve_left hgt).congr rfl rfl rfl, ?_⟩
    rcases Vote.ge_iff.1 hge with heq | hlt
    · exact heq.symm
    · exact absurd (Vote.gt_iff.2 hlt) hgt

/-- What a candidate's request leaves of the vote. -/
theorem updateVote_voteSettled (h : e.state.AcceptedUnderVote e.config.mode) {vote : Vote NID}
    (hnot : vote.committed = false) (now : Nat)
    (hcase : vote.gt e.config.mode e.state.voteRef = true ∨ e.VoteSettled) :
    (e.updateVote now vote).1.VoteSettled := by
  unfold updateVote
  split
  · rename_i hge
    obtain ⟨hsettled, hvote⟩ := adoptVote_voteSettled h hnot hge now hcase
    have hstate := updateInternalServerState_state now
      (show (e.adoptVote now vote).state.voteRef.committed = false by rw [hvote, hnot])
    refine hsettled.congr (updateInternalServerState_spec _ now).2.1 ?_ ?_
    · rw [hstate]
    · rw [hstate]
  · rename_i hge
    refine hcase.resolve_left fun hgt => hge ?_
    exact Vote.ge_iff.2 (Or.inr (Vote.gt_iff.1 hgt))

/-- A vote request that raises the vote, or finds it settled. -/
theorem WaitsInOrder.handleVoteReq (h : e.WaitsInOrder) (now : Nat) {req : VoteRequest NID}
    (hnot : req.vote.committed = false) (hcase : e.RaisesVote now req ∨ e.VoteSettled) :
    (e.handleVoteReq now req).1.WaitsInOrder ∧ (e.handleVoteReq now req).1.VoteSettled := by
  unfold Engine.handleVoteReq
  split
  · rename_i hrefused
    refine ⟨h, hcase.resolve_left ?_⟩
    rintro ⟨hlease, hlast, -⟩
    rw [hlease, Bool.false_or] at hrefused
    exact hlast (of_decide_eq_true hrefused)
  · exact ⟨h.advance (updateVote_advances e now req.vote),
      updateVote_voteSettled h.underVote hnot now (hcase.imp (fun hr => hr.2.2) id)⟩

/-- An append request waits for what is accepted last. -/
theorem WaitsInOrder.handleAppendEntries (h : e.WaitsInOrder) (now : Nat) (ctx : StreamCtx NID)
    (vote : Vote NID) (prev : Option (LogId NID)) (entries : List (Entry NID N D)) :
    (e.handleAppendEntries now ctx vote prev entries).WaitsInOrder := by
  have hadv : Advances e (e.appendEntries now vote prev entries).1 := by
    have hvote := updateVote_advances e now vote
    unfold Engine.appendEntries
    split
    · rename_i e1 he1
      rw [he1] at hvote
      exact hvote
    · rename_i e1 he1
      rw [he1] at hvote
      have hcons := ensureLogConsecutive_advances e1 prev
      split
      · rename_i e2 err he2
        rw [he2] at hcons
        exact hvote.trans hcons
      · rename_i e2 he2
        rw [he2] at hcons
        exact (hvote.trans hcons).trans (followingAppendEntries_advances e2 prev entries)
  have hin := h.advance hadv
  unfold Engine.handleAppendEntries
  dsimp only
  cases (e.appendEntries now vote prev entries).2 with
  | error err => exact hin.advance (.push rfl)
  | ok last =>
    cases ha : (e.appendEntries now vote prev entries).1.state.acceptedLogIo with
    | none => exact hin.advance (.push rfl)
    | some io => exact hin.pushRespond (c := .ioFlushed io) (Or.inr ha) _

/-- A snapshot is waited for as the current one; a refused one waits for the vote. -/
theorem WaitsInOrder.handleInstallFullSnapshot (h : e.WaitsInOrder) {now : Nat}
    {ctx : StreamCtx NID} {vote : Vote NID} {snapshot : Snapshot NID N D}
    (hcase : vote.ge e.config.mode e.state.voteRef = true ∨ e.VoteSettled)
    (he : e.handleInstallFullSnapshot now ctx vote snapshot = some e') : e'.WaitsInOrder := by
  unfold Engine.handleInstallFullSnapshot at he
  dsimp only at he
  split at he
  · rename_i e1 he1
    obtain rfl := Option.some.inj he
    unfold updateVote at he1
    split at he1
    · cases he1
    · rename_i hge
      cases he1
      exact h.pushRespond (hcase.resolve_left hge) _
  · rename_i e1 he1
    have hvote := updateVote_advances e now vote
    rw [he1] at hvote
    obtain ⟨⟨e2, condition⟩, hinstall, rfl⟩ := Option.map_eq_some_iff.1 he
    obtain ⟨hadv, hturn⟩ := installFullSnapshot_advances hinstall
    have hin := (h.advance hvote).advance hadv
    cases condition with
    | none => exact hin.advance (.push rfl)
    | some c => exact hin.pushRespond (hturn c rfl) _

/-! ## The queue of commands -/

/-- The first respond of the queue is sent. -/
theorem WaitsInOrder.through (h : e.WaitsInOrder) {c : Condition NID} {resp : Respond NID}
    {cs : List (Command NID N D)} (hcs : e.output.commands = .respond (some c) resp :: cs) :
    ({ e with output := { e.output with commands := cs } } : Engine NID N D).WaitsInOrder := by
  have hawaited : e.awaited = c :: cs.filterMap Command.awaits := by
    unfold Engine.awaited
    rw [hcs]
    rfl
  have hlogIo := h.logIo
  have hsnapshot := h.snapshot
  unfold logIoWaits at hlogIo
  unfold snapshotWaits at hsnapshot
  rw [hawaited] at hlogIo hsnapshot
  cases c with
  | ioFlushed io => exact ⟨h.underVote, hlogIo.through, hsnapshot⟩
  | snapshot x => exact ⟨h.underVote, hlogIo, hsnapshot.through⟩

/-- The first respond of the queue has to wait for a log IO. -/
theorem WaitsInOrder.postponeLogIo (h : e.WaitsInOrder) {io : IOId NID} {resp : Respond NID}
    {cs : List (Command NID N D)}
    (hcs : e.output.commands = .respond (some (.ioFlushed io)) resp :: cs)
    (hnot : e.meets (.ioFlushed io) = false) :
    ({ e with output := ⟨cs, { e.output.pendingResponds with
      onLogIo := e.output.pendingResponds.onLogIo ++ [(io, resp)] }⟩ } :
        Engine NID N D).WaitsInOrder := by
  obtain ⟨hunder, hlogIo, hsnapshot⟩ := h
  unfold logIoWaits Engine.awaited at hlogIo
  unfold snapshotWaits Engine.awaited at hsnapshot
  rw [hcs] at hlogIo hsnapshot
  refine ⟨hunder, ?_, hsnapshot⟩
  unfold logIoWaits
  rw [List.map_append]
  exact hlogIo.postpone (ne_true_of_eq_false hnot)

/-- The first respond of the queue has to wait for a snapshot. -/
theorem WaitsInOrder.postponeSnapshot (h : e.WaitsInOrder) {x : LogId NID} {resp : Respond NID}
    {cs : List (Command NID N D)}
    (hcs : e.output.commands = .respond (some (.snapshot x)) resp :: cs)
    (hnot : e.meets (.snapshot x) = false) :
    ({ e with output := ⟨cs, { e.output.pendingResponds with
      onSnapshot := e.output.pendingResponds.onSnapshot ++ [(x, resp)] }⟩ } :
        Engine NID N D).WaitsInOrder := by
  obtain ⟨hunder, hlogIo, hsnapshot⟩ := h
  unfold logIoWaits Engine.awaited at hlogIo
  unfold snapshotWaits Engine.awaited at hsnapshot
  rw [hcs] at hlogIo hsnapshot
  refine ⟨hunder, hlogIo, ?_⟩
  unfold snapshotWaits
  rw [List.map_append]
  exact hsnapshot.postpone (ne_true_of_eq_false hnot)

end Engine

namespace Node

variable {n n' : Node NID N D}

theorem submitLog_advances (n : Node NID N D) (io : IOId NID) :
    n.engine.Advances (n.submitLog io).engine :=
  .ofState (.of_eq rfl rfl rfl rfl rfl)

theorem execCommand_advances {c : Command NID N D} (he : n.execCommand c = some n') :
    n.engine.Advances n'.engine := by
  cases c with
  | updateIOProgress _ io =>
    cases he
    exact submitLog_advances n io
  | appendEntries V entries =>
    cases he
    exact submitLog_advances n _
  | saveVote vote =>
    unfold execCommand at he
    dsimp only at he
    split at he
    · cases he
      unfold runSaveVote
      dsimp only
      split
      · exact submitLog_advances n _
      · exact submitLog_advances n _
    · cases he
  | saveCommittedAndApply already upto =>
    cases he
    unfold runSaveCommittedAndApply
    dsimp only
    split
    · exact .ofState (.of_eq rfl rfl rfl rfl rfl)
    · exact .ofState (.of_eq rfl rfl rfl rfl rfl)
  | purgeLog upto =>
    unfold execCommand at he
    dsimp only at he
    split at he
    · cases he
      exact .ofState (.of_eq rfl rfl rfl rfl rfl)
    · cases he
  | truncateLog after =>
    unfold execCommand at he
    dsimp only at he
    split at he
    · cases he
      exact .refl _
    · cases he
  | stateMachine command =>
    cases he
    unfold runStateMachine
    cases command with
    | buildSnapshot => exact .refl _
    | apply first last => exact .refl _
    | installFullSnapshot io snapshot =>
      dsimp only
      split
      · exact .ofState (.of_eq rfl rfl rfl rfl rfl)
      · exact submitLog_advances n _
  | replicateCommitted committed => cases he; exact .refl _
  | replicate _ _ => cases he; exact .refl _
  | replicateSnapshot _ _ _ => cases he; exact .refl _
  | broadcastTransferLeader _ _ _ => cases he; exact .refl _
  | closeReplicationStreams => cases he; exact .refl _
  | failPendingReads => cases he; exact .refl _
  | rebuildReplicationStreams _ _ _ => cases he; exact .refl _
  | sendVote _ _ => cases he; exact .refl _
  | respond _ _ => cases he; exact .refl _

/-- Taking a command off the queue that is no respond with a condition. -/
theorem withCommands_advances {c : Command NID N D} {cs : List (Command NID N D)}
    (hcs : n.engine.output.commands = c :: cs) (hc : c.awaits = none) :
    n.engine.Advances (n.withCommands cs).engine := by
  refine ⟨rfl, .refl _, rfl, ?_⟩
  unfold Engine.awaited
  rw [hcs, List.filterMap_cons_none hc]
  rfl

theorem runCommand_waitsInOrder (h : n.engine.WaitsInOrder) (he : n.runCommand = some n') :
    n'.engine.WaitsInOrder := by
  unfold runCommand at he
  split at he
  · cases he
  · rename_i c cs hcs
    have htaken : (n.withCommands cs).engine.WaitsInOrder := by
      cases hc : c.awaits with
      | none => exact h.advance (withCommands_advances hcs hc)
      | some cond =>
        cases c with
        | respond when resp =>
          obtain rfl : when = some cond := hc
          exact h.through hcs
        | _ => cases hc
    split at he
    · exact htaken.advance (execCommand_advances he)
    · rename_i hnot
      split at he
      · rename_i cond resp
        obtain rfl := Option.some.inj he
        have hunmet : n.engine.meets cond = false := Bool.eq_false_of_not_eq_true hnot
        cases cond with
        | ioFlushed io => exact h.postponeLogIo hcs hunmet
        | snapshot x => exact h.postponeSnapshot hcs hunmet
      · cases he

theorem sendSatisfiedOnLogIo_waitsInOrder (h : n.engine.WaitsInOrder)
    (he : n.sendSatisfiedOnLogIo = some n') : n'.engine.WaitsInOrder := by
  unfold sendSatisfiedOnLogIo at he
  dsimp only at he
  split at he
  · cases he
  · rename_i io resp rest hpending
    split at he
    · cases he
      have hlogIo := h.logIo
      unfold Engine.logIoWaits at hlogIo
      rw [hpending] at hlogIo
      exact ⟨h.underVote, hlogIo.pop, h.snapshot⟩
    · cases he

theorem sendSatisfiedOnSnapshot_waitsInOrder (h : n.engine.WaitsInOrder)
    (he : n.sendSatisfiedOnSnapshot = some n') : n'.engine.WaitsInOrder := by
  unfold sendSatisfiedOnSnapshot at he
  dsimp only at he
  split at he
  · cases he
  · rename_i x resp rest hpending
    split at he
    · cases he
      have hsnapshot := h.snapshot
      unfold Engine.snapshotWaits at hsnapshot
      rw [hpending] at hsnapshot
      exact ⟨h.underVote, h.logIo, hsnapshot.pop⟩
    · cases he

/-! ### Reports of the storage -/

theorem tryFlush_logIo (mode : LeaderIdMode) (p : IOProgress (IOId NID)) (io : IOId NID) :
    IOProgress.optGe (IOId.ge mode) (p.tryFlush (IOId.gt mode) io).flushed p.flushed = true ∧
      (p.tryFlush (IOId.gt mode) io).accepted = p.accepted := by
  unfold IOProgress.tryFlush
  split
  · rename_i hex
    refine ⟨?_, rfl⟩
    cases hf : p.flushed with
    | none => rfl
    | some f =>
      rw [hf] at hex
      exact IOId.ge_of_gt hex
  · exact ⟨optGe_refl mode _, rfl⟩

theorem tryFlush_snapshot (p : IOProgress (LogId NID)) (x : LogId NID) :
    p.flushed ≤ (p.tryFlush LogId.gt x).flushed := by
  unfold IOProgress.tryFlush
  split
  · rename_i hex
    cases hf : p.flushed with
    | none => exact Option.none_le
    | some f =>
      rw [hf] at hex
      exact Option.some_le_some.2 (of_decide_eq_true hex).le
  · exact le_rfl

/-- The log progress is flushed up to `io`. -/
theorem tryFlush_advances (n : Node NID N D) (io : IOId NID) :
    n.engine.Advances (n.mapIo fun s => { s with
      logProgress := s.logProgress.tryFlush (IOId.gt n.engine.config.mode) io }).engine := by
  obtain ⟨hflushed, haccepted⟩ := tryFlush_logIo n.engine.config.mode
    n.engine.state.ioState.logProgress io
  refine .ofState ⟨hflushed, le_rfl, ?_, ?_, le_rfl⟩
  · unfold RaftState.acceptedLogIo
    dsimp only
    rw [haccepted]
    exact optGe_refl _ _
  · unfold RaftState.AcceptedUnderVote RaftState.acceptedLogIo
    dsimp only
    rw [haccepted]
    exact fun hs => hs

theorem afterEngine_waitsInOrder (h : n.engine.WaitsInOrder) {r : Option (Engine NID N D)}
    (hr : ∀ e', r = some e' → e'.WaitsInOrder) : (n.afterEngine r).engine.WaitsInOrder := by
  cases r with
  | none => exact h
  | some e' => exact hr e' rfl

theorem handleLocalIo_waitsInOrder (h : n.engine.WaitsInOrder) (io : IOId NID) :
    (n.handleLocalIo io).engine.WaitsInOrder := by
  have hflush := h.advance (tryFlush_advances n io)
  unfold handleLocalIo
  dsimp only
  split
  · rename_i logIo l hl
    split
    · exact afterEngine_waitsInOrder hflush fun e' hup =>
        hflush.advance (Engine.updateLocalProgress_advances hup)
    · exact hflush
  · exact hflush

theorem handleStateMachineResult_waitsInOrder (h : n.engine.WaitsInOrder) (r : SmResponse NID N) :
    (n.handleStateMachineResult r).engine.WaitsInOrder := by
  cases r with
  | buildSnapshotDone m => exact h.advance (Engine.onBuildingSnapshotDone_advances _ m)
  | installSnapshot io m =>
    have hflush := h.advance (tryFlush_advances n (.log io))
    unfold handleStateMachineResult
    dsimp only
    split
    · refine hflush.advance (.ofState ?_)
      exact ⟨optGe_refl _ _, tryFlush_snapshot _ _, optGe_refl _ _, fun hs => hs, le_rfl⟩
    · exact hflush
  | apply lastApplied => exact h.advance (.ofState (.of_eq rfl rfl rfl rfl rfl))

end Node

/-! ## Runs -/

/-- AppendEntries, vote and snapshot requests. -/
def Message.isRequest : Message NID N D → Bool
  | .vote _ _ _ _ => true
  | .appendEntries _ _ => true
  | .installFullSnapshot _ _ _ => true
  | _ => false

/-- Requests, the commands and responds that they leave, and what the storage does and reports. -/
def Event.serves : Event NID N D → Bool
  | .receive m => m.isRequest
  | .runCommand => true
  | .runProgressDrivenCommand => true
  | .sendSatisfiedOnLogIo => true
  | .sendSatisfiedOnSnapshot => true
  | .flush => true
  | .workerLoop => true
  | .localIo _ => true
  | .stateMachineResult => true
  | _ => false

/-- The message that arrives in an event. -/
def Event.message : Event NID N D → Option (Message NID N D)
  | .receive m => some m
  | _ => none

/-- A vote request comes from a candidate and raises the vote, or the vote is settled; a snapshot
    request comes under a vote that is not refused, or the vote is settled. -/
def Engine.AdmitsRequest (e : Engine NID N D) (now : Nat) : Message NID N D → Prop
  | .vote isPreVote _ _ req => isPreVote = true ∨
      req.vote.committed = false ∧ (e.RaisesVote now req ∨ e.VoteSettled)
  | .installFullSnapshot _ vote _ =>
    vote.ge e.config.mode e.state.voteRef = true ∨ e.VoteSettled
  | _ => True

instance decidableInTurn (e : Engine NID N D) (c : Condition NID) : Decidable (e.InTurn c) :=
  match c with
  | .ioFlushed _ => inferInstanceAs (Decidable (_ = true ∨ _ = some _))
  | .snapshot _ => inferInstanceAs (Decidable (_ = true ∨ _ = some _))

instance decidableVoteSettled (e : Engine NID N D) : Decidable e.VoteSettled :=
  inferInstanceAs (Decidable (e.InTurn (.ioFlushed (.new e.state.voteRef))))

instance decidableRaisesVote (e : Engine NID N D) (now : Nat) (req : VoteRequest NID) :
    Decidable (e.RaisesVote now req) :=
  inferInstanceAs (Decidable (_ = false ∧ ¬ _ < _ ∧ _ = true))

instance decidableAdmitsRequest (e : Engine NID N D) (now : Nat) : (m : Message NID N D) →
    Decidable (e.AdmitsRequest now m)
  | .vote isPreVote _ _ req => inferInstanceAs (Decidable (isPreVote = true ∨
      req.vote.committed = false ∧ (e.RaisesVote now req ∨ e.VoteSettled)))
  | .installFullSnapshot _ vote _ =>
    inferInstanceAs (Decidable (vote.ge e.config.mode e.state.voteRef = true ∨ e.VoteSettled))
  | .voteResp _ _ _ _ _ => .isTrue trivial
  | .appendEntries _ _ => .isTrue trivial
  | .appendEntriesResp _ _ => .isTrue trivial
  | .installFullSnapshotResp _ _ _ => .isTrue trivial
  | .transferLeader _ _ _ _ => .isTrue trivial
  | .initializeResp _ _ => .isTrue trivial

namespace Node

variable {n n' : Node NID N D}

/-- The condition on an event at a time. -/
def Admits (n : Node NID N D) (o : Nat × Event NID N D) : Prop :=
  o.2.serves = true ∧ ∀ m ∈ o.2.message, n.engine.AdmitsRequest o.1 m

instance decidableAdmits (n : Node NID N D) (o : Nat × Event NID N D) : Decidable (n.Admits o) :=
  inferInstanceAs (Decidable (_ = true ∧ ∀ m ∈ o.2.message, n.engine.AdmitsRequest o.1 m))

/-- An event at a time. -/
def stepAt [DecidableEq N] (n : Node NID N D) (o : Nat × Event NID N D) : Option (Node NID N D) :=
  n.step o.1 o.2

/-- No respond waits, and what was accepted was accepted under the vote. -/
structure Fresh (n : Node NID N D) : Prop where
  pending : n.engine.output.pendingResponds = ⟨[], []⟩
  awaited : n.engine.awaited = []
  underVote : n.engine.state.AcceptedUnderVote n.engine.config.mode

/-- What is left when `drain_satisfied` has run is not met. -/
def DrainsAllMet (n : Node NID N D) : Prop :=
  let left := (n.engine.output.pendingResponds.drainSatisfied n.engine.config.mode
    n.engine.state.ioState).2
  (∀ x ∈ left.onLogIo, n.engine.meets (.ioFlushed x.1) = false) ∧
    ∀ x ∈ left.onSnapshot, n.engine.meets (.snapshot x.1) = false

instance decidableDrainsAllMet (n : Node NID N D) : Decidable n.DrainsAllMet :=
  inferInstanceAs (Decidable ((∀ x ∈ _, _ = false) ∧ ∀ x ∈ _, _ = false))

theorem Fresh.waitsInOrder (h : n.Fresh) : n.engine.WaitsInOrder := by
  refine ⟨h.underVote, ?_, ?_⟩
  · unfold Engine.logIoWaits
    rw [h.pending, h.awaited]
    exact Thresholds.inOrder_nil
  · unfold Engine.snapshotWaits
    rw [h.pending, h.awaited]
    exact Thresholds.inOrder_nil

/-- A node that has just started. -/
theorem start_fresh {config : EngineConfig NID} {incarnation now : Nat}
    {sent : List (Message NID N D)} {store : LogStore NID N D} {sm : StateMachine NID N D}
    (h : start config incarnation sent now store sm = some n) : n.Fresh := by
  obtain ⟨⟨state, store', sm'⟩, hinit, rfl⟩ := Option.map_eq_some_iff.1 h
  have hunder : state.AcceptedUnderVote config.mode := by
    unfold getInitialState at hinit
    dsimp only at hinit
    split at hinit
    · cases hinit
    · obtain ⟨⟨sm1, applied⟩, -, hinit⟩ := Option.bind_eq_some_iff.1 hinit
      obtain ⟨cleaned, -, heq⟩ := Option.map_eq_some_iff.1 hinit
      obtain ⟨rfl, -⟩ := Prod.mk.inj heq
      intro io hio
      obtain rfl := Option.some.inj hio
      rw [IOId.toVote_new]
      exact le_rfl
  have hstart : Engine.Advances (Engine.new (D := D) state config)
      ((Engine.new state config).startup now) := by
    unfold Engine.startup
    split
    · split
      · exact Engine.updateInternalServerState_advances _ now
      · refine .ofState ⟨optGe_refl _ _, le_rfl, optGe_refl _ _, fun hs => hs, le_rfl⟩
    · exact .refl _
  refine ⟨hstart.pending, hstart.awaited, ?_⟩
  show RaftState.AcceptedUnderVote ((Engine.new (D := D) state config).startup now).config.mode _
  rw [hstart.config]
  exact hstart.state.underVote hunder

theorem receive_waitsInOrder (h : n.engine.WaitsInOrder) {now : Nat} {m : Message NID N D}
    (hm : m.isRequest = true) (hadm : n.engine.AdmitsRequest now m)
    (he : n.receive now m = some n') : n'.engine.WaitsInOrder := by
  cases m with
  | vote isPreVote src dst req =>
    cases isPreVote with
    | true =>
      cases he
      exact h.advance (.push rfl)
    | false =>
      cases he
      obtain ⟨hnot, hcase⟩ := hadm.resolve_left Bool.false_ne_true
      obtain ⟨hin, hsettled⟩ := h.handleVoteReq now hnot hcase
      exact hin.pushRespond hsettled _
  | appendEntries ctx req =>
    cases he
    exact (h.handleAppendEntries now ctx req.vote req.prevLogId req.entries).advance
      (.ofState (.updateCommitted _ _))
  | installFullSnapshot ctx vote snapshot =>
    cases he
    exact afterEngine_waitsInOrder h fun e' he => h.handleInstallFullSnapshot hadm he
  | _ => cases hm

theorem step_waitsInOrder [DecidableEq N] (h : n.engine.WaitsInOrder) {o : Nat × Event NID N D}
    (hadm : n.Admits o) (he : n.stepAt o = some n') : n'.engine.WaitsInOrder := by
  obtain ⟨now, ev⟩ := o
  obtain ⟨ho, hadm⟩ := hadm
  unfold stepAt step at he
  split at he
  · cases he
  · unfold perform at he
    dsimp only at he
    cases ev with
    | receive m => exact receive_waitsInOrder h ho (hadm m rfl) he
    | runCommand => exact runCommand_waitsInOrder h he
    | runProgressDrivenCommand =>
      dsimp only at he
      unfold runProgressDrivenCommand at he
      split at he
      · obtain ⟨c, -, hexec⟩ := Option.bind_eq_some_iff.1 he
        exact h.advance (execCommand_advances hexec)
      · cases he
    | sendSatisfiedOnLogIo => exact sendSatisfiedOnLogIo_waitsInOrder h he
    | sendSatisfiedOnSnapshot => exact sendSatisfiedOnSnapshot_waitsInOrder h he
    | flush =>
      dsimp only at he
      unfold flush at he
      split at he
      · cases he
      · cases he
        exact h
    | workerLoop =>
      dsimp only at he
      unfold workerLoop at he
      repeat' split at he
      · cases he
      · cases he
        exact h
      · cases he
        exact h
      · cases he
        exact h
      · cases he
        exact h
    | localIo io =>
      dsimp only at he
      split at he
      · cases he
        exact handleLocalIo_waitsInOrder h io
      · cases he
    | stateMachineResult =>
      dsimp only at he
      split at he
      · cases he
      · rename_i r rest _
        cases he
        exact handleStateMachineResult_waitsInOrder (n := { n with smDone := rest }) h r
    | _ => cases ho

theorem drainsAllMet_of_waitsInOrder (h : n.engine.WaitsInOrder) : n.DrainsAllMet := by
  refine ⟨?_, ?_⟩
  · refine popSatisfied_unmet h.logIo fun hab hb => ?_
    obtain ⟨f, hf, hge⟩ := Condition.isMet_ioFlushed.1 hb
    exact Condition.isMet_ioFlushed.2 ⟨f, hf, IOId.ge_trans hge hab⟩
  · refine popSatisfied_unmet h.snapshot fun hab hb => ?_
    obtain ⟨f, hf, hle⟩ := Condition.isMet_snapshot.1 hb
    exact Condition.isMet_snapshot.2 ⟨f, hf, hab.trans hle⟩

/-- Whatever is met is drained, in every state that such requests and the storage lead to. -/
theorem drains_all_met [DecidableEq N] {n0 : Node NID N D} {ops : List (Nat × Event NID N D)}
    (hfresh : n0.Fresh) (hadm : FitAll stepAt Admits n0 ops)
    (hrun : runPartial stepAt n0 ops = some n) : n.DrainsAllMet := by
  have hin : n.engine.WaitsInOrder :=
    hadm.invariant hfresh.waitsInOrder (fun _ _ _ ho h he => step_waitsInOrder h ho he) hrun
  exact drainsAllMet_of_waitsInOrder hin

end Node

/-! ## A follower of three -/

namespace LateVote

open Three

/-- Node 2 grants node 1 its vote, gets the first entry under that vote in the same batch, and hears
    that the vote is stored. -/
def granted : List (Nat × Event (Fin 3) Unit Nat) :=
  [(0, .receive (.vote false 1 2 ⟨⟨⟨1, 1⟩, false⟩, some firstEntry.logId, false⟩)),
    (0, .receive (.appendEntries ⟨1, 0, ⟨1, 1⟩, 2, 1, false, none, 0⟩
      ⟨⟨⟨1, 1⟩, true⟩, some firstEntry.logId, [⟨⟨⟨1, none⟩, 1⟩, .blank⟩], none⟩)),
    (0, .runCommand), (0, .runCommand), (0, .runCommand), (0, .runCommand), (0, .runCommand),
    (0, .runCommand), (0, .runCommand), (0, .localIo (.new ⟨⟨1, 1⟩, false⟩))]

/-- The answer to the vote request is drained, the one to the append request has to wait. -/
theorem drains_all_met_granted : (cluster true 2).Fresh ∧
    FitAll Node.stepAt Node.Admits (cluster true 2) granted ∧
    ∃ n, runPartial Node.stepAt (cluster true 2) granted = some n ∧ n.DrainsAllMet ∧
      n.engine.output.pendingResponds.onLogIo.map Prod.fst =
        [.vote ⟨1, 1⟩, .log ⟨⟨1, 1⟩, some ⟨⟨1, none⟩, 1⟩⟩] ∧
      n.engine.state.ioState.logProgress.flushed = some (.vote ⟨1, 1⟩) := by
  have hfresh : (cluster true 2).Fresh := by
    obtain ⟨config, now, -, -, hstart⟩ := cluster_initial true 2
    exact Node.start_fresh hstart
  have hadm : FitAll Node.stepAt Node.Admits (cluster true 2) granted := by decide +kernel
  have hend : (runPartial Node.stepAt (cluster true 2) granted).any (fun n =>
      decide (n.engine.output.pendingResponds.onLogIo.map Prod.fst =
          [.vote ⟨1, 1⟩, .log ⟨⟨1, 1⟩, some ⟨⟨1, none⟩, 1⟩⟩] ∧
        n.engine.state.ioState.logProgress.flushed = some (.vote ⟨1, 1⟩))) = true := by
    decide +kernel
  obtain ⟨n, hrun, hn⟩ := (Option.any_eq_true _ _).1 hend
  exact ⟨hfresh, hadm, n, hrun, Node.drains_all_met hfresh hadm hrun, of_decide_eq_true hn⟩

/-- Node 0 is elected with the votes of 0 and 1, and sends node 2 an entry; node 1 asks node 2 for
    its vote. Node 2, which has heard of neither before, takes both requests in one batch. It
    accepts the entry and refuses the vote, and stores the vote of node 0 before the entry. -/
def run : List (Label (Fin 3) Unit Nat) :=
  election ++ [event 0 .runCommand, event 0 .runCommand, event 0 .runCommand,
    event 0 (.sendAppendEntries 2 (some firstEntry.logId) 1 none),
    event 1 .elect, event 1 .runCommand, event 1 .runCommand,
    deliver 2 0 3, deliver 2 1 4,
    event 2 .runCommand, event 2 .runCommand, event 2 .runCommand, event 2 .runCommand,
    event 2 .runCommand, event 2 (.localIo (.new ⟨⟨1, 0⟩, true⟩))]

/-- The answer to the vote request waits for the stored vote only, and stays behind the answer to
    the append request, which waits for the entry. -/
theorem met_left_behind : ∃ c, (cluster true).run run = some c ∧
    (cluster true).EveryStep (fun c l => l.node = 2 →
      ∀ ev ∈ c.eventOf 2 l.action, ev.serves = true) run ∧ ¬ (c 2).DrainsAllMet := by
  have hserves : (cluster true).EveryStep (fun c l => l.node = 2 →
      ∀ ev ∈ c.eventOf 2 l.action, ev.serves = true) run := by decide +kernel
  have hend : ((cluster true).run run).any (fun c => decide (¬ (c 2).DrainsAllMet)) = true := by
    decide +kernel
  obtain ⟨c, hc, hleft⟩ := (Option.any_eq_true _ _).1 hend
  exact ⟨c, hc, hserves, of_decide_eq_true hleft⟩

end LateVote

end ZenohRaft
