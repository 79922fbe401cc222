/-
  What the handlers of the engine leave alone, as far as logs are concerned.

  * `Engine.Emits e e' cs`: the commands `cs` were pushed. Only `FailPendingReads` is put in front
    of the queue.
  * `Engine.Quiet e e'`: nothing of the log has changed, and the commands that were pushed touch
    neither the storage nor the replication streams.
  * `becomeLeader_eq`, `leaderAppendEntries_blank`: the long handlers as a few named steps followed
    by a quiet one.
-/
import ZenohRaft.Frame

namespace ZenohRaft

open Lib

variable {NID N D : Type} [LinearOrder NID]

/-- Two states with the same vote, log, cursors, memberships and snapshot. -/
structure RaftState.SameLog (s s' : RaftState NID N) : Prop where
  vote : s'.voteRef = s.voteRef
  logIds : s'.logIds = s.logIds
  membershipState : s'.membershipState = s.membershipState
  snapshotMeta : s'.snapshotMeta = s.snapshotMeta
  ioState : s'.ioState = s.ioState
  purgeUpto : s'.purgeUpto = s.purgeUpto

namespace RaftState.SameLog

variable {s s' s'' : RaftState NID N}

omit [LinearOrder NID] in
theorem refl (s : RaftState NID N) : SameLog s s := ⟨rfl, rfl, rfl, rfl, rfl, rfl⟩

omit [LinearOrder NID] in
theorem trans (h : SameLog s s') (h' : SameLog s' s'') : SameLog s s'' :=
  ⟨h'.vote.trans h.vote, h'.logIds.trans h.logIds, h'.membershipState.trans h.membershipState,
    h'.snapshotMeta.trans h.snapshotMeta, h'.ioState.trans h.ioState,
    h'.purgeUpto.trans h.purgeUpto⟩

end RaftState.SameLog

/-- Commands that touch neither the storage nor the replication streams and answer nobody. -/
def Command.isIdle : Command NID N D → Bool
  | .replicate _ _ => true
  | .replicateSnapshot _ _ _ => true
  | .failPendingReads => true
  | _ => false

namespace Engine

variable {e e' e'' : Engine NID N D} {l : Leader NID N} {cs cs' : List (Command NID N D)}

/-- The commands `cs` were pushed. -/
def Emits (e e' : Engine NID N D) (cs : List (Command NID N D)) : Prop :=
  ∃ pre, (∀ c ∈ pre, c = .failPendingReads) ∧
    e'.output.commands = pre ++ (e.output.commands ++ cs)

section

omit [LinearOrder NID]

theorem Emits.refl (e : Engine NID N D) : Emits e e [] := ⟨[], by simp, by simp⟩

theorem Emits.of_eq (h : e'.output.commands = e.output.commands ++ cs) : Emits e e' cs :=
  ⟨[], by simp, h⟩

theorem Emits.trans (h : Emits e e' cs) (h' : Emits e' e'' cs') : Emits e e'' (cs ++ cs') := by
  obtain ⟨pre, hpre, hcs⟩ := h
  obtain ⟨pre', hpre', hcs'⟩ := h'
  refine ⟨pre' ++ pre, ?_, ?_⟩
  · intro c hc
    rcases List.mem_append.1 hc with hc | hc
    · exact hpre' c hc
    · exact hpre c hc
  · rw [hcs', hcs]
    simp only [List.append_assoc]

end

/-- A handler that has nothing to do with the log. -/
structure Quiet (e e' : Engine NID N D) : Prop where
  config : e'.config = e.config
  state : e.state.SameLog e'.state
  pending : e'.output.pendingResponds = e.output.pendingResponds
  commands : ∃ cs, Emits e e' cs ∧ ∀ c ∈ cs, c.isIdle = true

namespace Quiet

omit [LinearOrder NID] in
theorem refl (e : Engine NID N D) : Quiet e e :=
  ⟨rfl, .refl _, rfl, [], .refl e, by simp⟩

omit [LinearOrder NID] in
/-- A change of the role, and of the state outside of the log. -/
theorem of_eq (hc : e'.config = e.config) (hs : e.state.SameLog e'.state)
    (ho : e'.output = e.output) : Quiet e e' :=
  ⟨hc, hs, by rw [ho], [], .of_eq (by rw [ho]; simp), by simp⟩

end Quiet

/-! ## Replication -/

omit [LinearOrder NID] in
theorem sendToTarget_isIdle (V : LeaderId NID) (target : NID) (inflight : Option (Inflight NID)) :
    ∀ c ∈ (inflight.map (sendToTarget (N := N) (D := D) V target)).getD [], c.isIdle = true := by
  intro c hc
  rcases inflight with _ | _ | _ | _ | _ <;> simp [sendToTarget] at hc <;> subst hc <;> rfl

theorem nextSend_sameLog (x : ProgressEntry NID) (st : RaftState NID N) (maxEntries : Nat) :
    st.SameLog (ProgressEntry.nextSend x st maxEntries).2.1 := by
  unfold ProgressEntry.nextSend
  split
  · exact .refl _
  · exact ⟨rfl, rfl, rfl, rfl, rfl, rfl⟩

theorem initiateReplicationLoop_sameLog (config : EngineConfig NID) (V : LeaderId NID)
    (items : List (ProgressEntry NID)) (st : RaftState NID N) :
    let r := initiateReplicationLoop (D := D) config V items st
    st.SameLog r.2.1 ∧ ∀ c ∈ r.2.2, c.isIdle = true := by
  induction items generalizing st with
  | nil => exact ⟨.refl _, by simp [initiateReplicationLoop]⟩
  | cons item items ih =>
    unfold initiateReplicationLoop
    split
    · exact ih st
    · obtain ⟨hsame, hidle⟩ := ih (ProgressEntry.nextSend item st config.maxPayloadEntries).2.1
      refine ⟨(nextSend_sameLog _ _ _).trans hsame, ?_⟩
      intro c hc
      rcases List.mem_append.1 hc with hc | hc
      · exact sendToTarget_isIdle _ _ _ _ hc
      · exact hidle c hc

theorem initiateReplication_quiet (e : Engine NID N D) (l : Leader NID N) :
    Quiet e (e.initiateReplication l) := by
  obtain ⟨hsame, hidle⟩ := initiateReplicationLoop_sameLog (D := D) e.config l.committedVote
    l.progress.entries e.state
  exact ⟨rfl, hsame, rfl, _, .of_eq rfl, hidle⟩

theorem withLeader_initiateReplication_quiet (e : Engine NID N D) :
    Quiet e (e.withLeader initiateReplication) := by
  unfold withLeader
  split
  · exact initiateReplication_quiet _ _
  · exact .refl _

/-! ## Leading -/

/-- `rebuild_replication_streams` changes what is in flight, and announces the targets. -/
theorem rebuildReplicationStreams_spec (e : Engine NID N D) (l : Leader NID N) (closeOld : Bool) :
    ∃ targets entries, e.rebuildReplicationStreams l closeOld =
      { e with leader := some { l with progress := { l.progress with entries := entries } }
        }.pushCommand (.rebuildReplicationStreams l.committedVote targets closeOld) :=
  ⟨_, _, rfl⟩

/-- The entry that a new leader proposes. -/
def blankEntry (e : Engine NID N D) (l : Leader NID N) : Entry NID N D :=
  ⟨⟨l.committedVote.toCommitted e.config.mode, nextIndex l.lastLogId⟩, .blank⟩

theorem leaderAppendEntries_blank (e : Engine NID N D) (l : Leader NID N) :
    ∃ l' : Leader NID N, l' = { l with lastLogId := some (e.blankEntry l).logId } ∧
      Quiet (e.leaderExtendLog l' [e.blankEntry l]) (e.leaderAppendEntries l [.blank]) := by
  refine ⟨_, rfl, ?_⟩
  have hassign : l.assignLogIds e.config.mode 1 =
      some (⟨l.committedVote.toCommitted e.config.mode, nextIndex l.lastLogId,
        nextIndex l.lastLogId⟩, { l with lastLogId := some (e.blankEntry l).logId }) := by
    simp [Leader.assignLogIds, blankEntry]
  have hids : (⟨l.committedVote.toCommitted e.config.mode, nextIndex l.lastLogId,
      nextIndex l.lastLogId⟩ : LeaderLogIds NID).toList = [(e.blankEntry l).logId] := by
    simp [LeaderLogIds.toList, blankEntry]
  unfold leaderAppendEntries
  simp only [List.length_singleton, hassign, hids]
  exact withLeader_initiateReplication_quiet _

/-- A new leader goes on after the last log id. -/
theorem newLeader_lastLogId (e : Engine NID N D) (now : Nat) :
    (e.newLeader now).2.lastLogId = e.state.lastLogId := by
  unfold newLeader Leader.new LogIds.byLastLeader RaftState.lastLogId
  cases e.state.logIds.last with
  | none => rfl
  | some x => rfl

/-- The engine in which `become_leader` has opened the replication streams, with its leader. -/
def openStreams (e : Engine NID N D) (now : Nat) : Engine NID N D × Leader NID N :=
  let l := (e.newLeader now).2
  let io := IOId.newLogIo l.committedVote l.lastLogId
  let e := ((e.installLeader now).acceptLogIo io).pushCommand (.updateIOProgress none io)
  let e := e.rebuildReplicationStreams l true
  (e, e.leader.getD l)

/-- It accepts the log of the new leader, and announces it to the storage and to the streams. -/
theorem openStreams_spec (e : Engine NID N D) (now : Nat) : ∃ gen targets,
    (e.openStreams now).1.config = e.config ∧
    (e.openStreams now).1.state = { e.state with progressIdGen := gen }.acceptLogIo e.config.mode
      (.newLogIo e.state.voteRef.leaderId e.state.lastLogId) ∧
    (e.openStreams now).1.output = { e.output with commands := e.output.commands ++
      [.updateIOProgress none (.newLogIo e.state.voteRef.leaderId e.state.lastLogId),
        .rebuildReplicationStreams e.state.voteRef.leaderId targets true] } ∧
    (e.openStreams now).2.committedVote = e.state.voteRef.leaderId ∧
    (e.openStreams now).2.lastLogId = e.state.lastLogId := by
  have hlast := newLeader_lastLogId e now
  obtain ⟨io, hio⟩ : ∃ io, io = IOId.newLogIo (e.newLeader now).2.committedVote
    (e.newLeader now).2.lastLogId := ⟨_, rfl⟩
  have hio' : io = .newLogIo e.state.voteRef.leaderId e.state.lastLogId := by
    rw [hio, hlast]
    rfl
  obtain ⟨targets, entries, hreb⟩ := rebuildReplicationStreams_spec
    (((e.installLeader now).acceptLogIo io).pushCommand (.updateIOProgress none io))
    (e.newLeader now).2 true
  have hopen : (e.openStreams now).1 = (((e.installLeader now).acceptLogIo io).pushCommand
      (.updateIOProgress none io)).rebuildReplicationStreams (e.newLeader now).2 true := by
    rw [hio]
    rfl
  refine ⟨(e.newLeader now).1.state.progressIdGen, targets, rfl, ?_, ?_, rfl, hlast⟩
  · rw [hopen, ← hio']
    rfl
  · rw [hopen, hreb, ← hio']
    simp only [Engine.pushCommand, List.append_assoc]
    rfl

theorem leaderExtendLog_state (e : Engine NID N D) (l : Leader NID N)
    (entries : List (Entry NID N D)) : (e.leaderExtendLog l entries).state =
      { e.state with logIds := e.state.logIds.extend (entries.map Entry.logId) }.acceptLogIo
        e.config.mode (.newLogIo l.committedVote l.lastLogId) := rfl

/-- `become_leader` for a vote under which the node does not lead yet. -/
theorem becomeLeader_eq {now : Nat} (h : e.leaderVote ≠ some e.state.voteRef.leaderId) :
    e.becomeLeader now =
      if (e.newLeader now).2.lastLogId < some (e.newLeader now).2.noopLogId then
        (e.openStreams now).1.leaderAppendEntries (e.openStreams now).2 [.blank]
      else (e.openStreams now).1.initiateReplication (e.openStreams now).2 := by
  have hnot : ¬ e.leader.any (fun l => decide (l.committedVote = e.state.voteRef.leaderId)) =
      true := by
    intro hany
    obtain ⟨l, hl, hV⟩ := (Option.any_eq_true _ _).1 hany
    exact h (by rw [leaderVote_eq hl, of_decide_eq_true hV])
  unfold becomeLeader
  rw [if_neg hnot]
  rfl

theorem becomeLeader_of_leading {now : Nat} (h : e.leaderVote = some e.state.voteRef.leaderId) :
    e.becomeLeader now = e := by
  have hany : e.leader.any (fun l => decide (l.committedVote = e.state.voteRef.leaderId)) =
      true := by
    obtain ⟨l, hl, hV⟩ := Option.map_eq_some_iff.1 h
    rw [Option.any_eq_true]
    exact ⟨l, hl, decide_eq_true hV⟩
  unfold becomeLeader
  rw [if_pos hany]

/-! ## Following -/

theorem acceptLogIo_hasLogId (e : Engine NID N D) (io : IOId NID) (x : LogId NID) :
    (e.acceptLogIo io).state.hasLogId x = e.state.hasLogId x := by
  unfold Engine.acceptLogIo
  rw [RaftState.acceptLogIo_eq]
  rfl

theorem acceptLogIo_firstConflictingIndex (e : Engine NID N D) (io : IOId NID)
    (entries : List (Entry NID N D)) : (e.acceptLogIo io).state.firstConflictingIndex entries =
      e.state.firstConflictingIndex entries := by
  induction entries with
  | nil => rfl
  | cons ent entries ih =>
    simp only [RaftState.firstConflictingIndex, acceptLogIo_hasLogId, ih]

/-- The entries of a request that `append_entries` writes: those from the first one on that is not
    present. -/
def toAppend (e : Engine NID N D) (entries : List (Entry NID N D)) : List (Entry NID N D) :=
  entries.drop (e.state.firstConflictingIndex entries)

theorem not_hasLogId_of_toAppend {entries rest : List (Entry NID N D)} {first : Entry NID N D}
    (h : e.toAppend entries = first :: rest) : e.state.hasLogId first.logId = false := by
  unfold toAppend at h
  induction entries with
  | nil => cases h
  | cons a entries ih =>
    unfold RaftState.firstConflictingIndex at h
    split at h
    · exact ih h
    · rename_i hnot
      obtain ⟨rfl, -⟩ := List.cons.inj h
      simpa using hnot

/-- Up to `local_committed` everything counts as present. -/
theorem nextIndex_le_of_not_hasLogId {x : LogId NID} (h : e.state.hasLogId x = false) :
    nextIndex e.state.localCommitted ≤ x.index := by
  by_contra hlt
  unfold RaftState.hasLogId at h
  rw [if_pos (by omega)] at h
  cases h

/-- The log id that a request is about. -/
def acceptedIo (e : Engine NID N D) (prevLogId : Option (LogId NID))
    (entries : List (Entry NID N D)) : IOId NID :=
  .newLogIo e.state.voteRef.leaderId (max prevLogId (entries.getLast?.map Entry.logId))

theorem followingAppendEntries_cons {prevLogId : Option (LogId NID)}
    {entries rest : List (Entry NID N D)} {first : Entry NID N D}
    (h : e.toAppend entries = first :: rest) : e.followingAppendEntries prevLogId entries =
      ((e.acceptLogIo (e.acceptedIo prevLogId entries)).truncateLogs
        first.logId.index).doAppendEntries (first :: rest) := by
  unfold followingAppendEntries
  dsimp only
  rw [acceptLogIo_firstConflictingIndex]
  unfold toAppend at h
  rw [h]
  rfl

theorem followingAppendEntries_nil {prevLogId : Option (LogId NID)}
    {entries : List (Entry NID N D)} (h : e.toAppend entries = []) :
    e.followingAppendEntries prevLogId entries =
      if e.state.acceptedLogIo.any
          (fun prev => prev.ge e.config.mode (e.acceptedIo prevLogId entries)) then
        e.acceptLogIo (e.acceptedIo prevLogId entries)
      else (e.acceptLogIo (e.acceptedIo prevLogId entries)).pushCommand
        (.updateIOProgress (e.state.acceptedLogIo.map .ioFlushed)
          (e.acceptedIo prevLogId entries)) := by
  unfold followingAppendEntries
  dsimp only
  rw [acceptLogIo_firstConflictingIndex]
  unfold toAppend at h
  rw [h]
  rfl

end Engine

end ZenohRaft
