/-
  The log that the commands of an engine write.

  `Command.writeLog` is what a command does to the entries of the log, and `Engine.written` what
  the queued commands do to them, one after the other. `truncateLogs_written` and
  `doAppendEntries_written` read the two handlers that way; `updateVote_written` says that a
  request of another leader does not touch the log before it is looked at.
-/
import ZenohRaft.Log.Frame
import ZenohRaft.Log.History

namespace ZenohRaft

open Lib

variable {NID N D : Type} [LinearOrder NID]

/-- The log after a command: `RaftLogStorage::append`, `truncate_after` and `purge`. -/
def Command.writeLog (entries : List (Entry NID N D)) : Command NID N D → List (Entry NID N D)
  | .appendEntries _ new => entries ++ new
  | .truncateLog after =>
    entries.filter fun ent => decide (ent.logId.index < nextIndex after)
  | .purgeLog upto => entries.filter fun ent => decide (upto.index < ent.logId.index)
  | _ => entries

/-- The log after the commands in the queue. -/
def Engine.written (e : Engine NID N D) (entries : List (Entry NID N D)) :
    List (Entry NID N D) :=
  e.output.commands.foldl Command.writeLog entries

/-- An engine whose commands are carried out at once, with the entries of its log. -/
structure LoggedEngine (NID N D : Type) where
  engine : Engine NID N D
  entries : List (Entry NID N D)

namespace LoggedEngine

/-- The engine once its commands are carried out. -/
def drained (s : LoggedEngine NID N D) : Engine NID N D :=
  { s.engine with output := { s.engine.output with commands := [] } }

/-- What a handler leads to, with the log that its commands write. -/
def after (s : LoggedEngine NID N D) (e : Engine NID N D) : LoggedEngine NID N D :=
  ⟨e, e.written s.entries⟩

end LoggedEngine

/-! ## Handlers -/

section

omit [LinearOrder NID]

/-- The end of a slice. -/
theorem Engine.segmentLast_tipId (l l' : List (Entry NID N D)) :
    Engine.segmentLast (tipId l) l' = tipId (l ++ l') := by
  unfold Engine.segmentLast tipId
  rw [List.getLast?_append]
  cases l'.getLast? with
  | none => rfl
  | some ent => rfl

/-- The log id before one that is there. -/
theorem RaftState.nextIndex_prevLogId {s : RaftState NID N} (hlog : s.logIds.Consecutive)
    {since : Nat} (hfirst : s.logIds.firstIndex ≤ since) {x : LogId NID}
    (hget : s.getLogId since = some x) : nextIndex (s.prevLogId since) = since := by
  unfold RaftState.prevLogId
  by_cases hz : since = 0
  · rw [if_pos hz, hz]
    rfl
  · rw [if_neg hz]
    have hlt := hlog.lt_nextIndex hget
    have hprev : ∃ y : LogId NID, s.getLogId (since - 1) = some y ∧ y.index = since - 1 := by
      by_cases hp : s.logIds.firstIndex ≤ since - 1
      · obtain ⟨y, hy⟩ := hlog.exists_refAt (i := since - 1) hp (by omega)
        exact ⟨y, hy, LogIds.refAt_index hy⟩
      · -- the log starts here: the id before it is the last purged one
        have hp : since - 1 < s.logIds.firstIndex := by omega
        have hpurged := hp
        unfold LogIds.firstIndex at hpurged hfirst
        cases hps : s.logIds.purged with
        | none => simp [hps] at hpurged
        | some p =>
          rw [hps, nextIndex_some] at hpurged hfirst
          have hpi : p.index = since - 1 := by omega
          refine ⟨p, ?_, hpi⟩
          show s.logIds.refAt (since - 1) = some p
          unfold LogIds.refAt
          rw [if_pos hp, hps, Option.filter_some, if_pos (by simp [hpi])]
    obtain ⟨y, hy, hyi⟩ := hprev
    rw [hy, nextIndex_some]
    omega

/-- The entries of a log are consecutive if their log ids are. -/
theorem LogIds.indexedFrom_of_consecutive {ids : LogIds NID} {l : List (Entry NID N D)}
    (hids : ids.ids = l.map Entry.logId) (h : ids.Consecutive) : IndexedFrom ids.firstIndex l := by
  intro i ent hent
  refine h i ent.logId ?_
  rw [hids, List.getElem?_map, hent]
  rfl

/-- Log ids are consecutive if the entries they belong to are. -/
theorem LogIds.consecutive_of_indexed {ids : LogIds NID} {l : List (Entry NID N D)}
    (hids : ids.ids = l.map Entry.logId) (hl : IndexedFrom ids.firstIndex l) : ids.Consecutive := by
  intro i x hx
  rw [hids, List.getElem?_map] at hx
  obtain ⟨ent, hent, rfl⟩ := Option.map_eq_some_iff.1 hx
  exact hl i ent hent

end

namespace Engine

variable {e : Engine NID N D} {l : List (Entry NID N D)}

section

omit [LinearOrder NID]

theorem written_pushCommand (e : Engine NID N D) (c : Command NID N D)
    (l : List (Entry NID N D)) : (e.pushCommand c).written l = c.writeLog (e.written l) :=
  List.foldl_append

/-- `truncate_logs`: if there is no log at `since`, there is nothing to cut. -/
theorem truncateLogs_written (hids : e.state.logIds.ids = (e.written l).map Entry.logId)
    (hlog : e.state.logIds.Consecutive) {since : Nat}
    (hfirst : e.state.logIds.firstIndex ≤ since) :
    (e.truncateLogs since).written l =
        (e.written l).filter (fun ent => decide (ent.logId.index < since)) ∧
      (e.truncateLogs since).state.logIds = e.state.logIds.truncate since := by
  unfold truncateLogs
  cases hget : e.state.getLogId since with
  | none =>
    have hlast : nextIndex e.state.logIds.last ≤ since := by
      by_contra hlt
      obtain ⟨x, hx⟩ := hlog.exists_refAt (i := since) hfirst (by omega)
      exact absurd (hget.symm.trans hx) (by simp)
    have hindexed := LogIds.indexedFrom_of_consecutive hids hlog
    rw [hlog.nextIndex_last, hids, List.length_map] at hlast
    have hbefore : ∀ ent ∈ e.written l, ent.logId.index < since := by
      intro ent hent
      obtain ⟨i, hi⟩ := List.mem_iff_getElem?.1 hent
      have hlt := (List.getElem?_eq_some_iff.1 hi).1
      have := hindexed i ent hi
      omega
    refine ⟨(List.filter_eq_self.2 fun ent hent => decide_eq_true (hbefore ent hent)).symm, ?_⟩
    unfold LogIds.truncate
    rw [List.filter_eq_self.2]
    intro x hx
    rw [hids] at hx
    obtain ⟨ent, hent, rfl⟩ := List.mem_map.1 hx
    exact decide_eq_true (hbefore ent hent)
  | some x =>
    refine ⟨?_, rfl⟩
    rw [written_pushCommand]
    show (e.written l).filter (fun ent =>
      decide (ent.logId.index < nextIndex (e.state.prevLogId since))) = _
    rw [RaftState.nextIndex_prevLogId hlog hfirst hget]

theorem doAppendEntries_written (e : Engine NID N D) (new l : List (Entry NID N D)) :
    (e.doAppendEntries new).written l = e.written l ++ new :=
  written_pushCommand _ _ _

theorem becomeFollowing_written (e : Engine NID N D) (l : List (Entry NID N D)) :
    e.becomeFollowing.written l = e.written l := by
  unfold becomeFollowing
  dsimp only
  split
  · exact written_pushCommand _ _ _
  · rfl

end

/-- The vote is taken over, with a new io if it is a greater one. -/
structure TakesVote (e : Engine NID N D) (V : LeaderId NID) (e' : Engine NID N D) : Prop where
  config : e'.config = e.config
  vote : e'.state.voteRef = ⟨V, true⟩
  logIds : e'.state.logIds = e.state.logIds
  written : ∀ l, e'.written l = e.written l
  io : e.state.voteRef = ⟨V, true⟩ ∧ e'.state.ioState = e.state.ioState ∨
    e.state.voteRef.rank e.config.mode < Vote.rank e.config.mode ⟨V, true⟩ ∧
      e'.state.ioState = { e.state.ioState with logProgress := { e.state.ioState.logProgress with
        accepted := e.state.nextAccepted e.config.mode (.new ⟨V, true⟩) } }

theorem adoptVote_written {e' : Engine NID N D} {V : LeaderId NID} {now : Nat}
    (he' : e' = e.adoptVote now ⟨V, true⟩)
    (hge : Vote.ge e.config.mode ⟨V, true⟩ e.state.voteRef = true) : e.TakesVote V e' := by
  unfold adoptVote at he'
  dsimp only at he'
  by_cases hgt : Vote.gt e.config.mode ⟨V, true⟩ e.state.voteRef = true
  · rw [if_pos hgt] at he'
    have heq := RaftState.acceptLogIo_eq e.config.mode { e.state with
      vote := e.state.vote.update now (if true = true then e.config.leaderLease else 0)
        ⟨V, true⟩ } (.new ⟨V, true⟩)
    rw [he']
    refine ⟨rfl, ?_, ?_, fun l => written_pushCommand _ _ _, Or.inr ⟨Vote.gt_iff.1 hgt, ?_⟩⟩
    · exact (congrArg RaftState.voteRef heq).trans rfl
    · exact (congrArg RaftState.logIds heq).trans rfl
    · exact (congrArg RaftState.ioState heq).trans rfl
  · rw [if_neg hgt] at he'
    have hsame : e.state.voteRef = ⟨V, true⟩ := by
      rcases Vote.ge_iff.1 hge with heq | hlt
      · exact heq.symm
      · exact absurd (Vote.gt_iff.2 hlt) hgt
    rw [he']
    exact ⟨rfl, hsame, rfl, fun _ => rfl, Or.inl ⟨hsame, rfl⟩⟩

/-- `update_vote` for the vote of another leader. -/
theorem updateVote_written {V : LeaderId NID} (hother : V.nodeId ≠ e.config.id) (now : Nat) :
    e.updateVote now ⟨V, true⟩ = (e, false) ∨
    ∃ e', e.updateVote now ⟨V, true⟩ = (e', true) ∧ e.TakesVote V e' := by
  unfold updateVote
  by_cases hge : Vote.ge e.config.mode ⟨V, true⟩ e.state.voteRef = true
  · right
    rw [if_pos hge]
    obtain ⟨e1, he1⟩ : ∃ e1, e1 = e.adoptVote now ⟨V, true⟩ := ⟨_, rfl⟩
    have h1 := adoptVote_written he1 hge
    have hstep := updateInternalServerState_of_other
      (show e1.state.voteRef.leaderId.nodeId ≠ e1.config.id by
        rw [h1.vote, h1.config]; exact hother) now
    obtain ⟨hstate, hconfig, -⟩ := becomeFollowing_spec e1
    rw [← he1, hstep]
    refine ⟨_, rfl, hconfig.trans h1.config, ?_, ?_, ?_, ?_⟩
    · rw [hstate]
      exact h1.vote
    · rw [hstate]
      exact h1.logIds
    · intro l
      rw [becomeFollowing_written]
      exact h1.written l
    · rw [hstate]
      exact h1.io
  · exact Or.inl (if_neg hge)

end Engine

end ZenohRaft
