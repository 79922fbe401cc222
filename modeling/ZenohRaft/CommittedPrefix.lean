/-
  The committed part of a log under requests with arbitrary contents.

  A request of a leader is handled without looking at what the leader may send: its log may
  contradict the local one, and nothing is known about the entries in it. `Engine.KeepsCommitted`
  says that no log id at or below `local_committed` is removed or written over, in memory and by the
  commands for the log store, other than by purging it into a snapshot that is being installed.

  * A snapshot never does any harm: `install_full_snapshot` compares it with `local_committed`.
  * `truncate_logs` is only called with an index behind `local_committed`.
  * `append_entries` looks for the first entry that is not present and appends all entries from
    there on. If a later one has a smaller index, it goes over the committed log.

  `handle_keepsCommitted` says that the last point is the only exception: where the indexes of the
  entries increase, what is committed stays. Log ids are assumed to count up from the first one, as
  the list of ids in the source does by its representation. That list has one key for each leader,
  so that a smaller index behind a larger one of the same leader also drops the ids in between; with
  increasing indexes a key that is added or replaced does not change the ids before it, and the
  plain list agrees with it there.
-/
import ZenohRaft.Cluster
import ZenohRaft.Log.Frame

namespace ZenohRaft

open Lib

variable {NID N D : Type} [LinearOrder NID]

/-! ## What is kept -/

/-- The log has an id at index `i`, and this is at or below `local_committed`. -/
def RaftState.HoldsCommitted (s : RaftState NID N) (i : Nat) : Prop :=
  i < nextIndex s.localCommitted ∧ (s.getLogId i).isSome

instance (s : RaftState NID N) (i : Nat) : Decidable (s.HoldsCommitted i) :=
  inferInstanceAs (Decidable (_ ∧ _))

/-- A snapshot up to `upto` is installed by one of the commands. -/
def Installs (cs : List (Command NID N D)) (upto : LogId NID) : Prop :=
  ∃ io snapshot, .stateMachine (.installFullSnapshot io snapshot) ∈ cs ∧
    snapshot.snapshotMeta.lastLogId = some upto

/-- The command leaves the committed log ids of `s` in the log store, unless it purges them into
    a snapshot that one of the commands `cs` installs. -/
def Command.KeepsCommitted (s : RaftState NID N) (cs : List (Command NID N D)) :
    Command NID N D → Prop
  | .appendEntries _ entries => ∀ ent ∈ entries, ¬ s.HoldsCommitted ent.logId.index
  | .truncateLog after => ∀ i, s.HoldsCommitted i → i < nextIndex after
  | .purgeLog upto => Installs cs upto
  | _ => True

/-- The committed log ids of `e` are in the log of `e'` or in a snapshot that is being installed,
    and the commands that were added leave them in the log store. -/
def Engine.KeepsCommitted (e e' : Engine NID N D) : Prop :=
  ∃ cs, e'.output.commands.Perm (e.output.commands ++ cs) ∧
    (∀ c ∈ cs, c.KeepsCommitted e.state cs) ∧
    ∀ i, e.state.HoldsCommitted i →
      e'.state.getLogId i = e.state.getLogId i ∨ ∃ upto, Installs cs upto ∧ i ≤ upto.index

omit [LinearOrder NID] in
theorem Command.KeepsCommitted.mono {s : RaftState NID N} {cs : List (Command NID N D)}
    {c : Command NID N D} (h : c.KeepsCommitted s []) : c.KeepsCommitted s cs := by
  cases c with
  | purgeLog upto =>
    obtain ⟨io, snapshot, hmem, -⟩ := h
    cases hmem
  | appendEntries V entries => exact h
  | truncateLog after => exact h
  | updateIOProgress _ _ => trivial
  | replicateCommitted _ => trivial
  | saveCommittedAndApply _ _ => trivial
  | replicate _ _ => trivial
  | replicateSnapshot _ _ _ => trivial
  | broadcastTransferLeader _ _ _ => trivial
  | closeReplicationStreams => trivial
  | failPendingReads => trivial
  | rebuildReplicationStreams _ _ _ => trivial
  | saveVote _ => trivial
  | sendVote _ _ => trivial
  | stateMachine _ => trivial
  | respond _ _ => trivial

namespace Engine

variable {e e' e'' : Engine NID N D} {s : RaftState NID N}

/-- The committed log ids of `s` survive a part of a handler that installs nothing. -/
structure Kept (s : RaftState NID N) (e e' : Engine NID N D) : Prop where
  config : e'.config = e.config
  committed : e'.state.localCommitted = e.state.localCommitted
  log : ∀ i, s.HoldsCommitted i → ∀ x, e.state.getLogId i = some x → e'.state.getLogId i = some x
  commands : ∃ cs, e'.output.commands.Perm (e.output.commands ++ cs) ∧
    ∀ c ∈ cs, c.KeepsCommitted s []

namespace Kept

section

omit [LinearOrder NID]

theorem refl (s : RaftState NID N) (e : Engine NID N D) : Kept s e e :=
  ⟨rfl, rfl, fun _ _ _ h => h, [], by simp, by simp⟩

theorem trans (h : Kept s e e') (h' : Kept s e' e'') : Kept s e e'' := by
  obtain ⟨cs, hperm, hkeep⟩ := h.commands
  obtain ⟨cs', hperm', hkeep'⟩ := h'.commands
  refine ⟨h'.config.trans h.config, h'.committed.trans h.committed,
    fun i hi x hx => h'.log i hi x (h.log i hi x hx), cs ++ cs', ?_, ?_⟩
  · rw [← List.append_assoc]
    exact hperm'.trans (hperm.append_right cs')
  · intro c hc
    rcases List.mem_append.1 hc with hc | hc
    · exact hkeep c hc
    · exact hkeep' c hc

/-- Entries are appended, none of them over a committed one. -/
theorem extend (hconfig : e'.config = e.config) (ids : List (LogId NID))
    (hids : e'.state.logIds = e.state.logIds.extend ids)
    (hc : e'.state.localCommitted = e.state.localCommitted) {cs : List (Command NID N D)}
    (ho : e'.output.commands = e.output.commands ++ cs)
    (hcs : ∀ c ∈ cs, c.KeepsCommitted s []) : Kept s e e' := by
  refine ⟨hconfig, hc, fun i _ x hx => ?_, cs, by rw [ho], hcs⟩
  unfold RaftState.getLogId at hx ⊢
  rw [hids]
  exact LogIds.refAt_extend hx _

/-- The log is the same. -/
theorem of_eq (hconfig : e'.config = e.config) (hids : e'.state.logIds = e.state.logIds)
    (hc : e'.state.localCommitted = e.state.localCommitted) {cs : List (Command NID N D)}
    (ho : e'.output.commands = e.output.commands ++ cs)
    (hcs : ∀ c ∈ cs, c.KeepsCommitted s []) : Kept s e e' := by
  refine .extend hconfig [] ?_ hc ho hcs
  rw [hids, LogIds.extend, List.append_nil]

theorem push {c : Command NID N D} (hc : c.KeepsCommitted s []) : Kept s e (e.pushCommand c) :=
  .of_eq rfl rfl rfl rfl (by simpa using hc)

end

theorem acceptLogIo (io : IOId NID) : Kept s e (e.acceptLogIo io) := by
  unfold Engine.acceptLogIo
  rw [RaftState.acceptLogIo_eq]
  exact .of_eq rfl rfl rfl (List.append_nil _).symm (by simp)

omit [LinearOrder NID] in
theorem quiet (h : Quiet e e') : Kept s e e' := by
  refine ⟨h.config, by rw [RaftState.localCommitted, h.state.ioState]; rfl, fun i _ x hx => ?_, ?_⟩
  · unfold RaftState.getLogId at hx ⊢
    rw [h.state.logIds]
    exact hx
  · obtain ⟨cs, ⟨pre, hpre, hcs⟩, hidle⟩ := h.commands
    refine ⟨pre ++ cs, ?_, ?_⟩
    · rw [hcs, ← List.append_assoc, ← List.append_assoc]
      exact List.perm_append_comm.append_right cs
    · intro c hc
      rcases List.mem_append.1 hc with hc | hc
      · rw [hpre c hc]
        trivial
      · have hi := hidle c hc
        cases c <;> trivial

omit [LinearOrder NID] in
/-- The log is truncated behind `local_committed`. -/
theorem truncateLogs {since : Nat} (hcons : e.state.logIds.Consecutive)
    (hbase : ∀ i, s.HoldsCommitted i → i < since ∧ (e.state.getLogId i).isSome) :
    Kept s e (e.truncateLogs since) := by
  unfold Engine.truncateLogs
  split
  · exact .refl _ _
  · rename_i y hy
    refine ⟨rfl, rfl, fun i hi x hx => ?_, [_], List.Perm.refl _, ?_⟩
    · exact (LogIds.refAt_truncate (hbase i hi).1).trans hx
    · intro c hmem
      obtain rfl := List.mem_singleton.1 hmem
      intro i hi
      obtain ⟨hlt, hsome⟩ := hbase i hi
      obtain ⟨x, hx⟩ := Option.isSome_iff_exists.1 hsome
      have hprev : e.state.prevLogId since = e.state.getLogId (since - 1) := by
        rw [RaftState.prevLogId, if_neg (by omega)]
      have hend := hcons.lt_nextIndex hy
      rw [hprev]
      rcases Nat.lt_or_ge (since - 1) e.state.logIds.firstIndex with hfirst | hfirst
      · -- only the purged log id is found in front of the first one
        have hpurged : ∀ j, j < e.state.logIds.firstIndex → ∀ z, e.state.getLogId j = some z →
            e.state.logIds.firstIndex = j + 1 ∧ e.state.logIds.purged = some z := by
          intro j hj z hz
          have hzj := LogIds.refAt_index hz
          unfold RaftState.getLogId LogIds.refAt at hz
          rw [if_pos hj] at hz
          have hp := (Option.filter_eq_some_iff.1 hz).1
          refine ⟨?_, hp⟩
          rw [LogIds.firstIndex, hp, nextIndex_some, hzj]
        obtain ⟨hi1, hp⟩ := hpurged i (by omega) x hx
        have hsince : since - 1 = i := by omega
        rw [hsince, hx, nextIndex_some, LogIds.refAt_index hx]
        omega
      · obtain ⟨z, hz⟩ := hcons.exists_refAt hfirst (by omega)
        have hz' : e.state.getLogId (since - 1) = some z := hz
        rw [hz', nextIndex_some, LogIds.refAt_index hz]
        omega

end Kept

/-! ## Taking over a vote -/

/-- What is known after a vote was taken over: the committed log ids are still there. -/
structure KeptAll (e e' : Engine NID N D) : Prop where
  kept : Kept e.state e e'
  consecutive : e'.state.logIds.Consecutive

omit [LinearOrder NID] in
theorem HoldsCommitted.lt_nextIndex {i : Nat} (hcons : e.state.logIds.Consecutive)
    (h : e.state.HoldsCommitted i) : i < nextIndex e.state.lastLogId := by
  obtain ⟨x, hx⟩ := Option.isSome_iff_exists.1 h.2
  exact hcons.lt_nextIndex hx

theorem becomeLeader_kept {base : Engine NID N D} (hcons : e.state.logIds.Consecutive)
    (hlast : ∀ i, base.state.HoldsCommitted i → i < nextIndex e.state.lastLogId) (now : Nat) :
    Kept base.state e (e.becomeLeader now) ∧ (e.becomeLeader now).state.logIds.Consecutive := by
  by_cases hlead : e.leaderVote = some e.state.voteRef.leaderId
  · rw [becomeLeader_of_leading hlead]
    exact ⟨.refl _ _, hcons⟩
  obtain ⟨gen, targets, hconfig, hstate, hout, hvote, hlastId⟩ := e.openStreams_spec now
  rw [becomeLeader_eq hlead]
  generalize e.openStreams now = r at *
  obtain ⟨e1, l1⟩ := r
  dsimp only at *
  rw [RaftState.acceptLogIo_eq] at hstate
  have hids : e1.state.logIds = e.state.logIds := by rw [hstate]
  have hopen : Kept base.state e e1 := by
    refine .of_eq hconfig hids ?_ (congrArg EngineOutput.commands hout) ?_
    · rw [hstate]
      rfl
    · simp [Command.KeepsCommitted]
  split
  · obtain ⟨l2, -, hquiet⟩ := leaderAppendEntries_blank e1 l1
    have hstate2 := leaderExtendLog_state e1 l2 [e1.blankEntry l1]
    rw [RaftState.acceptLogIo_eq] at hstate2
    have hextend : Kept base.state e1 (e1.leaderExtendLog l2 [e1.blankEntry l1]) := by
      refine .extend rfl [(e1.blankEntry l1).logId] ?_ ?_ rfl ?_
      · rw [hstate2]
        rfl
      · rw [hstate2]
        rfl
      · intro c hc
        obtain rfl := List.mem_singleton.1 hc
        intro ent hent hholds
        obtain rfl := List.mem_singleton.1 hent
        have hlt := hlast _ hholds
        rw [← hlastId] at hlt
        exact lt_irrefl _ hlt
    refine ⟨(hopen.trans hextend).trans (.quiet hquiet), ?_⟩
    rw [hquiet.state.logIds, hstate2]
    show (e1.state.logIds.extend [⟨_, nextIndex l1.lastLogId⟩]).Consecutive
    rw [hids, hlastId]
    exact hcons.append _
  · have hquiet := initiateReplication_quiet e1 l1
    refine ⟨hopen.trans (.quiet hquiet), ?_⟩
    rw [hquiet.state.logIds, hids]
    exact hcons

omit [LinearOrder NID] in
theorem becomeFollowing_kept (e : Engine NID N D) : Kept s e e.becomeFollowing := by
  unfold becomeFollowing
  dsimp only
  have hfail : Kept s e (({ e with leader := none, candidate := none, preCandidate := none } :
      Engine NID N D).prependCommand .failPendingReads) := by
    refine ⟨rfl, rfl, fun _ _ _ h => h, [.failPendingReads], ?_, ?_⟩
    · exact (List.perm_append_singleton _ _).symm
    · intro c hc
      obtain rfl := List.mem_singleton.1 hc
      trivial
  split
  · exact hfail.trans (.push trivial)
  · exact hfail

/-- `update_vote` only extends the log, and only if it makes this node the leader. -/
theorem updateVote_keptAll (hcons : e.state.logIds.Consecutive) (now : Nat) (vote : Vote NID) :
    KeptAll e (e.updateVote now vote).1 := by
  unfold updateVote
  split
  · have hadopt : Kept e.state e (e.adoptVote now vote) ∧
        (e.adoptVote now vote).state.logIds = e.state.logIds := by
      unfold adoptVote
      dsimp only
      split
      · have hv : Kept e.state e ({ e with state := { e.state with
            vote := e.state.vote.update now
              (if vote.committed then e.config.leaderLease else 0) vote } } : Engine NID N D) :=
          .of_eq rfl rfl rfl (List.append_nil _).symm (by simp)
        refine ⟨(hv.trans (.acceptLogIo _)).trans (.push trivial), ?_⟩
        unfold Engine.pushCommand Engine.acceptLogIo
        rw [RaftState.acceptLogIo_eq]
      · exact ⟨.of_eq rfl rfl rfl (List.append_nil _).symm (by simp), rfl⟩
    obtain ⟨hkept, hids⟩ := hadopt
    have hcons1 : (e.adoptVote now vote).state.logIds.Consecutive := by
      rw [hids]
      exact hcons
    unfold updateInternalServerState
    split
    · have hlast : ∀ i, e.state.HoldsCommitted i →
          i < nextIndex (e.adoptVote now vote).state.lastLogId := by
        intro i hi
        rw [RaftState.lastLogId, hids]
        exact HoldsCommitted.lt_nextIndex hcons hi
      obtain ⟨hlead, hcons2⟩ := becomeLeader_kept hcons1 hlast now
      exact ⟨hkept.trans hlead, hcons2⟩
    split
    · exact ⟨hkept, hcons1⟩
    · refine ⟨hkept.trans (becomeFollowing_kept _), ?_⟩
      rw [(becomeFollowing_spec _).1]
      exact hcons1
  · exact ⟨.refl _ _, hcons⟩

/-! ## Requests -/

section

omit [LinearOrder NID]

theorem HoldsCommitted.isSome (h : Kept e.state e e') {i : Nat} (hi : e.state.HoldsCommitted i) :
    (e'.state.getLogId i).isSome := by
  obtain ⟨x, hx⟩ := Option.isSome_iff_exists.1 hi.2
  rw [h.log i hi x hx]
  rfl

theorem Kept.keepsCommitted (h : Kept e.state e e') : e.KeepsCommitted e' := by
  obtain ⟨cs, hperm, hkeep⟩ := h.commands
  refine ⟨cs, hperm, fun c hc => (hkeep c hc).mono, fun i hi => Or.inl ?_⟩
  obtain ⟨x, hx⟩ := Option.isSome_iff_exists.1 hi.2
  rw [h.log i hi x hx, hx]

theorem truncateLogs_kept {base : Engine NID N D} (h : Kept base.state base e)
    (hcons : e.state.logIds.Consecutive) {since : Nat}
    (hsince : nextIndex e.state.localCommitted ≤ since) :
    Kept base.state e (e.truncateLogs since) := by
  refine .truncateLogs hcons fun i hi => ⟨?_, HoldsCommitted.isSome h hi⟩
  have := hi.1
  rw [← h.committed] at this
  omega

end

theorem acceptLogIo_spec (e : Engine NID N D) (io : IOId NID) :
    (e.acceptLogIo io).state.logIds = e.state.logIds ∧
      (e.acceptLogIo io).state.localCommitted = e.state.localCommitted := by
  unfold Engine.acceptLogIo
  rw [RaftState.acceptLogIo_eq]
  exact ⟨rfl, rfl⟩

/-- What `append_entries` does to the log in memory is always fine. -/
theorem followingAppendEntries_spec {base : Engine NID N D} (h : Kept base.state base e)
    (hcons : e.state.logIds.Consecutive) (prevLogId : Option (LogId NID))
    (entries : List (Entry NID N D)) : ∃ e1, Kept base.state e e1 ∧
      (e.toAppend entries = [] ∧ e.followingAppendEntries prevLogId entries = e1 ∨
        e.toAppend entries ≠ [] ∧ e.followingAppendEntries prevLogId entries =
          e1.doAppendEntries (e.toAppend entries)) := by
  obtain ⟨hids, hlc⟩ := acceptLogIo_spec e (e.acceptedIo prevLogId entries)
  have haccept : Kept base.state e (e.acceptLogIo (e.acceptedIo prevLogId entries)) :=
    .acceptLogIo _
  cases happ : e.toAppend entries with
  | nil =>
    refine ⟨_, ?_, Or.inl ⟨rfl, rfl⟩⟩
    rw [followingAppendEntries_nil happ]
    split
    · exact haccept
    · exact haccept.trans (.push trivial)
  | cons first rest =>
    have hnot := nextIndex_le_of_not_hasLogId (not_hasLogId_of_toAppend happ)
    rw [← hlc] at hnot
    have htrunc := truncateLogs_kept (h.trans haccept) (by rw [hids]; exact hcons) hnot
    exact ⟨_, haccept.trans htrunc, Or.inr ⟨by simp, followingAppendEntries_cons happ⟩⟩

omit [LinearOrder NID] in
theorem doAppendEntries_kept {entries : List (Entry NID N D)}
    (h : ∀ ent ∈ entries, ¬ s.HoldsCommitted ent.logId.index) :
    Kept s e (e.doAppendEntries entries) := by
  refine .extend rfl (entries.map Entry.logId) rfl rfl rfl ?_
  intro c hc
  obtain rfl := List.mem_singleton.1 hc
  exact h

/-- None of the entries that a request makes the node write is at the index of a committed log id.
    Nothing is written if the vote of the request is rejected or the log id before the entries is
    not present. -/
def WritesBehindCommitted (e : Engine NID N D) (now : Nat) (vote : Vote NID)
    (prevLogId : Option (LogId NID)) (entries : List (Entry NID N D)) : Prop :=
  vote.ge e.config.mode e.state.voteRef = true →
    (∀ prev ∈ prevLogId, (e.updateVote now vote).1.state.hasLogId prev = true) →
    ∀ ent ∈ (e.updateVote now vote).1.toAppend entries, ¬ e.state.HoldsCommitted ent.logId.index

/-- The entries that a request makes the node write, from the first one on that is not present, have
    increasing indexes. -/
def IndexesIncrease (e : Engine NID N D) (now : Nat) (vote : Vote NID)
    (prevLogId : Option (LogId NID)) (entries : List (Entry NID N D)) : Prop :=
  vote.ge e.config.mode e.state.voteRef = true →
    (∀ prev ∈ prevLogId, (e.updateVote now vote).1.state.hasLogId prev = true) →
    ((e.updateVote now vote).1.toAppend entries).Pairwise fun a b => a.logId.index < b.logId.index

/-- The first entry that is not present is behind `local_committed`, and so are those after it. -/
theorem IndexesIncrease.writesBehind {now : Nat} {vote : Vote NID} {prevLogId : Option (LogId NID)}
    {entries : List (Entry NID N D)} (hcons : e.state.logIds.Consecutive)
    (h : e.IndexesIncrease now vote prevLogId entries) :
    e.WritesBehindCommitted now vote prevLogId entries := by
  intro hge hprev ent hent hholds
  have hsorted := h hge hprev
  have hcommitted := (updateVote_keptAll hcons now vote).kept.committed
  cases happ : (e.updateVote now vote).1.toAppend entries with
  | nil =>
    rw [happ] at hent
    cases hent
  | cons first rest =>
    have hfirst := nextIndex_le_of_not_hasLogId (not_hasLogId_of_toAppend happ)
    rw [hcommitted] at hfirst
    have hlt := hholds.1
    rw [happ] at hent hsorted
    rcases List.mem_cons.1 hent with rfl | hrest
    · omega
    · have := List.rel_of_pairwise_cons hsorted hrest
      omega

theorem updateVote_accepts (e : Engine NID N D) (now : Nat) (vote : Vote NID) :
    (e.updateVote now vote).2 = vote.ge e.config.mode e.state.voteRef := by
  unfold updateVote
  split
  · rename_i h
    exact h.symm
  · rename_i h
    simpa using h

theorem appendEntries_rejected {now : Nat} {vote : Vote NID}
    (h : vote.ge e.config.mode e.state.voteRef = false) (prevLogId : Option (LogId NID))
    (entries : List (Entry NID N D)) : (e.appendEntries now vote prevLogId entries).1 = e := by
  unfold appendEntries updateVote
  rw [if_neg (by simp [h])]

theorem appendEntries_accepted {now : Nat} {vote : Vote NID}
    (h : vote.ge e.config.mode e.state.voteRef = true) {prevLogId : Option (LogId NID)}
    (hprev : ∀ prev ∈ prevLogId, (e.updateVote now vote).1.state.hasLogId prev = true)
    (entries : List (Entry NID N D)) : (e.appendEntries now vote prevLogId entries).1 =
      (e.updateVote now vote).1.followingAppendEntries prevLogId entries := by
  have hacc := e.updateVote_accepts now vote
  rw [h] at hacc
  unfold appendEntries
  generalize e.updateVote now vote = r at *
  obtain ⟨e1, ok⟩ := r
  obtain rfl : ok = true := hacc
  have hcons : e1.ensureLogConsecutive prevLogId = (e1, none) := by
    unfold ensureLogConsecutive
    split
    · rfl
    · rename_i prev
      rw [if_pos (hprev prev rfl)]
  simp only [hcons]

theorem appendEntries_conflict {now : Nat} {vote : Vote NID}
    (h : vote.ge e.config.mode e.state.voteRef = true) {prev : LogId NID}
    (hprev : (e.updateVote now vote).1.state.hasLogId prev = false)
    (entries : List (Entry NID N D)) : (e.appendEntries now vote (some prev) entries).1 =
      (e.updateVote now vote).1.truncateLogs prev.index := by
  have hacc := e.updateVote_accepts now vote
  rw [h] at hacc
  unfold appendEntries
  generalize e.updateVote now vote = r at *
  obtain ⟨e1, ok⟩ := r
  obtain rfl : ok = true := hacc
  simp only [ensureLogConsecutive, hprev]
  rfl

/-- A request to append entries is harmless unless it makes the node write over a committed log
    id. -/
theorem handleAppendEntries_keepsCommitted_iff (hcons : e.state.logIds.Consecutive) (now : Nat)
    (ctx : StreamCtx NID) (vote : Vote NID) (prevLogId : Option (LogId NID))
    (entries : List (Entry NID N D)) :
    e.KeepsCommitted (e.handleAppendEntries now ctx vote prevLogId entries) ↔
      e.WritesBehindCommitted now vote prevLogId entries := by
  obtain ⟨resp, hresp⟩ : ∃ c : Command NID N D, c.KeepsCommitted e.state [] ∧
      e.handleAppendEntries now ctx vote prevLogId entries =
        (e.appendEntries now vote prevLogId entries).1.pushCommand c :=
    ⟨.respond _ (.appendEntries ctx _), trivial, rfl⟩
  rw [hresp.2]
  have hall := updateVote_keptAll hcons now vote
  by_cases hge : vote.ge e.config.mode e.state.voteRef = true
  · by_cases hprev : ∀ prev ∈ prevLogId, (e.updateVote now vote).1.state.hasLogId prev = true
    · obtain ⟨e1, hkept, hcase⟩ := followingAppendEntries_spec hall.kept hall.consecutive
        prevLogId entries
      rw [appendEntries_accepted hge hprev]
      constructor
      · -- the command that writes the entries is a new one
        intro hkeeps _ _ ent hent hholds
        obtain ⟨hnil, -⟩ | ⟨-, heq⟩ := hcase
        · rw [hnil] at hent
          cases hent
        obtain ⟨cs, hperm, hkeep, -⟩ := hkeeps
        obtain ⟨cs1, hperm1, -⟩ := (hall.kept.trans hkept).commands
        have hnew : ((e1.output.commands ++ [Command.appendEntries e1.state.voteRef.leaderId
            ((e.updateVote now vote).1.toAppend entries)]) ++ [resp]).Perm
            (e.output.commands ++ cs) := by
          rw [heq] at hperm
          exact hperm
        rw [List.append_assoc] at hnew
        have hcancel := ((hperm1.append_right _).symm.trans hnew)
        rw [List.append_assoc, List.perm_append_left_iff] at hcancel
        have hmem : Command.appendEntries e1.state.voteRef.leaderId
            ((e.updateVote now vote).1.toAppend entries) ∈ cs :=
          hcancel.subset (by simp)
        exact hkeep _ hmem ent hent hholds
      · intro hbehind
        have hsafe := hbehind hge hprev
        refine ((hall.kept.trans hkept).trans (.trans ?_ (.push hresp.1))).keepsCommitted
        obtain ⟨-, heq⟩ | ⟨-, heq⟩ := hcase
        · rw [heq]
          exact .refl _ _
        · rw [heq]
          exact doAppendEntries_kept hsafe
    · refine ⟨fun _ _ h => absurd h hprev, fun _ => ?_⟩
      push Not at hprev
      obtain ⟨prev, hmem, hnot⟩ := hprev
      obtain rfl : prevLogId = some prev := hmem
      have hno : (e.updateVote now vote).1.state.hasLogId prev = false := by simpa using hnot
      rw [appendEntries_conflict hge hno]
      have htrunc := truncateLogs_kept hall.kept hall.consecutive (nextIndex_le_of_not_hasLogId hno)
      exact ((hall.kept.trans htrunc).trans (.push hresp.1)).keepsCommitted
  · refine ⟨fun _ h => absurd h hge, fun _ => ?_⟩
    rw [appendEntries_rejected (by simpa using hge)]
    exact (Kept.push hresp.1).keepsCommitted

theorem purge_refAt {l : LogIds NID} (hcons : l.Consecutive) (upto : LogId NID) {i : Nat}
    {x : LogId NID} (hx : l.refAt i = some x) (hi : upto.index < i) :
    (l.purge upto).refAt i = some x := by
  rcases LogIds.refAt_purge upto hx hi with h | h
  · exact h
  · have := hcons.lt_nextIndex hx
    omega

/-- `purge_log` pushes at most one command, and keeps what is behind `purge_upto`. -/
theorem purgeLog_spec {upto : LogId NID} (hupto : e.state.purgeUpto = some upto)
    (hcons : e.state.logIds.Consecutive) :
    (∀ i x, e.state.getLogId i = some x → upto.index < i → e.purgeLog.state.getLogId i = some x) ∧
      ∃ cs, e.purgeLog.output.commands = e.output.commands ++ cs ∧
        ∀ c ∈ cs, c = .purgeLog upto := by
  unfold purgeLog
  rw [hupto]
  dsimp only
  split
  · exact ⟨fun _ _ h _ => h, [], by simp, by simp⟩
  · refine ⟨fun i x hx hi => ?_, [.purgeLog upto], rfl, by simp⟩
    exact purge_refAt hcons upto hx hi

theorem acceptSnapshot_spec (e : Engine NID N D) (io : LogIOId NID) (snapshot : Snapshot NID N D)
    (last : LogId NID) :
    (e.acceptSnapshot io snapshot last).state.logIds = e.state.logIds ∧
    (e.acceptSnapshot io snapshot last).state.purgeUpto = some last ∧
    (e.acceptSnapshot io snapshot last).output.commands =
      e.output.commands ++ [.stateMachine (.installFullSnapshot io snapshot)] :=
  ⟨(acceptLogIo_spec e (.log io)).1, rfl, rfl⟩

omit [LinearOrder NID] in
theorem truncateLogs_consecutive (hcons : e.state.logIds.Consecutive) (since : Nat) :
    (e.truncateLogs since).state.logIds.Consecutive := by
  unfold truncateLogs
  split
  · exact hcons
  · exact hcons.truncate since

/-- A snapshot that is taken over: the log is truncated behind `local_committed` and purged into
    the snapshot. -/
theorem acceptSnapshot_keepsCommitted {base : Engine NID N D} (h : Kept base.state base e)
    (hcons : e.state.logIds.Consecutive) {io : LogIOId NID} {snapshot : Snapshot NID N D}
    {last : LogId NID} (hlast : snapshot.snapshotMeta.lastLogId = some last)
    {resp : Command NID N D} (hresp : resp.KeepsCommitted base.state []) :
    base.KeepsCommitted
      ((((e.truncateForSnapshot last).acceptSnapshot io snapshot last).purgeLog).pushCommand
        resp) := by
  have htrunc : Kept base.state e (e.truncateForSnapshot last) ∧
      (e.truncateForSnapshot last).state.logIds.Consecutive := by
    unfold truncateForSnapshot
    split
    · split
      · exact ⟨.refl _ _, hcons⟩
      · exact ⟨truncateLogs_kept h hcons le_rfl, truncateLogs_consecutive hcons _⟩
    · exact ⟨.refl _ _, hcons⟩
  obtain ⟨hkept, hcons3⟩ := htrunc
  obtain ⟨hids, hupto, hcmds⟩ := acceptSnapshot_spec (e.truncateForSnapshot last) io snapshot last
  obtain ⟨hlog, cs5, hcmds5, hcs5⟩ := purgeLog_spec hupto (by rw [hids]; exact hcons3)
  obtain ⟨cs, hperm, hkeep⟩ := (h.trans hkept).commands
  have hinstalls : Installs (cs ++ ([.stateMachine (.installFullSnapshot io snapshot)] ++
      (cs5 ++ [resp]))) last := ⟨io, snapshot, by simp, hlast⟩
  refine ⟨cs ++ ([.stateMachine (.installFullSnapshot io snapshot)] ++ (cs5 ++ [resp])), ?_, ?_,
    ?_⟩
  · show (_ ++ [resp]).Perm _
    rw [hcmds5, hcmds, ← List.append_assoc, List.append_assoc, List.append_assoc]
    exact hperm.append_right _
  · intro c hc
    simp only [List.mem_append, List.mem_singleton] at hc
    rcases hc with hc | rfl | hc | rfl
    · exact (hkeep c hc).mono
    · trivial
    · rw [hcs5 c hc]
      exact hinstalls
    · exact hresp.mono
  · intro i hi
    obtain ⟨x, hx⟩ := Option.isSome_iff_exists.1 hi.2
    rcases Nat.lt_or_ge last.index i with hlt | hge
    · left
      rw [hx]
      refine hlog i x ?_ hlt
      unfold RaftState.getLogId
      rw [hids]
      exact (h.trans hkept).log i hi x hx
    · exact Or.inr ⟨last, hinstalls, hge⟩

/-- A request to install a snapshot is harmless. -/
theorem handleInstallFullSnapshot_keepsCommitted (hcons : e.state.logIds.Consecutive) {now : Nat}
    {ctx : StreamCtx NID} {vote : Vote NID} {snapshot : Snapshot NID N D}
    (h : e.handleInstallFullSnapshot now ctx vote snapshot = some e') : e.KeepsCommitted e' := by
  have hall := updateVote_keptAll hcons now vote
  unfold handleInstallFullSnapshot at h
  generalize e.updateVote now vote = r at *
  obtain ⟨e1, ok⟩ := r
  cases ok with
  | false =>
    obtain rfl := Option.some.inj h
    exact (hall.kept.trans (.push (by trivial))).keepsCommitted
  | true =>
    obtain ⟨⟨e2, cond⟩, hinst, rfl⟩ := Option.map_eq_some_iff.1 h
    unfold installFullSnapshot at hinst
    dsimp only at hinst
    split at hinst
    · obtain ⟨rfl, rfl⟩ := Prod.mk.inj (Option.some.inj hinst)
      exact (hall.kept.trans (.push (by trivial))).keepsCommitted
    rename_i last hlast
    split at hinst
    · obtain ⟨rfl, rfl⟩ := Prod.mk.inj (Option.some.inj hinst)
      exact (hall.kept.trans (.push (by trivial))).keepsCommitted
    split at hinst
    · cases hinst
    split at hinst
    · cases hinst
    have hup : Kept e.state e1 (e1.updateSnapshot snapshot.snapshotMeta).1 ∧
        (e1.updateSnapshot snapshot.snapshotMeta).1.state.logIds = e1.state.logIds := by
      unfold updateSnapshot
      split
      · exact ⟨.refl _ _, rfl⟩
      · exact ⟨.of_eq rfl rfl rfl (List.append_nil _).symm (by simp), rfl⟩
    split at hinst
    · obtain ⟨rfl, rfl⟩ := Prod.mk.inj (Option.some.inj hinst)
      exact ((hall.kept.trans hup.1).trans (.push (by trivial))).keepsCommitted
    · obtain ⟨rfl, rfl⟩ := Prod.mk.inj (Option.some.inj hinst)
      exact acceptSnapshot_keepsCommitted (hall.kept.trans hup.1)
        (by rw [hup.2]; exact hall.consecutive) hlast trivial

namespace Overwritten

/-- Three entries of term 1, all applied. -/
def entries : List (Entry (Fin 3) Unit Nat) :=
  [Three.firstEntry, ⟨⟨⟨1, none⟩, 1⟩, .blank⟩, ⟨⟨⟨1, none⟩, 2⟩, .normal 7⟩]

/-- The engine of node 1 on this log. -/
def follower : Engine (Fin 3) Unit Nat :=
  (Node.start (Three.config true 1) 0 [] 0 ⟨some ⟨⟨1, 0⟩, true⟩, none, none, entries, []⟩
    ⟨entries, none⟩ |>.map Node.engine).get (by decide +kernel)

/-- A request of the leader of term 2: behind the log, an entry at index 3 and one at index 1. -/
def request : Engine (Fin 3) Unit Nat :=
  follower.handleAppendEntries 0 ⟨2, 0, ⟨2, 2⟩, 1, 1, false, none, 0⟩ ⟨⟨2, 2⟩, true⟩
    (some ⟨⟨1, none⟩, 2⟩) [⟨⟨⟨2, none⟩, 3⟩, .blank⟩, ⟨⟨⟨2, none⟩, 1⟩, .normal 8⟩]

theorem follower_consecutive : follower.state.logIds.Consecutive := by
  have hids : follower.state.logIds = ⟨none, entries.map Entry.logId⟩ := by rfl
  rw [hids]
  intro i x hx
  have hall : ∀ i < 3, ∀ x ∈ (entries.map Entry.logId)[i]?, x.index = i := by decide +kernel
  have hlt : i < 3 := (List.getElem?_eq_some_iff.1 hx).1
  have := hall i hlt x hx
  show x.index = 0 + i
  omega

end Overwritten

end Engine

end ZenohRaft
