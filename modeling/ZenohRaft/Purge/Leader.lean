/-
  Purges on a leader: what is in flight, what is scheduled and what is still stored.

  `Engine.Leads e H B l` is the invariant of a leader `l` whose log has had the ids `H`: the cursors
  are in order, every entry of the progress is in order (`ItemOK`), and the purges that wait in
  the command queue are of ids before the log. Every handler of a leader keeps it.
-/
import ZenohRaft.Lib.PartialRun
import ZenohRaft.Purge.Inflight
import ZenohRaft.Cluster

namespace ZenohRaft

open Lib

variable {NID N D : Type} [LinearOrder NID]

namespace Engine

/-- A leader whose log has had the ids `H`. Its store is purged below the index `B`. -/
structure Leads (e : Engine NID N D) (H : List (LogId NID)) (B : Nat)
    (l : Leader NID N) : Prop where
  leader : e.leader = some l
  full : FullLog H
  tail : e.state.logIds.TailOf H
  cursors : e.state.Cursors
  last : nextIndex l.lastLogId = H.length
  newest : ∀ x ∈ H, x.leaderId ≤ l.committedVote.toCommitted e.config.mode
  progress : l.progress.Each (ItemOK H e.state.logIds.firstIndex) (InLogOpt H)
  flushed : InLogOpt H e.state.ioState.snapshot.flushed
  stored : B ≤ e.state.logIds.firstIndex
  commands : ∀ upto, Command.purgeLog upto ∈ e.output.commands →
    InLog H upto ∧ upto.index < e.state.logIds.firstIndex

/-- The leader goes on, with the log it had or a longer one. -/
def GoesOn (e : Engine NID N D) (H : List (LogId NID)) (B : Nat) : Prop :=
  ∃ H' l, H <+: H' ∧ e.state.logIds.firstIndex ≤ H.length ∧ Leads e H' B l

variable {e e' : Engine NID N D} {H : List (LogId NID)} {B : Nat} {l l' : Leader NID N}

namespace Leads

/-- A step that leaves the log alone. -/
theorem step (h : Leads e H B l) (hconfig : e'.config = e.config)
    (hlog : e'.state.logIds = e.state.logIds) (hcursors : e'.state.Cursors)
    (hflushed : e'.state.ioState.snapshot.flushed = e.state.ioState.snapshot.flushed)
    (hcmds : ∀ upto, Command.purgeLog upto ∈ e'.output.commands →
      Command.purgeLog upto ∈ e.output.commands)
    (hleader : e'.leader = some l') (hlast : l'.lastLogId = l.lastLogId)
    (hvote : l'.committedVote = l.committedVote)
    (hprogress : l'.progress.Each (ItemOK H e.state.logIds.firstIndex) (InLogOpt H)) :
    Leads e' H B l' := by
  refine ⟨hleader, h.full, ?_, hcursors, ?_, ?_, ?_, ?_, ?_, ?_⟩
  · rw [hlog]
    exact h.tail
  · rw [hlast]
    exact h.last
  · rw [hvote, hconfig]
    exact h.newest
  · rw [hlog]
    exact hprogress
  · rw [hflushed]
    exact h.flushed
  · rw [hlog]
    exact h.stored
  · intro upto hupto
    rw [hlog]
    exact h.commands upto (hcmds upto hupto)

/-- The progress of the leader changes. -/
theorem withProgress (h : Leads e H B l)
    {p : VecProgress NID (Membership NID N) (Option (LogId NID)) (ProgressData NID)}
    (hp : p.Each (ItemOK H e.state.logIds.firstIndex) (InLogOpt H)) :
    Leads { e with leader := some { l with progress := p } } H B { l with progress := p } :=
  h.step rfl rfl h.cursors rfl (fun _ hc => hc) rfl rfl rfl hp

/-- A command that is not a purge. -/
theorem pushCommand (h : Leads e H B l) {c : Command NID N D} (hc : ∀ upto, c ≠ .purgeLog upto) :
    Leads (e.pushCommand c) H B l := by
  refine h.step rfl rfl h.cursors rfl (fun upto hupto => ?_) h.leader rfl rfl h.progress
  rcases List.mem_append.1 hupto with hold | hnew
  · exact hold
  · exact absurd (List.mem_singleton.1 hnew).symm (hc upto)

theorem acceptLogIo (h : Leads e H B l) (io : IOId NID) : Leads (e.acceptLogIo io) H B l := by
  have heq := RaftState.acceptLogIo_eq e.config.mode e.state io
  refine h.step rfl ?_ ?_ ?_ (fun _ hc => hc) h.leader rfl rfl h.progress
  · exact (congrArg RaftState.logIds heq).trans rfl
  · show RaftState.Cursors (e.state.acceptLogIo e.config.mode io)
    rw [heq]
    exact h.cursors.congr rfl rfl rfl rfl
  · exact (congrArg (fun s => s.ioState.snapshot.flushed) heq).trans rfl

theorem goesOn (h : Leads e H B l) : GoesOn e H B :=
  ⟨H, l, List.prefix_rfl, h.tail.firstIndex_le, h⟩

/-! ### Purges -/

theorem purges (h : Leads e H B l) (hp : Purges e e') : Leads e' H B l := by
  cases hp with
  | refl => exact h
  | @purge x hx hlt hfree =>
    have hin : InLog H x := ((h.tail.has_iff h.full).1 (h.cursors.purgeUpto x hx)).1
    have hfirst : e.state.logIds.firstIndex ≤ x.index := by
      have hnot : ¬ nextIndex (some x) ≤ nextIndex e.state.logIds.purged := fun hle =>
        absurd ((h.full.le_iff hin.opt h.tail.purged).2 hle) (not_le.2 hlt)
      rw [nextIndex_some] at hnot
      show nextIndex e.state.logIds.purged ≤ x.index
      omega
    have hnew : (e.state.logIds.purge x).firstIndex = x.index + 1 := by
      unfold LogIds.firstIndex
      rw [LogIds.purged_purge hfirst]
      rfl
    refine ⟨h.leader, h.full, h.tail.purge h.full hin hfirst, h.cursors.purge hx, h.last,
      h.newest, ⟨fun item hitem => ?_, h.progress.accepted⟩, h.flushed, ?_, fun upto hupto => ?_⟩
    · show ItemOK H (e.state.logIds.purge x).firstIndex item
      rw [hnew]
      exact (h.progress.entries item hitem).purge h.full hin (hfree l h.leader item hitem)
    · have hstored := h.stored
      show B ≤ (e.state.logIds.purge x).firstIndex
      omega
    · show InLog H upto ∧ upto.index < (e.state.logIds.purge x).firstIndex
      rw [hnew]
      rcases List.mem_append.1 hupto with hold | hlast
      · obtain ⟨hin', hlt'⟩ := h.commands upto hold
        exact ⟨hin', by omega⟩
      · obtain rfl := Command.purgeLog.inj (List.mem_singleton.1 hlast)
        exact ⟨hin, by omega⟩

theorem tryPurgeLog (h : Leads e H B l) : Leads e.tryPurgeLog H B l :=
  h.purges (tryPurgeLog_purges e)

theorem triggerPurgeLog (h : Leads e H B l) (index : Nat) :
    ∃ e', e.triggerPurgeLog index = some e' ∧ Leads e' H B l := by
  obtain ⟨e', he', -, -, rfl | ⟨x, hcx, hp⟩⟩ := triggerPurgeLog_spec h.cursors index
  · exact ⟨_, he', h⟩
  · have hx : Leads (e.updatePurgeUpto x) H B l :=
      h.step rfl rfl hcx rfl (fun _ hc => hc) h.leader rfl rfl h.progress
    exact ⟨e', he', hx.purges hp⟩

theorem onBuildingSnapshotDone (h : Leads e H B l) {m : SnapshotMeta NID N} (hb : BuildOK e m)
    (hm : InLogOpt H m.lastLogId) : Leads (e.onBuildingSnapshotDone m) H B l := by
  obtain ⟨e', htakes, hc', hp, -⟩ := onBuildingSnapshotDone_spec h.cursors hb
  have hleads : Leads e' H B l := by
    refine ⟨?_, h.full, ?_, hc', h.last, ?_, ?_, ?_, ?_, ?_⟩
    · rw [htakes.leader]
      exact h.leader
    · rw [htakes.logIds]
      exact h.tail
    · rw [htakes.config]
      exact h.newest
    · rw [htakes.logIds]
      exact h.progress
    · rcases htakes.flushed with heq | heq
      · rw [heq]
        exact h.flushed
      · rw [heq]
        exact hm
    · rw [htakes.logIds]
      exact h.stored
    · rw [htakes.logIds, htakes.output]
      exact h.commands
  exact hleads.purges hp

/-! ### Progress -/

theorem updateLocalCommitted_log (s : RaftState NID N) (c : Option (LogId NID)) :
    (s.updateLocalCommitted c).logIds = s.logIds ∧
      (s.updateLocalCommitted c).ioState.snapshot.flushed = s.ioState.snapshot.flushed := by
  unfold RaftState.updateLocalCommitted
  split
  · exact ⟨rfl, rfl⟩
  · split
    · exact ⟨rfl, rfl⟩
    · exact ⟨rfl, rfl⟩

theorem tryUpdateClusterCommitted_cursors (mode : LeaderIdMode) (s : IOState NID)
    (new : LogIOId NID) :
    (s.tryUpdateClusterCommitted mode new).applyProgress = s.applyProgress ∧
      (s.tryUpdateClusterCommitted mode new).snapshot = s.snapshot := by
  unfold IOState.tryUpdateClusterCommitted
  split
  · exact ⟨rfl, rfl⟩
  · exact ⟨rfl, rfl⟩

theorem tryCommitQuorumAccepted (h : Leads e H B l) {granted : Option (LogId NID)}
    (hg : InLogOpt H granted) : Leads (e.tryCommitQuorumAccepted granted) H B l := by
  obtain ⟨s, hs⟩ : ∃ s, s = ({ e.state with
    ioState := e.state.ioState.tryUpdateClusterCommitted e.config.mode
      ⟨e.state.voteRef.leaderId, granted⟩ } : RaftState NID N) := ⟨_, rfl⟩
  have hleads : Leads { e with state := s.updateLocalCommitted granted } H B l := by
    have hsame := tryUpdateClusterCommitted_cursors e.config.mode e.state.ioState
      ⟨e.state.voteRef.leaderId, granted⟩
    have hcs : s.Cursors := by
      rw [hs]
      exact h.cursors.congr rfl rfl rfl (congrArg IOProgress.accepted hsame.1)
    have hflushed : s.ioState.snapshot.flushed = e.state.ioState.snapshot.flushed := by
      rw [hs]
      exact congrArg IOProgress.flushed hsame.2
    have hlog : s.logIds = e.state.logIds := by rw [hs]
    obtain ⟨hlog', hflushed'⟩ := updateLocalCommitted_log s granted
    refine h.step rfl (hlog'.trans hlog) (hcs.updateLocalCommitted ?_) (hflushed'.trans hflushed)
      (fun _ hc => hc) h.leader rfl rfl h.progress
    intro x hx hlt
    -- what is committed next is behind what is committed, and hence not purged
    have htail : s.logIds.TailOf H := by
      rw [hlog]
      exact h.tail
    have hle := (h.full.le_iff (htail.inLogOpt h.full hcs.committed) (hg x hx).opt).1 hlt.le
    have hfirst : s.logIds.firstIndex ≤ nextIndex s.localCommitted :=
      hcs.purged_le.trans hcs.purgeUpto_le_committed
    exact ⟨(htail.has_iff h.full).2 ⟨hg x hx, hfirst.trans hle⟩, hle⟩
  unfold Engine.tryCommitQuorumAccepted
  dsimp only
  rw [← hs]
  split
  · exact h
  split
  · exact hleads.pushCommand fun _ hc => by cases hc
  · exact hleads

/-- One entry of the progress is replaced, and what a quorum has accepted is committed. -/
theorem updateEntry (h : Leads e H B l) {target : NID} {f : ProgressEntry NID → ProgressEntry NID}
    {found : Bool} {p : VecProgress NID (Membership NID N) (Option (LogId NID)) (ProgressData NID)}
    (hf : ∀ item, l.progress.tryGet target = some item →
      ItemOK H e.state.logIds.firstIndex item → ItemOK H e.state.logIds.firstIndex (f item))
    (hu : l.progress.updateEntryWith target f = some (found, p)) :
    Leads ({ e with leader := some { l with progress := p } }.tryCommitQuorumAccepted
      p.quorumAccepted) H B { l with progress := p } := by
  have hp := h.progress.updateEntryWith (fun x hx => hx.matching) hf hu
  exact (h.withProgress hp).tryCommitQuorumAccepted hp.accepted

theorem updateMatching (h : Leads e H B l) {target : NID} {matching : Option (LogId NID)}
    {inflightId : Option Nat} (hack : ∀ item, l.progress.tryGet target = some item →
      ItemOK.Acknowledges H item matching inflightId)
    (he : e.updateMatching l target matching inflightId = some e') : ∃ l', Leads e' H B l' := by
  unfold Engine.updateMatching at he
  split at he
  · cases he
  · obtain rfl := Option.some.inj he
    exact ⟨l, h⟩
  · rename_i p hu
    obtain rfl := Option.some.inj he
    exact ⟨_, h.updateEntry (fun x hx hok => hok.updateMatching (hack x hx)) hu⟩

theorem updateConflicting (h : Leads e H B l) (target : NID) (conflict : LogId NID)
    (inflightId : Option Nat) :
    ∃ l', Leads (e.updateConflicting l target conflict inflightId) H B l' :=
  ⟨_, h.withProgress (h.progress.resetEntryWith fun _ _ hok =>
    hok.updateConflicting e.config.allowLogReversion conflict.index inflightId)⟩

/-- The report of a replication task. -/
theorem updateProgress (h : Leads e H B l) {target : NID} {streamId : Nat}
    {result : ReplicationResult NID} {inflightId : Option Nat}
    (hack : ∀ matching, result = .matching matching → ∀ item,
      l.progress.tryGet target = some item → ItemOK.Acknowledges H item matching inflightId)
    (he : e.updateProgress l target streamId result inflightId = some e') :
    ∃ l', Leads e' H B l' := by
  unfold Engine.updateProgress at he
  split at he
  · obtain ⟨e1, he1, rfl⟩ := Option.map_eq_some_iff.1 he
    suffices hleads : ∃ l', Leads e1 H B l' by
      obtain ⟨l', hl'⟩ := hleads
      exact ⟨l', hl'.tryPurgeLog⟩
    cases result with
    | matching m => exact h.updateMatching (hack m rfl) he1
    | conflict logId =>
      obtain rfl := Option.some.inj he1
      exact h.updateConflicting target logId inflightId
    | error =>
      obtain rfl := Option.some.inj he1
      exact ⟨_, h.withProgress (h.progress.updateDataWith fun x _ hok =>
        hok.drop rfl hok.searching)⟩
  · obtain rfl := Option.some.inj he
    exact ⟨l, h⟩

/-- The leader reports what it has flushed itself. The range that it records for this is
    acknowledged at once. -/
theorem updateLocalProgress (h : Leads e H B l) {upto : Option (LogId NID)}
    (hupto : InLogOpt H upto)
    (he : e.updateLocalProgress l upto = some e') : ∃ l', Leads e' H B l' := by
  unfold Engine.updateLocalProgress at he
  cases upto with
  | none =>
    obtain rfl := Option.some.inj he
    exact ⟨l, h⟩
  | some u =>
    cases hget : l.progress.tryGet e.config.id with
    | none =>
      rw [hget] at he
      obtain rfl := Option.some.inj he
      exact ⟨l, h⟩
    | some entry =>
      rw [hget] at he
      dsimp only at he
      split at he
      · obtain rfl := Option.some.inj he
        exact ⟨l, h⟩
      unfold Engine.updateMatching at he
      rw [VecProgress.updateEntryWith_updateDataWith] at he
      split at he
      · cases he
      · rename_i p hu
        rw [VecProgress.tryGet_of_not_found hu] at hget
        cases hget
      · rename_i p hu
        obtain rfl := Option.some.inj he
        exact ⟨_, h.updateEntry (fun x _ hok => hok.flushed (hupto u rfl)) hu⟩

/-! ### Replication -/

omit [LinearOrder NID] in
theorem purgeLog_not_mem_sendToTarget (leaderVote : LeaderId NID) (target : NID)
    (inflight : Inflight NID) (upto : LogId NID) :
    Command.purgeLog upto ∉ sendToTarget (N := N) (D := D) leaderVote target inflight := by
  cases inflight with
  | none => simp [sendToTarget]
  | logs range id => simp [sendToTarget]
  | logsSince prev id => simp [sendToTarget]
  | snapshot id => simp [sendToTarget]

/-- The loop of `initiate_replication` numbers what it sends, and changes nothing else. -/
theorem initiateReplicationLoop_spec (config : EngineConfig NID) (leaderVote : LeaderId NID)
    (items : List (ProgressEntry NID)) {s : RaftState NID N} (hH : FullLog H)
    (htail : s.logIds.TailOf H) (hc : s.Cursors)
    (hitems : ∀ x ∈ items, ItemOK H s.logIds.firstIndex x) :
    ∃ items' n cmds, initiateReplicationLoop (D := D) config leaderVote items s =
        (items', { s with lastInflightId := n }, cmds) ∧
      (∀ x ∈ items', ItemOK H s.logIds.firstIndex x) ∧
      ∀ upto, Command.purgeLog upto ∉ cmds := by
  induction items generalizing s with
  | nil => exact ⟨[], s.lastInflightId, [], rfl, by simp, by simp⟩
  | cons item items ih =>
    have hitem := hitems item (by simp)
    have hrest : ∀ x ∈ items, ItemOK H s.logIds.firstIndex x := fun x hx =>
      hitems x (by simp [hx])
    unfold initiateReplicationLoop
    by_cases hid : item.id = config.id
    · rw [if_pos hid]
      obtain ⟨items', n, cmds, heq, hok, hcmds⟩ := ih htail hc hrest
      rw [heq]
      refine ⟨item :: items', n, cmds, rfl, fun x hx => ?_, hcmds⟩
      rcases List.mem_cons.1 hx with rfl | hx
      · exact hitem
      · exact hok x hx
    · rw [if_neg hid]
      obtain ⟨hsent, hstate⟩ := hitem.nextSend hH htail hc config.maxPayloadEntries
      rcases hnext : item.nextSend s config.maxPayloadEntries with ⟨item', s', inflight⟩
      rw [hnext] at hsent hstate
      dsimp only at hsent hstate ⊢
      have hs' : ∃ n, s' = { s with lastInflightId := n } := ⟨_, hstate⟩
      obtain ⟨n', rfl⟩ := hs'
      obtain ⟨items', n, cmds, heq, hok, hcmds⟩ :=
        ih (s := { s with lastInflightId := n' }) htail (hc.congr rfl rfl rfl rfl) hrest
      rw [heq]
      refine ⟨item' :: items', n, _, rfl, fun x hx => ?_, fun upto hupto => ?_⟩
      · rcases List.mem_cons.1 hx with rfl | hx
        · exact hsent
        · exact hok x hx
      · rcases List.mem_append.1 hupto with hin | hin
        · cases inflight with
          | none => simp at hin
          | some i => exact purgeLog_not_mem_sendToTarget _ _ _ upto hin
        · exact hcmds upto hin

theorem initiateReplication (h : Leads e H B l) : ∃ l', Leads (e.initiateReplication l) H B l' ∧
    (e.initiateReplication l).state.logIds = e.state.logIds := by
  unfold Engine.initiateReplication
  obtain ⟨items, n, cmds, heq, hok, hcmds⟩ := initiateReplicationLoop_spec (D := D) e.config
    l.committedVote l.progress.entries h.full h.tail h.cursors h.progress.entries
  rw [heq]
  refine ⟨_, h.step rfl rfl (h.cursors.congr rfl rfl rfl rfl) rfl (fun upto hupto => ?_) rfl rfl rfl
    ⟨hok, h.progress.accepted⟩, rfl⟩
  rcases List.mem_append.1 hupto with hin | hin
  · exact hin
  · exact absurd hin (hcmds upto)

theorem rebuildReplicationStreams (h : Leads e H B l) (closeOld : Bool) :
    ∃ l', Leads (e.rebuildReplicationStreams l closeOld) H B l' := by
  have hp : VecProgress.Each (ItemOK H e.state.logIds.firstIndex) (InLogOpt H)
      { l.progress with entries := l.progress.entries.map fun item : ProgressEntry NID =>
        if item.id ≠ e.config.id ∧ closeOld = true then
          { item with data := { item.data with inflight := .none } }
        else item } := by
    refine ⟨fun x hx => ?_, h.progress.accepted⟩
    obtain ⟨y, hy, rfl⟩ := List.mem_map.1 hx
    have hok := h.progress.entries y hy
    split
    · exact hok.drop rfl hok.searching
    · exact hok
  exact ⟨_, (h.withProgress hp).pushCommand fun _ hc => by cases hc⟩

theorem rebuildProgresses (h : Leads e H B l) : ∃ l', Leads (e.rebuildProgresses l) H B l' := by
  unfold Engine.rebuildProgresses
  refine ⟨_, h.step rfl rfl (h.cursors.congr rfl rfl rfl rfl) rfl (fun _ hc => hc) rfl rfl rfl ?_⟩
  have hlast : nextIndex e.state.lastLogId = H.length := h.tail.nextIndex_last h.full
  refine h.progress.upgradeQuorumSet (fun x hx => hx.matching) (fun id => ?_) InLogOpt.none
  exact ItemOK.empty id _ hlast.le

theorem withLeader (h : Leads e H B l) (f : Engine NID N D → Leader NID N → Engine NID N D) :
    e.withLeader f = f e l := by
  unfold Engine.withLeader
  rw [h.leader]

theorem appendMembership (h : Leads e H B l) (logId : LogId NID) (m : Membership NID N) :
    ∃ l', Leads (e.appendMembership l logId m) H B l' ∧
      (e.appendMembership l logId m).state.logIds = e.state.logIds := by
  have h1 : Leads { e with state := { e.state with
      membershipState := e.state.membershipState.append ⟨some logId, m⟩ } } H B l :=
    h.step rfl rfl (h.cursors.congr rfl rfl rfl rfl) rfl (fun _ hc => hc) h.leader rfl rfl
      h.progress
  obtain ⟨l2, h2⟩ := h1.rebuildProgresses
  obtain ⟨l3, h3⟩ := h2.rebuildReplicationStreams false
  unfold Engine.appendMembership
  dsimp only
  rw [h2.withLeader, h3.withLeader]
  exact h3.initiateReplication

/-! ### Appends -/

/-- The ids that a leader assigns continue its log. -/
theorem assignLogIds_spec (h : Leads e H B l) {count : Nat} {ids : LeaderLogIds NID}
    (ha : l.assignLogIds e.config.mode count = some (ids, l')) :
    l'.committedVote = l.committedVote ∧ l'.progress = l.progress ∧
      nextIndex l'.lastLogId = H.length + count ∧
      ids.toList = (List.range' H.length count).map fun i =>
        ⟨l.committedVote.toCommitted e.config.mode, i⟩ := by
  unfold Leader.assignLogIds at ha
  split at ha
  · cases ha
  · rename_i hcount
    obtain ⟨rfl, rfl⟩ := Prod.mk.inj (Option.some.inj ha)
    have hlast := h.last
    refine ⟨rfl, rfl, ?_, ?_⟩
    · show nextIndex l.lastLogId + count - 1 + 1 = _
      omega
    · unfold LeaderLogIds.toList
      dsimp only
      rw [hlast]
      congr 2
      omega

theorem leaderExtendLog_firstIndex (e : Engine NID N D) (l : Leader NID N)
    (entries : List (Entry NID N D)) :
    (e.leaderExtendLog l entries).state.logIds.firstIndex = e.state.logIds.firstIndex := by
  have heq := RaftState.acceptLogIo_eq e.config.mode { e.state with
    logIds := e.state.logIds.extend (entries.map Entry.logId) }
    (.newLogIo l.committedVote l.lastLogId)
  exact congrArg (fun s => s.logIds.firstIndex) heq

/-- New entries of the leader go to the log. -/
theorem leaderExtendLog (h : Leads e H B l) {count : Nat}
    (hvote : l'.committedVote = l.committedVote) (hprogress : l'.progress = l.progress)
    (hlast : nextIndex l'.lastLogId = H.length + count) {entries : List (Entry NID N D)}
    (hids : entries.map Entry.logId = (List.range' H.length count).map fun i =>
      ⟨l.committedVote.toCommitted e.config.mode, i⟩) :
    Leads (e.leaderExtendLog l' entries) (H ++ entries.map Entry.logId) B l' := by
  have hleader : ∀ x ∈ entries.map Entry.logId,
      x.leaderId = l.committedVote.toCommitted e.config.mode := by
    intro x hx
    rw [hids] at hx
    obtain ⟨i, -, rfl⟩ := List.mem_map.1 hx
    rfl
  have hlen : (entries.map Entry.logId).length = count := by
    rw [hids, List.length_map, List.length_range']
  have hfull : FullLog (H ++ entries.map Entry.logId) := by
    refine h.full.append (fun i x hx => ?_) ?_ fun x hx y hy => ?_
    · rw [hids, List.getElem?_map, Option.map_eq_some_iff] at hx
      obtain ⟨j, hj, rfl⟩ := hx
      obtain ⟨hi, rfl⟩ := List.getElem?_eq_some_iff.1 hj
      rw [List.getElem_range', Nat.one_mul]
    · rw [List.pairwise_iff_forall_sublist]
      intro x y hxy
      rw [hleader x (hxy.subset (by simp)), hleader y (hxy.subset (by simp))]
    · rw [hleader y hy]
      exact h.newest x hx
  have hpre : H <+: H ++ entries.map Entry.logId := List.prefix_append _ _
  have htail := h.tail.extend (entries.map Entry.logId)
  have hc := h.cursors.extend (htail.ordered hfull)
  have hextended : Leads { e with
      leader := some l'
      state := { e.state with logIds := e.state.logIds.extend (entries.map Entry.logId) } }
      (H ++ entries.map Entry.logId) B l' := by
    refine ⟨rfl, hfull, htail, hc, ?_, fun x hx => ?_, ?_, h.flushed.mono hpre, h.stored,
      fun upto hupto => ?_⟩
    · rw [hlast, List.length_append, hlen]
    · rw [hvote]
      rcases List.mem_append.1 hx with hold | hnew
      · exact h.newest x hold
      · exact (hleader x hnew).le
    · rw [hprogress]
      exact h.progress.imp (fun x hx => hx.mono hpre) fun a ha => ha.mono hpre
    · obtain ⟨hin, hlt⟩ := h.commands upto hupto
      exact ⟨(hin.opt.mono hpre) upto rfl, hlt⟩
  exact (hextended.acceptLogIo _).pushCommand fun _ hc => by cases hc

/-- `LeaderHandler::leader_append_entries`. -/
theorem leaderAppendEntries (h : Leads e H B l) (payloads : List (Payload NID N D)) :
    GoesOn (e.leaderAppendEntries l payloads) H B := by
  unfold Engine.leaderAppendEntries
  cases ha : l.assignLogIds e.config.mode payloads.length with
  | none => exact h.goesOn
  | some r =>
    obtain ⟨ids, l1⟩ := r
    obtain ⟨hvote, hprogress, hlast, hids⟩ := h.assignLogIds_spec ha
    dsimp only
    have hlen : ids.toList.length = payloads.length := by
      rw [hids, List.length_map, List.length_range']
    have hmap := map_logId_zipWith ids.toList payloads hlen
    obtain ⟨entries, hentries⟩ : ∃ entries, entries =
      List.zipWith (fun logId payload => (⟨logId, payload⟩ : Entry NID N D)) ids.toList payloads :=
      ⟨_, rfl⟩
    rw [← hentries] at hmap ⊢
    have h1 := h.leaderExtendLog hvote hprogress hlast (hmap.trans hids)
    -- what is left only rebuilds the progress and sends
    have hsend : ∀ {e2 : Engine NID N D} {l2}, Leads e2 (H ++ entries.map Entry.logId) B l2 →
        e2.state.logIds = (e.leaderExtendLog l1 entries).state.logIds →
        GoesOn (e2.withLeader Engine.initiateReplication) H B := by
      intro e2 l2 h2 hlog
      obtain ⟨l3, h3, hlog3⟩ := h2.initiateReplication
      rw [h2.withLeader]
      refine ⟨_, l3, List.prefix_append _ _, ?_, h3⟩
      rw [hlog3, hlog, leaderExtendLog_firstIndex]
      exact h.tail.firstIndex_le
    split
    · rename_i logId m _
      obtain ⟨l2, h2, hlog⟩ := h1.appendMembership logId m
      exact hsend h2 hlog
    · exact hsend h1 rfl

/-! ### The rest -/

theorem triggerSnapshot (h : Leads e H B l) : Leads e.triggerSnapshot H B l := by
  unfold Engine.triggerSnapshot
  split
  · exact h
  · have h1 : Leads { e with state := { e.state with
        ioState := { e.state.ioState with buildingSnapshot := true } } } H B l :=
      h.step rfl rfl (h.cursors.congr rfl rfl rfl rfl) rfl (fun _ hc => hc) h.leader rfl rfl
        h.progress
    exact h1.pushCommand fun _ hc => by cases hc

theorem transferLeader (h : Leads e H B l) (target : NID) :
    Leads (e.transferLeader l target) H B { l with transferTo := some target } := by
  have h1 : Leads { e with
      leader := some { l with transferTo := some target }
      state := { e.state with vote := e.state.vote.disableLease } } H B
      { l with transferTo := some target } :=
    h.step rfl rfl (h.cursors.congr rfl rfl rfl rfl) rfl (fun _ hc => hc) rfl rfl rfl h.progress
  exact h1.pushCommand fun _ hc => by cases hc

end Leads

end Engine

end ZenohRaft
