/-
  The two memberships that a follower remembers, along appended batches, truncations, commits and
  installed snapshots.

  `MembershipState` keeps the last membership of the log and the one before it, which it takes for
  committed as soon as another one follows. A leader appends a membership only when the previous
  one is committed in the cluster, so this is right; but `local_committed` of the follower may not
  have got there yet.

  * `effective_of_ops`: as long as no truncation drops an entry that is committed in the cluster,
    the effective membership is the last one of the snapshot and the log, the committed one is
    never ahead of it, and a truncation of it restores the one before.
  * `effective_truncated`: above `local_committed` there may be committed entries. A truncation of
    these leaves an effective membership that is not in the log any more.
-/
import ZenohRaft.Lib.PartialRun
import ZenohRaft.Log.Memory
import ZenohRaft.Log.Written
import ZenohRaft.Purge.Cursors
import ZenohRaft.Cluster

namespace ZenohRaft

open Lib MembershipState

variable {NID N D : Type} [LinearOrder NID]

instance [DecidableEq N] : DecidableEq (StoredMembership NID N)
  | ⟨x, m⟩, ⟨x', m'⟩ => decidable_of_iff (x = x' ∧ m = m') (by simp)

/-! ## A follower and its log -/

/-- A follower, the entries of its log, and the log ids that the cluster has committed so far. -/
structure FollowerLog (NID N D : Type) extends LoggedEngine NID N D where
  committed : List (LogId NID)

/-- What happens to a follower: its handlers that write the log or the memberships. And the
    cluster commits one more log id. -/
inductive FollowerOp (NID N D : Type) where
  | doAppendEntries (entries : List (Entry NID N D))
  | truncateLogs (since : Nat)
  | updateLocalCommitted (committed : Option (LogId NID))
  | installFullSnapshot (snapshot : Snapshot NID N D)
  | clusterCommit (logId : LogId NID)

namespace FollowerLog

/-- The follower after a handler. -/
def handled (f : FollowerLog NID N D) (e : Engine NID N D) : FollowerLog NID N D :=
  { f with toLoggedEngine := f.toLoggedEngine.after e }

/-- The follower after an operation. -/
def step (f : FollowerLog NID N D) : FollowerOp NID N D → Option (FollowerLog NID N D)
  | .doAppendEntries entries => some (f.handled (f.drained.doAppendEntries entries))
  | .truncateLogs since => some (f.handled (f.drained.truncateLogs since))
  | .updateLocalCommitted committed =>
    some (f.handled { f.drained with state := f.drained.state.updateLocalCommitted committed })
  | .installFullSnapshot snapshot =>
    (f.drained.installFullSnapshot snapshot).map fun (e, _) => f.handled e
  | .clusterCommit logId => some { f with committed := logId :: f.committed }

/-! ## The memberships of the snapshot and the log -/

/-- The membership of the snapshot. -/
def snapshotMembership (f : FollowerLog NID N D) : StoredMembership NID N :=
  f.engine.state.snapshotMeta.lastMembership

/-- The last membership of the snapshot and the log. -/
def lastMembership (f : FollowerLog NID N D) : StoredMembership NID N :=
  lastOf (f.snapshotMembership :: storedMemberships f.entries)

/-- The last membership of the snapshot and the log before an index. -/
def lastMembershipBefore (f : FollowerLog NID N D) (index : Nat) : StoredMembership NID N :=
  lastOf (f.snapshotMembership ::
    storedMemberships (f.entries.filter fun ent => decide (ent.logId.index < index)))

/-- A membership that the snapshot covers, or that the cluster has committed. -/
def IsCommitted (f : FollowerLog NID N D) (m : StoredMembership NID N) : Prop :=
  ∀ x ∈ m.logId, x.index < nextIndex f.engine.state.snapshotMeta.lastLogId ∨ x ∈ f.committed

instance (f : FollowerLog NID N D) (m : StoredMembership NID N) : Decidable (f.IsCommitted m) :=
  inferInstanceAs (Decidable (∀ x ∈ m.logId, _ ∨ _))

/-! ## What may happen -/

/-- When an operation may happen.

    * The entries of a batch follow the log, and each membership among them comes after one that
      is committed.
    * A truncation is above `local_committed`.
    * What is committed locally is in the log, and committed in the cluster up to there.
    * A snapshot of the leader covers what the cluster has committed. If it ends in the log, it
      has the last membership up to there; if not, it has one of its own, and the log has nothing
      that is committed from there on. -/
def Fits (f : FollowerLog NID N D) : FollowerOp NID N D → Prop
  | .doAppendEntries entries => entries ≠ [] ∧
      (f.engine.state.logIds.extend (entries.map Entry.logId)).Ordered ∧
      List.IsChain (fun m _ => f.IsCommitted m) (f.lastMembership :: storedMemberships entries)
  | .truncateLogs since => nextIndex f.engine.state.localCommitted ≤ since
  | .updateLocalCommitted committed => ∀ x ∈ committed,
      f.engine.state.localCommitted < some x → f.engine.state.logIds.Has x ∧
        ∀ ent ∈ f.entries, ent.logId.index ≤ x.index → ent.logId ∈ f.committed
  | .installFullSnapshot snapshot => ∀ last ∈ snapshot.snapshotMeta.lastLogId,
      f.engine.state.localCommitted < some last →
        last.leaderId ≤ f.engine.state.voteRef.leaderId.toCommitted f.engine.config.mode ∧
        nextIndex f.engine.state.localCommitted ≤ last.index ∧
        if f.engine.state.logIds.Has last then
          snapshot.snapshotMeta.lastMembership = f.lastMembershipBefore (last.index + 1)
        else snapshot.snapshotMeta.lastMembership.logId ≤ some last ∧
          nextIndex snapshot.snapshotMeta.lastMembership.logId ≤ last.index + 1 ∧
          ∀ ent ∈ f.entries, last.index ≤ ent.logId.index → ent.logId ∉ f.committed
  | .clusterCommit _ => True

/-- A truncation drops nothing that is committed in the cluster. -/
def SparesCommitted (f : FollowerLog NID N D) : FollowerOp NID N D → Prop
  | .truncateLogs since => ∀ ent ∈ f.entries, since ≤ ent.logId.index → ent.logId ∉ f.committed
  | _ => True

instance [DecidableEq N] (f : FollowerLog NID N D) :
    (op : FollowerOp NID N D) → Decidable (f.Fits op)
  | .doAppendEntries entries => inferInstanceAs (Decidable (¬ entries = [] ∧ _ ∧ _))
  | .truncateLogs since => inferInstanceAs (Decidable (_ ≤ since))
  | .updateLocalCommitted committed => inferInstanceAs (Decidable (∀ x ∈ committed, _ → _ ∧ _))
  | .installFullSnapshot snapshot => inferInstanceAs (Decidable
      (∀ last ∈ snapshot.snapshotMeta.lastLogId, _ → _ ∧ _ ∧ _))
  | .clusterCommit _ => isTrue trivial

instance (f : FollowerLog NID N D) : (op : FollowerOp NID N D) → Decidable (f.SparesCommitted op)
  | .truncateLogs _ => inferInstanceAs (Decidable (∀ ent ∈ f.entries, _ → _))
  | .doAppendEntries _ | .updateLocalCommitted _ | .installFullSnapshot _ | .clusterCommit _ =>
    isTrue trivial

/-! ## The invariant -/

/-- The memberships of the snapshot and the log. -/
def memberships (f : FollowerLog NID N D) : List (StoredMembership NID N) :=
  f.snapshotMembership :: storedMemberships f.entries

/-- The state of a follower agrees with its log. -/
structure Consistent (f : FollowerLog NID N D) : Prop where
  cursors : f.engine.state.Cursors
  ids : f.engine.state.logIds.ids = f.entries.map Entry.logId
  tracks : Tracks f.memberships f.engine.state.membershipState
  /-- the membership of the snapshot is not behind its end -/
  snapshot : f.snapshotMembership.logId ≤ f.engine.state.snapshotMeta.lastLogId ∧
    nextIndex f.snapshotMembership.logId ≤ nextIndex f.engine.state.snapshotMeta.lastLogId
  /-- what the log still has of the entries that the snapshot covers agrees with it -/
  covered : f.lastMembershipBefore (nextIndex f.engine.state.snapshotMeta.lastLogId) =
    f.snapshotMembership
  /-- what is taken for committed is committed in the cluster -/
  committed : f.IsCommitted f.engine.state.membershipState.committed

variable {f : FollowerLog NID N D}

/-- A node without a log. -/
theorem consistent_of_empty {e : Engine NID N D} (hlog : e.state.logIds = ⟨none, []⟩)
    (hmem : e.state.membershipState = ⟨.default, .default⟩)
    (hsnap : e.state.snapshotMeta = ⟨none, .default⟩) (hcom : e.state.localCommitted = none)
    (hupto : e.state.purgeUpto = none) : Consistent ⟨⟨e, []⟩, []⟩ := by
  have hnone : ∀ l : LogIds NID, l.HasOpt none := fun l y hy => by cases hy
  refine ⟨⟨?_, ?_, ?_, ?_, ?_, ?_, ?_⟩, ?_, ⟨?_, ?_⟩, ⟨?_, ?_⟩, ?_, ?_⟩
  · rw [hlog]
    exact ⟨fun i x hx => by simp at hx, by simp⟩
  · rw [hupto]
    exact hnone _
  · rw [hsnap]
    exact hnone _
  · rw [hcom]
    exact hnone _
  · rw [hlog, hupto]
  · rw [hupto, hsnap, hcom]
    exact le_rfl
  · rw [hsnap, hcom]
  · exact congrArg LogIds.ids hlog
  · show e.state.membershipState.effective = e.state.snapshotMeta.lastMembership
    rw [hmem, hsnap]
  · left
    show e.state.membershipState.committed = e.state.snapshotMeta.lastMembership
    rw [hmem, hsnap]
  · show e.state.snapshotMeta.lastMembership.logId ≤ _
    rw [hsnap]
    exact le_rfl
  · show nextIndex e.state.snapshotMeta.lastMembership.logId ≤ _
    rw [hsnap]
    exact le_rfl
  · rfl
  · intro x hx
    have hx : e.state.membershipState.committed.logId = some x := hx
    rw [hmem] at hx
    cases hx

omit [LinearOrder NID] in
theorem lastMembership_of_ne (h : storedMemberships f.entries ≠ []) :
    f.lastMembership = lastOf (storedMemberships f.entries) := by
  have happ : f.lastMembership = lastOf ([f.snapshotMembership] ++ storedMemberships f.entries) :=
    rfl
  rw [happ, lastOf_append_of_ne h]

namespace Consistent

theorem indexed (hf : f.Consistent) : IndexedFrom f.engine.state.logIds.firstIndex f.entries :=
  LogIds.indexedFrom_of_consecutive hf.ids hf.cursors.log.consecutive

/-- The entries of the log are those that `log_ids` has. -/
theorem has_of_mem (hf : f.Consistent) {ent : Entry NID N D} (hent : ent ∈ f.entries) :
    f.engine.state.logIds.Has ent.logId := by
  obtain ⟨i, hi⟩ := List.mem_iff_getElem?.1 hent
  have hindex := hf.indexed i ent hi
  refine (LogIds.has_iff hf.cursors.log.consecutive).2 (Or.inr ⟨by omega, ?_⟩)
  rw [hf.ids]
  exact List.mem_map_of_mem hent

/-- The memberships before an index and from it on. -/
theorem split (hf : f.Consistent) (n : Nat) : storedMemberships f.entries =
    storedMemberships (f.entries.filter fun ent => decide (ent.logId.index < n)) ++
      storedMemberships (f.entries.filter fun ent => decide (n ≤ ent.logId.index)) := by
  rw [hf.indexed.filter_lt n, hf.indexed.filter_ge n]
  exact storedMemberships_take_drop _ _

theorem snapshot_le_committed (hf : f.Consistent) :
    nextIndex f.snapshotMembership.logId ≤ nextIndex f.engine.state.localCommitted :=
  hf.snapshot.2.trans hf.cursors.snapshot_le

/-- The two parts, when the index is behind the snapshot. -/
theorem splitAt (hf : f.Consistent) {n : Nat}
    (hn : nextIndex f.engine.state.snapshotMeta.lastLogId ≤ n) :
    SplitAt n (f.snapshotMembership ::
        storedMemberships (f.entries.filter fun ent => decide (ent.logId.index < n)))
      (storedMemberships (f.entries.filter fun ent => decide (n ≤ ent.logId.index))) := by
  constructor
  · intro m hm
    rcases List.mem_cons.1 hm with rfl | hm
    · exact hf.snapshot.2.trans hn
    · obtain ⟨ent, hent, hid, -⟩ := exists_of_mem_storedMemberships hm
      have hlt := of_decide_eq_true (List.mem_filter.1 hent).2
      rw [hid, nextIndex_some]
      omega
  · intro m hm
    obtain ⟨ent, hent, hid, -⟩ := exists_of_mem_storedMemberships hm
    have hge := of_decide_eq_true (List.mem_filter.1 hent).2
    rw [hid, nextIndex_some]
    omega

theorem tracks_split (hf : f.Consistent) (n : Nat) :
    Tracks ((f.snapshotMembership ::
        storedMemberships (f.entries.filter fun ent => decide (ent.logId.index < n))) ++
      storedMemberships (f.entries.filter fun ent => decide (n ≤ ent.logId.index)))
      f.engine.state.membershipState := by
  rw [List.cons_append, ← hf.split n]
  exact hf.tracks

theorem hasOpt_of_mem (hf : f.Consistent) {m : StoredMembership NID N}
    (hm : m ∈ storedMemberships f.entries) : f.engine.state.logIds.HasOpt m.logId := by
  obtain ⟨ent, hent, hid, -⟩ := exists_of_mem_storedMemberships hm
  intro y hy
  obtain rfl : ent.logId = y := Option.some.inj (hid.symm.trans hy)
  exact hf.has_of_mem hent

/-- The last membership is behind every other one of the log. -/
theorem le_lastOf (hf : f.Consistent) {m : StoredMembership NID N}
    (hm : m ∈ storedMemberships f.entries) :
    m.logId ≤ (lastOf (storedMemberships f.entries)).logId ∧
      nextIndex m.logId ≤ nextIndex (lastOf (storedMemberships f.entries)).logId := by
  have hlast := lastOf_mem (List.ne_nil_of_mem hm)
  have hindex := nextIndex_le_lastOf (pairwise_storedMemberships hf.indexed) hm
  exact ⟨hf.cursors.log.le_of_nextIndex_le (hf.hasOpt_of_mem hm) (hf.hasOpt_of_mem hlast) hindex,
    hindex⟩

/-- The last membership is not before that of the snapshot. -/
theorem snapshot_le_last (hf : f.Consistent) :
    f.snapshotMembership.logId ≤ f.lastMembership.logId ∧
      nextIndex f.snapshotMembership.logId ≤ nextIndex f.lastMembership.logId := by
  obtain ⟨n, hn⟩ : ∃ n, n = nextIndex f.engine.state.snapshotMeta.lastLogId := ⟨_, rfl⟩
  have hsplit := hf.splitAt hn.ge
  by_cases hms : storedMemberships (f.entries.filter fun ent => decide (n ≤ ent.logId.index)) = []
  · -- the log has nothing that the snapshot does not cover
    have heq : f.lastMembership = f.snapshotMembership := by
      rw [← hf.covered, ← hn]
      unfold lastMembership lastMembershipBefore
      rw [hf.split n, hms, List.append_nil]
    rw [heq]
    exact ⟨le_rfl, le_rfl⟩
  · have hlt := hsplit.lt_nextIndex_lastOf hms
    rw [List.cons_append, ← hf.split n] at hlt
    have hlt : n < nextIndex f.lastMembership.logId := hlt
    have hmem : f.lastMembership ∈ storedMemberships f.entries := by
      have hne : storedMemberships f.entries ≠ [] := by
        rw [hf.split n]
        exact List.append_ne_nil_of_right_ne_nil _ hms
      rw [lastMembership_of_ne hne]
      exact lastOf_mem hne
    have hle := hf.cursors.log.le_of_nextIndex_le hf.cursors.snapshot (hf.hasOpt_of_mem hmem)
      (by omega)
    exact ⟨hf.snapshot.1.trans hle, hf.snapshot.2.trans (by omega)⟩

theorem mem_le_last (hf : f.Consistent) {m : StoredMembership NID N} (hm : m ∈ f.memberships) :
    m.logId ≤ f.lastMembership.logId ∧ nextIndex m.logId ≤ nextIndex f.lastMembership.logId := by
  rcases List.mem_cons.1 hm with rfl | hm
  · exact hf.snapshot_le_last
  · rw [lastMembership_of_ne (List.ne_nil_of_mem hm)]
    exact hf.le_lastOf hm

/-- The committed membership is not ahead of the effective one. -/
theorem committed_le (hf : f.Consistent) :
    f.engine.state.membershipState.committed.logId ≤
        f.engine.state.membershipState.effective.logId ∧
      nextIndex f.engine.state.membershipState.committed.logId ≤
        nextIndex f.engine.state.membershipState.effective.logId := by
  have heff : f.engine.state.membershipState.effective = f.lastMembership := hf.tracks.effective
  rcases hf.tracks.committed with hc | hc
  · have hc : f.engine.state.membershipState.committed = f.lastMembership := hc
    rw [heff, hc]
    exact ⟨le_rfl, le_rfl⟩
  · rw [heff, hc]
    by_cases hdrop : f.memberships.dropLast = []
    · rw [hdrop]
      exact ⟨Option.none_le, Nat.zero_le _⟩
    · exact hf.mem_le_last (List.dropLast_subset _ (lastOf_mem hdrop))

/-- What is taken for committed survives a truncation that spares what is committed. -/
theorem committed_before (hf : f.Consistent) {since : Nat} (hfits : f.Fits (.truncateLogs since))
    (hspares : f.SparesCommitted (.truncateLogs since)) :
    nextIndex f.engine.state.membershipState.committed.logId ≤ since := by
  have hfits : nextIndex f.engine.state.localCommitted ≤ since := hfits
  have hsnap : nextIndex f.engine.state.snapshotMeta.lastLogId ≤ since :=
    hf.cursors.snapshot_le.trans hfits
  have hmem : ∀ m ∈ f.memberships, f.IsCommitted m → nextIndex m.logId ≤ since := by
    intro m hm hcom
    rcases List.mem_cons.1 hm with rfl | hm
    · exact hf.snapshot.2.trans hsnap
    · obtain ⟨ent, hent, hid, -⟩ := exists_of_mem_storedMemberships hm
      rw [hid, nextIndex_some]
      by_contra hlt
      rcases hcom ent.logId hid with hcov | hin
      · omega
      · exact hspares ent hent (by omega) hin
  rcases hf.tracks.committed with hc | hc
  · refine hmem _ ?_ hf.committed
    rw [hc]
    exact lastOf_mem (List.cons_ne_nil _ _)
  · by_cases hdrop : f.memberships.dropLast = []
    · rw [hc, hdrop]
      exact Nat.zero_le _
    · refine hmem _ ?_ hf.committed
      rw [hc]
      exact List.dropLast_subset _ (lastOf_mem hdrop)

end Consistent

/-! ## Truncations -/

omit [LinearOrder NID] in
theorem filter_before {l : List (Entry NID N D)} {n since : Nat} (hn : n ≤ since) :
    (l.filter fun ent => decide (ent.logId.index < since)).filter
        (fun ent => decide (ent.logId.index < n)) =
      l.filter fun ent => decide (ent.logId.index < n) := by
  rw [List.filter_filter]
  refine List.filter_congr fun ent _ => ?_
  rw [Bool.eq_iff_iff, Bool.and_eq_true, decide_eq_true_eq, decide_eq_true_eq]
  omega

omit [LinearOrder NID] in
theorem committed_truncate (s : MembershipState NID N) (since : Nat) :
    (s.truncate since).committed = s.committed := by
  unfold MembershipState.truncate
  split
  · rfl
  · rfl

/-- `truncate_logs`: the log and the memberships are cut; if there is no log at `since`, there is
    nothing to cut. -/
theorem step_truncateLogs (hf : f.Consistent) {since : Nat}
    (hfits : f.Fits (.truncateLogs since)) :
    ∃ f', f.step (.truncateLogs since) = some f' ∧ f'.committed = f.committed ∧
      f'.entries = f.entries.filter (fun ent => decide (ent.logId.index < since)) ∧
      f'.engine.state = { f.engine.state with
        logIds := f.engine.state.logIds.truncate since
        membershipState := f.engine.state.membershipState.truncate since } := by
  have hfits : nextIndex f.engine.state.localCommitted ≤ since := hfits
  have hfirst : f.engine.state.logIds.firstIndex ≤ since :=
    (hf.cursors.purged_le.trans hf.cursors.purgeUpto_le_committed).trans hfits
  have hwritten := Engine.truncateLogs_written (e := f.drained) (l := f.entries) hf.ids
    hf.cursors.log.consecutive hfirst
  refine ⟨_, rfl, rfl, hwritten.1, ?_⟩
  show (f.drained.truncateLogs since).state = _
  have hids := hwritten.2
  unfold Engine.truncateLogs at hids ⊢
  cases hget : f.drained.state.getLogId since with
  | some x => rfl
  | none =>
    rw [hget] at hids
    have hids : f.engine.state.logIds = f.engine.state.logIds.truncate since := hids
    have heff : nextIndex f.engine.state.membershipState.effective.logId ≤ since := by
      rw [hf.tracks.effective]
      rcases List.mem_cons.1 (lastOf_mem (List.cons_ne_nil f.snapshotMembership
        (storedMemberships f.entries))) with heq | hmem
      · rw [memberships, heq]
        exact hf.snapshot_le_committed.trans hfits
      · obtain ⟨ent, hent, hid, -⟩ := exists_of_mem_storedMemberships hmem
        rw [memberships, hid, nextIndex_some]
        -- nothing of the log is from `since` on
        have hcut : ent.logId ∈ (f.engine.state.logIds.truncate since).ids := by
          rw [← hids, hf.ids]
          exact List.mem_map_of_mem hent
        exact of_decide_eq_true (List.mem_filter.1 hcut).2
    have hmem : f.engine.state.membershipState.truncate since =
        f.engine.state.membershipState := by
      unfold MembershipState.truncate
      rw [if_neg (by rw [some_le_optIndex]; omega)]
    rw [hmem, ← hids]
    rfl

/-- A truncation that spares what is committed. -/
theorem consistent_truncateLogs (hf : f.Consistent) {since : Nat}
    (hfits : f.Fits (.truncateLogs since)) (hspares : f.SparesCommitted (.truncateLogs since)) :
    ∃ f', f.step (.truncateLogs since) = some f' ∧ f'.Consistent ∧
      ∀ x, f.engine.state.membershipState.effective.logId = some x → since ≤ x.index →
        f'.engine.state.membershipState.effective = f.lastMembershipBefore x.index := by
  obtain ⟨f', hstep, hcommitted, hentries, hstate⟩ := step_truncateLogs hf hfits
  have hbefore := hf.committed_before hfits hspares
  have hfits : nextIndex f.engine.state.localCommitted ≤ since := hfits
  have hsnap : nextIndex f.engine.state.snapshotMeta.lastLogId ≤ since :=
    hf.cursors.snapshot_le.trans hfits
  have hkept : ∀ y, nextIndex y ≤ nextIndex f.engine.state.localCommitted →
      f.engine.state.logIds.HasOpt y → (f.engine.state.logIds.truncate since).HasOpt y := by
    intro y hle hy z hz
    rw [hz, nextIndex_some] at hle
    exact (hy z hz).truncate (by omega)
  have hsnapshot : f'.snapshotMembership = f.snapshotMembership := by
    unfold snapshotMembership
    rw [hstate]
  refine ⟨f', hstep, ⟨?_, ?_, ?_, ?_, ?_, ?_⟩, ?_⟩
  · rw [hstate]
    exact ⟨hf.cursors.log.truncate since,
      hkept _ hf.cursors.purgeUpto_le_committed hf.cursors.purgeUpto,
      hkept _ hf.cursors.snapshot_le hf.cursors.snapshot, hkept _ le_rfl hf.cursors.committed,
      hf.cursors.purged_le, hf.cursors.purgeUpto_le, hf.cursors.snapshot_le⟩
  · rw [hstate, hentries]
    show f.engine.state.logIds.ids.filter _ = _
    rw [hf.ids, List.filter_map]
    rfl
  · have htracks := (hf.tracks_split since).truncate (hf.splitAt hsnap) hbefore
    unfold memberships
    rw [hsnapshot, hentries, hstate]
    exact htracks
  · rw [hsnapshot, hstate]
    exact hf.snapshot
  · rw [hsnapshot, hstate]
    unfold lastMembershipBefore
    rw [hsnapshot, hentries, filter_before hsnap]
    exact hf.covered
  · intro x hx
    rw [hstate] at hx ⊢
    rw [hcommitted]
    refine hf.committed x ?_
    rw [← committed_truncate _ since]
    exact hx
  · intro x hx hle
    rw [hstate]
    have hlt : since < nextIndex f.engine.state.membershipState.effective.logId := by
      rw [hx, nextIndex_some]
      omega
    have heff : (f.engine.state.membershipState.truncate since).effective =
        f.engine.state.membershipState.committed := by
      unfold MembershipState.truncate
      rw [if_pos (some_le_optIndex.2 hlt)]
    refine heff.trans ?_
    -- nothing between the committed membership and the one that is dropped
    refine (hf.tracks_split x.index).committed_eq (hf.splitAt (hsnap.trans hle)) ?_
      (hbefore.trans hle)
    intro hnil
    have hsplit := hf.splitAt (hsnap.trans hle)
    have htracks := hf.tracks_split x.index
    rw [hnil, List.append_nil] at htracks
    have hend := hsplit.nextIndex_lastOf
    rw [← htracks.effective, hx, nextIndex_some] at hend
    omega

/-! ## Batches -/

omit [LinearOrder NID] in
/-- All but the last of some memberships that each come after a committed one are committed. -/
theorem isCommitted_of_isChain {P : StoredMembership NID N → Prop}
    {ms : List (StoredMembership NID N)} (h : List.IsChain (fun m _ => P m) ms)
    {m : StoredMembership NID N} (hm : m ∈ ms.dropLast) : P m := by
  induction ms with
  | nil => cases hm
  | cons a ms ih =>
    cases ms with
    | nil => cases hm
    | cons b ms =>
      obtain ⟨ha, hrest⟩ := List.isChain_cons_cons.1 h
      rw [List.dropLast_cons_of_ne_nil (List.cons_ne_nil b ms)] at hm
      rcases List.mem_cons.1 hm with rfl | hm
      · exact ha
      · exact ih hrest hm

omit [LinearOrder NID] in
/-- What is taken for committed after some memberships. -/
theorem committed_foldl_append {new : List (StoredMembership NID N)} (hnew : new ≠ [])
    (s : MembershipState NID N) :
    (new.foldl MembershipState.append s).committed ∈ (s.effective :: new).dropLast := by
  induction new generalizing s with
  | nil => exact absurd rfl hnew
  | cons m new ih =>
    rw [List.dropLast_cons_of_ne_nil (List.cons_ne_nil m new)]
    cases new with
    | nil => exact List.mem_cons_self
    | cons m' new => exact List.mem_cons_of_mem _ (ih (List.cons_ne_nil m' new) (s.append m))

theorem consistent_doAppendEntries (hf : f.Consistent) {new : List (Entry NID N D)}
    (hfits : f.Fits (.doAppendEntries new)) :
    ∃ f', f.step (.doAppendEntries new) = some f' ∧ f'.Consistent := by
  obtain ⟨-, hlog, hchain⟩ := hfits
  have hfold : (Engine.lastTwoMemberships new).foldl MembershipState.append
      f.engine.state.membershipState =
      (storedMemberships new).foldl MembershipState.append f.engine.state.membershipState :=
    foldl_append_lastTwo _ _
  obtain ⟨f', hf'⟩ : ∃ f', f' = f.handled (f.drained.doAppendEntries new) := ⟨_, rfl⟩
  have hentries : f'.entries = f.entries ++ new := by
    rw [hf']
    rfl
  have hmem : f'.engine.state.membershipState =
      (storedMemberships new).foldl MembershipState.append f.engine.state.membershipState := by
    rw [hf', ← hfold]
    rfl
  have hids : f'.engine.state.logIds =
      f.engine.state.logIds.extend (new.map Entry.logId) := by
    rw [hf']
    rfl
  have hmeta : f'.engine.state.snapshotMeta = f.engine.state.snapshotMeta := by
    rw [hf']
    rfl
  have hcommitted : f'.committed = f.committed := by
    rw [hf']
    rfl
  have hsnapshot : f'.snapshotMembership = f.snapshotMembership :=
    congrArg SnapshotMeta.lastMembership hmeta
  have hcursors : f'.engine.state.Cursors := by
    have hc := hf.cursors.extend hlog
    refine hc.congr hids ?_ hmeta ?_
    · rw [hf']
      rfl
    · rw [hf']
      rfl
  have hids' : f'.engine.state.logIds.ids = f'.entries.map Entry.logId := by
    rw [hids, hentries, List.map_append, ← hf.ids]
    rfl
  refine ⟨f', by rw [hf']; rfl, hcursors, hids', ?_, ?_, ?_, ?_⟩
  · have htracks := hf.tracks.foldl_append (storedMemberships new)
    unfold memberships at htracks ⊢
    rw [hsnapshot, hentries, hmem, storedMemberships_append, ← List.cons_append]
    exact htracks
  · rw [hsnapshot, hmeta]
    exact hf.snapshot
  · -- the snapshot covers nothing of a batch
    have hnone : new.filter (fun ent => decide
        (ent.logId.index < nextIndex f.engine.state.snapshotMeta.lastLogId)) = [] := by
      rw [List.filter_eq_nil_iff]
      intro ent hent
      have hindex := LogIds.indexedFrom_of_consecutive hids' hcursors.log.consecutive
      rw [hids, hentries] at hindex
      obtain ⟨i, hi⟩ := List.mem_iff_getElem?.1 hent
      have hi := (indexedFrom_append.1 hindex).2 i ent hi
      have hi : ent.logId.index = f.engine.state.logIds.firstIndex + f.entries.length + i := hi
      have hlen := hf.cursors.log.consecutive.nextIndex_last
      rw [hf.ids, List.length_map] at hlen
      have hsnap := hf.cursors.snapshot_le_last
      simp only [decide_eq_true_eq, not_lt]
      omega
    rw [hsnapshot, hmeta]
    unfold lastMembershipBefore
    rw [hsnapshot, hentries, List.filter_append, hnone, List.append_nil]
    exact hf.covered
  · intro x hx
    rw [hmem] at hx
    rw [hmeta, hcommitted]
    by_cases hnew : storedMemberships new = []
    · rw [hnew] at hx
      exact hf.committed x hx
    · have hin := committed_foldl_append hnew f.engine.state.membershipState
      have heff : f.engine.state.membershipState.effective = f.lastMembership := hf.tracks.effective
      rw [heff] at hin
      exact isCommitted_of_isChain hchain hin x hx

/-! ## Commits -/

theorem consistent_updateLocalCommitted (hf : f.Consistent) {committed : Option (LogId NID)}
    (hfits : f.Fits (.updateLocalCommitted committed)) :
    ∃ f', f.step (.updateLocalCommitted committed) = some f' ∧ f'.Consistent := by
  have hcursors : (f.engine.state.updateLocalCommitted committed).Cursors := by
    refine hf.cursors.updateLocalCommitted fun x hx hlt => ?_
    have hhas := (hfits x hx hlt).1
    refine ⟨hhas, hf.cursors.log.nextIndex_le hf.cursors.committed ?_ hlt.le⟩
    intro y hy
    obtain rfl := Option.some.inj hy
    exact hhas
  refine ⟨_, rfl, ?_⟩
  have hcases : f.engine.state.updateLocalCommitted committed = f.engine.state ∨
      ∃ x ∈ committed, f.engine.state.localCommitted < some x ∧
        f.engine.state.updateLocalCommitted committed = { f.engine.state with
          ioState := { f.engine.state.ioState with
            applyProgress := f.engine.state.ioState.applyProgress.accept x }
          membershipState := f.engine.state.membershipState.commit (some x) } := by
    unfold RaftState.updateLocalCommitted
    cases committed with
    | none => exact Or.inl rfl
    | some x =>
      by_cases hlt : f.engine.state.localCommitted < some x
      · exact Or.inr ⟨x, rfl, hlt, if_pos hlt⟩
      · exact Or.inl (if_neg hlt)
  rcases hcases with hsame | ⟨x, hx, hlt, hstate⟩
  · have hd : f.drained.state.updateLocalCommitted committed = f.engine.state := hsame
    rw [hd]
    exact ⟨hf.cursors, hf.ids, hf.tracks, hf.snapshot, hf.covered, hf.committed⟩
  · have hd : f.drained.state.updateLocalCommitted committed = _ := hstate
    rw [hstate] at hcursors
    rw [hd]
    refine ⟨hcursors, hf.ids, hf.tracks.commit _, hf.snapshot, hf.covered, ?_⟩
    show f.IsCommitted (f.engine.state.membershipState.commit (some x)).committed
    unfold MembershipState.commit
    split
    · rename_i hle
      -- the effective membership is in the log up to the committed id
      intro y hy
      have hy : f.engine.state.membershipState.effective.logId = some y := hy
      have heff : f.engine.state.membershipState.effective ∈ f.memberships := by
        rw [hf.tracks.effective]
        exact lastOf_mem (List.cons_ne_nil _ _)
      rcases List.mem_cons.1 heff with heq | hmem
      · left
        have hsnap := hf.snapshot.2
        rw [← heq, hy, nextIndex_some] at hsnap
        omega
      · right
        obtain ⟨ent, hent, hid, -⟩ := exists_of_mem_storedMemberships hmem
        obtain rfl : ent.logId = y := Option.some.inj (hid.symm.trans hy)
        obtain ⟨hhas, hall⟩ := hfits x hx hlt
        rw [hid] at hle
        exact hall ent hent
          (hf.cursors.log.index_le_of_le (hf.has_of_mem hent) hhas (Option.some_le_some.1 hle.1))
    · exact hf.committed

/-! ## Snapshots -/

omit [LinearOrder NID] in
theorem lastOf_cons_lastOf (ms1 ms2 : List (StoredMembership NID N)) :
    lastOf (lastOf ms1 :: ms2) = lastOf (ms1 ++ ms2) := by
  by_cases hms2 : ms2 = []
  · rw [hms2, List.append_nil]
    rfl
  · have happ : lastOf (lastOf ms1 :: ms2) = lastOf ([lastOf ms1] ++ ms2) := rfl
    rw [happ, lastOf_append_of_ne hms2, lastOf_append_of_ne hms2]

/-- A snapshot that ends in the log takes the place of the memberships that it covers. -/
theorem tracks_installMembershipSnapshot {s : MembershipState NID N} {n : Nat}
    {ms1 ms2 : List (StoredMembership NID N)} (h : Tracks (ms1 ++ ms2) s)
    (hsplit : SplitAt (n + 1) ms1 ms2) (hord : ∀ m ∈ ms1, ∀ m' ∈ ms2, m.logId < m'.logId) :
    Tracks (lastOf ms1 :: ms2) (s.installMembershipSnapshot (lastOf ms1) n) := by
  obtain ⟨htracks, -⟩ := h.install hsplit hord
  refine ⟨by rw [htracks.effective, lastOf_cons_lastOf], ?_⟩
  by_cases hms2 : ms2 = []
  · left
    rw [hms2, List.append_nil] at h
    unfold MembershipState.installMembershipSnapshot
    rw [if_pos (by rw [h.effective, optIndex_le_some]; exact hsplit.nextIndex_lastOf), hms2]
    rfl
  · rw [List.dropLast_cons_of_ne_nil hms2, lastOf_cons_lastOf, lastOf_cons_lastOf,
      ← List.dropLast_append_of_ne_nil hms2]
    exact htracks.committed

/-- The end of `install_full_snapshot`: the memberships, and what is left of the log. -/
theorem acceptSnapshot_purgeLog {t : Engine NID N D} {last : LogId NID} (io : LogIOId NID)
    (snapshot : Snapshot NID N D) (hlt : t.state.logIds.purged < some last) :
    (t.acceptSnapshot io snapshot last).purgeLog.state.membershipState =
        t.state.membershipState.installMembershipSnapshot
          snapshot.snapshotMeta.lastMembership last.index ∧
      (t.acceptSnapshot io snapshot last).purgeLog.output.commands =
        t.output.commands ++
          [.stateMachine (.installFullSnapshot io snapshot), .purgeLog last] := by
  have heq := RaftState.acceptLogIo_eq t.config.mode t.state (.log io)
  have hids := (Engine.acceptSnapshot_cursors t io snapshot last).1
  have hmem : (t.acceptSnapshot io snapshot last).state.membershipState =
      t.state.membershipState.installMembershipSnapshot
        snapshot.snapshotMeta.lastMembership last.index :=
    congrArg (fun s => s.membershipState.installMembershipSnapshot
      snapshot.snapshotMeta.lastMembership last.index) heq
  have hpurge : (t.acceptSnapshot io snapshot last).purgeLog =
      Engine.pushCommand { t.acceptSnapshot io snapshot last with
        state := { (t.acceptSnapshot io snapshot last).state with
          logIds := (t.acceptSnapshot io snapshot last).state.logIds.purge last } }
        (.purgeLog last) := by
    have hupto : (t.acceptSnapshot io snapshot last).state.purgeUpto = some last := rfl
    unfold Engine.purgeLog
    rw [hupto]
    dsimp only
    rw [if_neg (by rw [hids]; exact not_le.2 hlt)]
  rw [hpurge]
  refine ⟨hmem, ?_⟩
  show (t.output.commands ++ [_]) ++ [_] = _
  rw [List.append_assoc]
  rfl

/-- A log that does not have the end of a snapshot has nothing from there on, after the truncation
    of `install_full_snapshot`. -/
theorem truncateForSnapshot_before (hf : f.Consistent) {last : LogId NID} {m : SnapshotMeta NID N}
    (hindex : nextIndex f.engine.state.localCommitted ≤ last.index)
    (hspares : f.SparesCommitted (.truncateLogs last.index))
    (hhas : ¬ f.engine.state.logIds.Has last) :
    ∃ t, ({ f.drained with state := { f.drained.state with snapshotMeta := m } } :
        Engine NID N D).truncateForSnapshot last = t ∧
      t.state.logIds.purged = f.engine.state.logIds.purged ∧
      nextIndex t.state.membershipState.effective.logId ≤ last.index + 1 ∧
      ∀ ent ∈ t.output.commands.foldl Command.writeLog f.entries, ent.logId.index ≤ last.index := by
  have hlog := hf.cursors.log
  have hfirst : f.engine.state.logIds.firstIndex ≤ nextIndex f.engine.state.localCommitted :=
    hf.cursors.purged_le.trans hf.cursors.purgeUpto_le_committed
  have heff : f.engine.state.membershipState.effective ∈ f.memberships := by
    rw [hf.tracks.effective]
    exact lastOf_mem (List.cons_ne_nil _ _)
  unfold Engine.truncateForSnapshot
  cases hget : f.engine.state.getLogId last.index with
  | none =>
    have hlast : nextIndex f.engine.state.logIds.last ≤ last.index := by
      by_contra hlt
      obtain ⟨x, hx⟩ := hlog.consecutive.exists_refAt (i := last.index) (by omega) (by omega)
      exact absurd (hget.symm.trans hx) (by simp)
    have hbefore : ∀ ent ∈ f.entries, ent.logId.index < last.index := fun ent hent =>
      ((hf.has_of_mem hent).index_lt hlog.consecutive).trans_le hlast
    have hget : RaftState.getLogId { f.drained.state with snapshotMeta := m } last.index = none :=
      hget
    dsimp only
    rw [hget]
    refine ⟨_, rfl, rfl, ?_, fun ent hent => (hbefore ent hent).le⟩
    show nextIndex f.engine.state.membershipState.effective.logId ≤ _
    rcases List.mem_cons.1 heff with heq | hmem
    · rw [heq]
      exact (hf.snapshot_le_committed.trans hindex).trans (Nat.le_succ _)
    · obtain ⟨ent, hent, hid, -⟩ := exists_of_mem_storedMemberships hmem
      have := hbefore ent hent
      rw [hid, nextIndex_some]
      omega
  | some x =>
    have hne : x ≠ last := fun heq => hhas (heq ▸ hget)
    have hlt := hlog.consecutive.lt_nextIndex hget
    obtain ⟨y, hy⟩ := hlog.consecutive.exists_refAt hfirst
      (show nextIndex f.engine.state.localCommitted < nextIndex f.engine.state.logIds.last by omega)
    have hprev := RaftState.nextIndex_prevLogId hlog.consecutive hfirst hy
    have hget : RaftState.getLogId { f.drained.state with snapshotMeta := m } last.index =
      some x := hget
    have hy : RaftState.getLogId { f.drained.state with snapshotMeta := m }
      (nextIndex (RaftState.localCommitted { f.drained.state with snapshotMeta := m })) =
        some y := hy
    dsimp only
    rw [hget]
    dsimp only
    rw [if_neg hne]
    unfold Engine.truncateLogs
    rw [hy]
    refine ⟨_, rfl, rfl, ?_, ?_⟩
    · show nextIndex (f.engine.state.membershipState.truncate
        (nextIndex f.engine.state.localCommitted)).effective.logId ≤ _
      have hcom := hf.committed_before hindex hspares
      unfold MembershipState.truncate
      split
      · exact hcom.trans (Nat.le_succ _)
      · rename_i hnot
        rw [some_le_optIndex] at hnot
        omega
    · intro ent hent
      have hent : ent ∈ f.entries.filter (fun ent => decide (ent.logId.index <
        nextIndex (f.engine.state.prevLogId (nextIndex f.engine.state.localCommitted)))) := hent
      have hlt := of_decide_eq_true (List.mem_filter.1 hent).2
      omega

/-- What `install_full_snapshot` leaves of the log and the memberships. If the log does not have
    the end of the snapshot, what is taken for committed ends before it and is dropped. -/
theorem step_installFullSnapshot (hf : f.Consistent) {snapshot : Snapshot NID N D}
    {last : LogId NID} (hlast : snapshot.snapshotMeta.lastLogId = some last)
    (hgt : f.engine.state.localCommitted < some last)
    (hfits : f.Fits (.installFullSnapshot snapshot)) :
    ∃ f', f.step (.installFullSnapshot snapshot) = some f' ∧ f'.committed = f.committed ∧
      Engine.Installs f.engine f'.engine snapshot last ∧
      if f.engine.state.logIds.Has last then
        f'.entries = f.entries.filter (fun ent => decide (last.index < ent.logId.index)) ∧
          f'.engine.state.membershipState =
            f.engine.state.membershipState.installMembershipSnapshot
              snapshot.snapshotMeta.lastMembership last.index
      else f'.entries = [] ∧ f'.engine.state.membershipState =
        ⟨snapshot.snapshotMeta.lastMembership, snapshot.snapshotMeta.lastMembership⟩ := by
  obtain ⟨hleader, hindex, hend⟩ := hfits last hlast hgt
  have hlog := hf.cursors.log
  have hfirst : f.engine.state.logIds.firstIndex ≤ nextIndex f.engine.state.localCommitted :=
    hf.cursors.purged_le.trans hf.cursors.purgeUpto_le_committed
  have hpurged : f.engine.state.logIds.purged < some last :=
    (hlog.le_of_nextIndex_le hlog.hasOpt_purged hf.cursors.committed hfirst).trans_lt hgt
  have hc : f.drained.state.Cursors := hf.cursors
  have heq := Engine.installFullSnapshot_eq hc hlast hgt hleader hindex
  obtain ⟨e', he', hinst⟩ := Engine.installFullSnapshot_spec hc hlast hgt hleader hindex
  obtain ⟨e1, he1⟩ : ∃ e1, e1 = ({ f.drained with state := { f.drained.state with
    snapshotMeta := snapshot.snapshotMeta } } : Engine NID N D) := ⟨_, rfl⟩
  rw [← he1] at heq
  have hsame : e' = ((e1.truncateForSnapshot last).acceptSnapshot
      ⟨f.drained.state.voteRef.leaderId, some last⟩ snapshot last).purgeLog :=
    congrArg Prod.fst (Option.some.inj (he'.symm.trans heq))
  have hstep : f.step (.installFullSnapshot snapshot) = some (f.handled e') := by
    show (f.drained.installFullSnapshot snapshot).map _ = _
    rw [he']
    rfl
  refine ⟨_, hstep, rfl, ⟨hinst.1, hinst.2, hinst.3, hinst.4, hinst.5⟩, ?_⟩
  -- what the truncation before it leaves
  have key : ∀ t, e1.truncateForSnapshot last = t → t.state.logIds.purged < some last →
      e'.state.membershipState = t.state.membershipState.installMembershipSnapshot
        snapshot.snapshotMeta.lastMembership last.index ∧
      (f.handled e').entries = (t.output.commands.foldl Command.writeLog f.entries).filter
        (fun ent => decide (last.index < ent.logId.index)) := by
    intro t ht hlt
    rw [hsame, ht]
    obtain ⟨hmem, hcmds⟩ := acceptSnapshot_purgeLog
      (⟨f.drained.state.voteRef.leaderId, some last⟩ : LogIOId NID) snapshot hlt
    refine ⟨hmem, ?_⟩
    unfold handled LoggedEngine.after Engine.written
    dsimp only
    rw [hcmds, List.foldl_append]
    rfl
  have hget1 : ∀ i, e1.state.getLogId i = f.engine.state.getLogId i := by
    rw [he1]
    exact fun _ => rfl
  have hentries1 : e1.output.commands.foldl Command.writeLog f.entries = f.entries := by
    rw [he1]
    rfl
  by_cases hhas : f.engine.state.logIds.Has last
  · have ht : e1.truncateForSnapshot last = e1 := by
      have hget : e1.state.getLogId last.index = some last := (hget1 last.index).trans hhas
      unfold Engine.truncateForSnapshot
      rw [hget]
      exact if_pos rfl
    obtain ⟨hmem, hentries⟩ := key e1 ht (by rw [he1]; exact hpurged)
    rw [if_pos hhas]
    refine ⟨by rw [hentries, hentries1], ?_⟩
    show e'.state.membershipState = _
    rw [hmem, he1]
    rfl
  · rw [if_neg hhas] at hend ⊢
    obtain ⟨t, ht, htp, hteff, htent⟩ := truncateForSnapshot_before hf hindex hend.2.2 hhas
    rw [← he1] at ht
    obtain ⟨hmem, hentries⟩ := key t ht (by rw [htp]; exact hpurged)
    constructor
    · rw [hentries, List.filter_eq_nil_iff]
      intro ent hent
      have := htent ent hent
      simp only [decide_eq_true_eq, not_lt]
      omega
    · show e'.state.membershipState = _
      rw [hmem]
      exact if_pos (optIndex_le_some.2 hteff)

/-- The memberships that a snapshot covers are not behind its end, the others are. -/
theorem Consistent.split_order (hf : f.Consistent) {last : LogId NID}
    (hhas : f.engine.state.logIds.Has last)
    (hindex : nextIndex f.engine.state.localCommitted ≤ last.index) :
    (∀ m ∈ f.snapshotMembership :: storedMemberships
        (f.entries.filter fun ent => decide (ent.logId.index < last.index + 1)),
      m.logId ≤ some last) ∧
    ∀ m ∈ storedMemberships (f.entries.filter fun ent => decide (last.index + 1 ≤ ent.logId.index)),
      some last < m.logId := by
  have hlog := hf.cursors.log
  have hlast : f.engine.state.logIds.HasOpt (some last) := by
    intro y hy
    obtain rfl := Option.some.inj hy
    exact hhas
  constructor
  · intro m hm
    rcases List.mem_cons.1 hm with rfl | hm
    · refine hf.snapshot.1.trans (hlog.le_of_nextIndex_le hf.cursors.snapshot hlast ?_)
      have := hf.cursors.snapshot_le
      rw [nextIndex_some]
      omega
    · obtain ⟨ent, hent, hid, -⟩ := exists_of_mem_storedMemberships hm
      obtain ⟨hent, hlt⟩ := List.mem_filter.1 hent
      have hlt := of_decide_eq_true hlt
      rw [hid]
      exact hlog.le_of_index_le (hf.has_of_mem hent) hhas (by omega)
  · intro m hm
    obtain ⟨ent, hent, hid, -⟩ := exists_of_mem_storedMemberships hm
    obtain ⟨hent, hge⟩ := List.mem_filter.1 hent
    have hge := of_decide_eq_true hge
    rw [hid, Option.some_lt_some, ← not_le]
    intro hle
    have := hlog.index_le_of_le (hf.has_of_mem hent) hhas hle
    omega

/-- A snapshot that ends in the log. -/
theorem Consistent.installed_of_has (hf : f.Consistent) {f' : FollowerLog NID N D}
    {snapshot : Snapshot NID N D} {last : LogId NID}
    (hlast : snapshot.snapshotMeta.lastLogId = some last)
    (hindex : nextIndex f.engine.state.localCommitted ≤ last.index)
    (hhas : f.engine.state.logIds.Has last)
    (hend : snapshot.snapshotMeta.lastMembership = f.lastMembershipBefore (last.index + 1))
    (hcom : f'.committed = f.committed)
    (hinst : Engine.Installs f.engine f'.engine snapshot last)
    (hentries : f'.entries = f.entries.filter fun ent => decide (last.index < ent.logId.index))
    (hmem : f'.engine.state.membershipState =
      f.engine.state.membershipState.installMembershipSnapshot
        snapshot.snapshotMeta.lastMembership last.index) : f'.Consistent := by
  have hnext : nextIndex f'.engine.state.snapshotMeta.lastLogId = last.index + 1 := by
    rw [hinst.snapshotMeta, hlast]
    rfl
  have hsnapshot : f'.snapshotMembership = f.lastMembershipBefore (last.index + 1) := by
    unfold snapshotMembership
    rw [hinst.snapshotMeta, hend]
  have hold : nextIndex f.engine.state.snapshotMeta.lastLogId ≤ last.index + 1 :=
    (hf.cursors.snapshot_le.trans hindex).trans (Nat.le_succ _)
  have hsplit := hf.splitAt hold
  have htracks := hf.tracks_split (last.index + 1)
  obtain ⟨hbefore, hbehind⟩ := hf.split_order hhas hindex
  have hcovered : f.lastMembershipBefore (last.index + 1) ∈ f.snapshotMembership ::
      storedMemberships (f.entries.filter fun ent => decide (ent.logId.index < last.index + 1)) :=
    lastOf_mem (List.cons_ne_nil _ _)
  have hord : ∀ m ∈ f.snapshotMembership :: storedMemberships
        (f.entries.filter fun ent => decide (ent.logId.index < last.index + 1)),
      ∀ m' ∈ storedMemberships
        (f.entries.filter fun ent => decide (last.index + 1 ≤ ent.logId.index)),
      m.logId < m'.logId := fun m hm m' hm' => (hbefore m hm).trans_lt (hbehind m' hm')
  refine ⟨hinst.cursors hlast hf.cursors hindex, ?_, ?_, ?_, ?_, ?_⟩
  · rw [hinst.kept hhas, hentries]
    rcases LogIds.purge_cases f.engine.state.logIds last with ⟨-, hlt⟩ | ⟨-, hlt⟩ | ⟨heq, -⟩
    · have := hhas.index_lt hf.cursors.log.consecutive
      omega
    · have := hf.cursors.purged_le.trans hf.cursors.purgeUpto_le_committed
      have hlt : last.index < nextIndex f.engine.state.logIds.purged := hlt
      omega
    · rw [heq]
      show f.engine.state.logIds.ids.filter _ = _
      rw [hf.ids, List.filter_map]
      rfl
  · unfold memberships
    rw [hsnapshot, hentries, hmem, hend]
    exact tracks_installMembershipSnapshot htracks hsplit hord
  · rw [hsnapshot, hnext, hinst.snapshotMeta, hlast]
    exact ⟨hbefore _ hcovered, hsplit.before _ hcovered⟩
  · have hnone : (f.entries.filter fun ent => decide (last.index < ent.logId.index)).filter
        (fun ent => decide (ent.logId.index < last.index + 1)) = [] := by
      rw [List.filter_eq_nil_iff]
      intro ent hent
      have hlt := of_decide_eq_true (List.mem_filter.1 hent).2
      simp only [decide_eq_true_eq, not_lt]
      omega
    rw [hnext]
    unfold lastMembershipBefore
    rw [hentries, hnone]
    rfl
  · intro x hx
    rw [hmem, hend] at hx
    rw [hnext, hcom]
    rcases (htracks.install hsplit hord).2 with hc | hc
    · left
      have hle := hsplit.before _ hcovered
      have hx : (f.lastMembershipBefore (last.index + 1)).logId = some x := by
        rw [← hx]
        exact congrArg StoredMembership.logId hc.symm
      rw [hx, nextIndex_some] at hle
      omega
    · have hx : f.engine.state.membershipState.committed.logId = some x := by
        rw [← hx]
        exact congrArg StoredMembership.logId hc.symm
      rcases hf.committed x hx with hlt | hin
      · left
        omega
      · exact Or.inr hin

theorem consistent_installFullSnapshot (hf : f.Consistent) {snapshot : Snapshot NID N D}
    (hfits : f.Fits (.installFullSnapshot snapshot)) :
    ∃ f', f.step (.installFullSnapshot snapshot) = some f' ∧ f'.Consistent := by
  have hskip : (f.handled f.drained).Consistent :=
    ⟨hf.cursors, hf.ids, hf.tracks, hf.snapshot, hf.covered, hf.committed⟩
  have hstep : f.step (.installFullSnapshot snapshot) =
    (f.drained.installFullSnapshot snapshot).map fun (e, _) => f.handled e := rfl
  cases hlast : snapshot.snapshotMeta.lastLogId with
  | none =>
    refine ⟨_, ?_, hskip⟩
    rw [hstep]
    unfold Engine.installFullSnapshot
    rw [hlast]
    rfl
  | some last =>
    by_cases hle : some last ≤ f.engine.state.localCommitted
    · refine ⟨_, ?_, hskip⟩
      have hle : some last ≤ f.drained.state.localCommitted := hle
      rw [hstep]
      unfold Engine.installFullSnapshot
      rw [hlast]
      dsimp only
      rw [if_pos hle]
      rfl
    · have hgt := not_le.1 hle
      obtain ⟨-, hindex, hend⟩ := hfits last hlast hgt
      obtain ⟨f', hf', hcom, hinst, hmems⟩ := step_installFullSnapshot hf hlast hgt hfits
      refine ⟨f', hf', ?_⟩
      have hcursors := hinst.cursors hlast hf.cursors hindex
      have hnext : nextIndex f'.engine.state.snapshotMeta.lastLogId = last.index + 1 := by
        rw [hinst.snapshotMeta, hlast]
        rfl
      have hsnapshot : f'.snapshotMembership = snapshot.snapshotMeta.lastMembership := by
        unfold snapshotMembership
        rw [hinst.snapshotMeta]
      by_cases hhas : f.engine.state.logIds.Has last
      · rw [if_pos hhas] at hend hmems
        exact hf.installed_of_has hlast hindex hhas hend hcom hinst hmems.1 hmems.2
      · rw [if_neg hhas] at hend hmems
        obtain ⟨hentries, hmem⟩ := hmems
        refine ⟨hcursors, ?_, ?_, ?_, ?_, ?_⟩
        · rw [hinst.dropped hhas, hentries]
          rfl
        · unfold memberships
          rw [hmem, hsnapshot, hentries]
          exact ⟨rfl, Or.inl rfl⟩
        · rw [hsnapshot, hnext, hinst.snapshotMeta, hlast]
          exact ⟨hend.1, hend.2.1⟩
        · unfold lastMembershipBefore
          rw [hentries]
          rfl
        · intro x hx
          left
          rw [hmem] at hx
          have hx : snapshot.snapshotMeta.lastMembership.logId = some x := hx
          have hle := hend.2.1
          rw [hx, nextIndex_some] at hle
          omega

/-! ## Runs -/

/-- One operation: it succeeds, and the state agrees with the log again. -/
theorem step_spec (hf : f.Consistent) {op : FollowerOp NID N D} (hfits : f.Fits op)
    (hspares : f.SparesCommitted op) : ∃ f', f.step op = some f' ∧ f'.Consistent := by
  cases op with
  | doAppendEntries entries => exact consistent_doAppendEntries hf hfits
  | truncateLogs since =>
    obtain ⟨f', hf', hc, -⟩ := consistent_truncateLogs hf hfits hspares
    exact ⟨f', hf', hc⟩
  | updateLocalCommitted committed => exact consistent_updateLocalCommitted hf hfits
  | installFullSnapshot snapshot => exact consistent_installFullSnapshot hf hfits
  | clusterCommit logId =>
    refine ⟨_, rfl, hf.cursors, hf.ids, hf.tracks, hf.snapshot, hf.covered, ?_⟩
    intro x hx
    exact (hf.committed x hx).imp (fun hlt => hlt) (List.mem_cons_of_mem logId)

/-- In every history whose truncations spare what is committed, the effective membership is the
    last one of the snapshot and the log, the committed one is not ahead of it, and the next
    truncation that drops it restores the one before it. -/
theorem effective_of_ops {ops : List (FollowerOp NID N D)} (hf : f.Consistent)
    (hops : FitAll step (fun f op => f.Fits op ∧ f.SparesCommitted op) f ops) :
    ∃ f', runPartial step f ops = some f' ∧
      f'.engine.state.membershipState.effective = f'.lastMembership ∧
      f'.engine.state.membershipState.committed.logId ≤
        f'.engine.state.membershipState.effective.logId ∧
      nextIndex f'.engine.state.membershipState.committed.logId ≤
        nextIndex f'.engine.state.membershipState.effective.logId ∧
      ∀ since x, f'.Fits (.truncateLogs since) → f'.SparesCommitted (.truncateLogs since) →
        f'.engine.state.membershipState.effective.logId = some x → since ≤ x.index →
        ∃ f'', f'.step (.truncateLogs since) = some f'' ∧
          f''.engine.state.membershipState.effective = f'.lastMembershipBefore x.index := by
  obtain ⟨f', hrun, hf'⟩ := hops.run (P := Consistent) hf
    fun f op hop hf => step_spec hf hop.1 hop.2
  refine ⟨f', hrun, hf'.tracks.effective, hf'.committed_le.1, hf'.committed_le.2, ?_⟩
  intro since x hfits hspares hx hle
  obtain ⟨f'', hstep, -, heff⟩ := consistent_truncateLogs hf' hfits hspares
  exact ⟨f'', hstep, heff x hx hle⟩

end FollowerLog

namespace Three

/-- Node 1 before it has a log. It follows a leader of term 2. -/
def joining : FollowerLog (Fin 3) Unit Nat :=
  let store : LogStore (Fin 3) Unit Nat := ⟨none, none, none, [], []⟩
  let state := RaftState.recovered 0 ⟨⟨0, 1⟩, false⟩ store ⟨[], none⟩ ⟨.default, .default⟩ none
  ⟨⟨((Engine.new state (config false 1)).updateVote 0 ⟨⟨2, 0⟩, true⟩).1, []⟩, []⟩

theorem joining_consistent : joining.Consistent :=
  FollowerLog.consistent_of_empty rfl rfl rfl rfl rfl

/-- A membership entry of term 1. -/
def changed (index : Nat) : Entry (Fin 3) Unit Nat := ⟨⟨⟨1, none⟩, index⟩, .membership membership⟩

/-- A batch with a membership is cut off again, and the rest of the log by a snapshot. -/
def cutOff : List (FollowerOp (Fin 3) Unit Nat) :=
  [.doAppendEntries [firstEntry], .clusterCommit firstEntry.logId,
    .updateLocalCommitted (some firstEntry.logId),
    .doAppendEntries [⟨⟨⟨1, none⟩, 1⟩, .blank⟩, changed 2], .truncateLogs 1,
    .installFullSnapshot ⟨⟨some ⟨⟨2, none⟩, 5⟩, ⟨some ⟨⟨2, none⟩, 4⟩, membership⟩⟩, []⟩]

theorem effective_of_ops_cutOff : joining.Consistent ∧
    FitAll FollowerLog.step (fun f op => f.Fits op ∧ f.SparesCommitted op) joining cutOff ∧
    ∃ f, runPartial FollowerLog.step joining cutOff = some f ∧
      f.engine.state.membershipState.effective = f.lastMembership := by
  have hops : FitAll FollowerLog.step (fun f op => f.Fits op ∧ f.SparesCommitted op) joining
      cutOff := by decide +kernel
  obtain ⟨f, hrun, heff, -⟩ := FollowerLog.effective_of_ops joining_consistent hops
  exact ⟨joining_consistent, hops, f, hrun, heff⟩

/-- The memberships at 1 and 2 come in one batch: the cluster has committed the first one, the
    follower does not know it yet. It is dropped and stays effective. -/
theorem effective_truncated : joining.Consistent ∧
    FitAll FollowerLog.step FollowerLog.Fits joining [.doAppendEntries [firstEntry],
      .clusterCommit firstEntry.logId, .updateLocalCommitted (some firstEntry.logId),
      .clusterCommit (changed 1).logId, .doAppendEntries [changed 1, changed 2],
      .truncateLogs 1] ∧
    ((runPartial FollowerLog.step joining [.doAppendEntries [firstEntry],
      .clusterCommit firstEntry.logId, .updateLocalCommitted (some firstEntry.logId),
      .clusterCommit (changed 1).logId, .doAppendEntries [changed 1, changed 2],
      .truncateLogs 1]).map fun f => (f.entries.map Entry.logId, f.lastMembership.logId,
        f.engine.state.membershipState.effective.logId)) =
      some ([firstEntry.logId], some firstEntry.logId, some (changed 1).logId) := by
  refine ⟨joining_consistent, ?_, ?_⟩
  · decide +kernel
  · decide +kernel

end Three

end ZenohRaft
