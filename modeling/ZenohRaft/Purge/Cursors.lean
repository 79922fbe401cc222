/-
  The cursors of the log of a node: last purged, scheduled to be purged, snapshot, committed.

  The source orders them by log id, and log ids are ordered by leader first. In a log whose
  leaders do not decrease (`LogIds.Ordered`) this is the order of the indexes
  (`Ordered.le_of_index_le`). `RaftState.Cursors` says that every cursor is in the log, in this
  order; `RaftState.cursors_of_validate` gets it from `RaftState::validate`.

  Each handler that moves a cursor has one lemma: `tryPurgeLog_purges`, `triggerPurgeLog_spec`,
  `onBuildingSnapshotDone_spec` (which says when the schedule goes back) and
  `installFullSnapshot_spec`.
-/
import ZenohRaft.Frame

namespace ZenohRaft

variable {NID N D : Type} [LinearOrder NID]

/-! ## Logs in order -/

namespace LogIds

/-- The indexes count up, and the leaders do not decrease. -/
structure Ordered (l : LogIds NID) : Prop where
  consecutive : l.Consecutive
  sorted : (l.purged.toList ++ l.ids).Pairwise fun x y => x.leaderId ≤ y.leaderId

/-- The log has the log id `x`. -/
def Has (l : LogIds NID) (x : LogId NID) : Prop := l.refAt x.index = some x

instance (l : LogIds NID) : Decidable l.Ordered :=
  decidable_of_iff ((∀ i (h : i < l.ids.length), l.ids[i].index = l.firstIndex + i) ∧
      (l.purged.toList ++ l.ids).Pairwise fun x y => x.leaderId ≤ y.leaderId)
    ⟨fun h => ⟨fun i x hx => by
      obtain ⟨hi, rfl⟩ := List.getElem?_eq_some_iff.1 hx
      exact h.1 i hi, h.2⟩, fun h => ⟨fun i hi =>
      h.consecutive i _ (List.getElem?_eq_getElem hi), h.sorted⟩⟩

instance (l : LogIds NID) (x : LogId NID) : Decidable (l.Has x) :=
  inferInstanceAs (Decidable (_ = _))

variable {l : LogIds NID} {x y : LogId NID}

section

omit [LinearOrder NID]

/-- What a log has is the last purged id, or behind it. -/
theorem has_iff (h : l.Consecutive) : l.Has x ↔
    l.purged = some x ∨ l.firstIndex ≤ x.index ∧ x ∈ l.ids := by
  unfold Has refAt
  constructor
  · intro hx
    split at hx
    · exact Or.inl (Option.filter_eq_some_iff.1 hx).1
    · rename_i hfirst
      exact Or.inr ⟨not_lt.1 hfirst, List.mem_of_find?_eq_some hx⟩
  · rintro (hp | ⟨hfirst, hmem⟩)
    · have hlt : x.index < l.firstIndex := by
        unfold firstIndex
        rw [hp]
        exact Nat.lt_succ_self _
      rw [if_pos hlt, hp]
      simp
    · rw [if_neg (not_lt.2 hfirst)]
      obtain ⟨k, hk⟩ := List.mem_iff_getElem?.1 hmem
      have hx := h k x hk
      cases hfind : l.ids.find? (fun y => decide (y.index = x.index)) with
      | none =>
        have := List.find?_eq_none.1 hfind x hmem
        simp at this
      | some y =>
        obtain ⟨j, hj⟩ := List.mem_iff_getElem?.1 (List.mem_of_find?_eq_some hfind)
        have hy := h j y hj
        have hyx := List.find?_some hfind
        have hyx : y.index = x.index := of_decide_eq_true hyx
        obtain rfl : j = k := by omega
        exact hj.symm.trans hk

theorem Has.index_lt (hx : l.Has x) (h : l.Consecutive) : x.index < nextIndex l.last :=
  h.lt_nextIndex hx

theorem Has.firstIndex_le (hx : l.Has x) : l.firstIndex ≤ x.index + 1 := by
  unfold Has refAt at hx
  split at hx
  · unfold firstIndex
    rw [(Option.filter_eq_some_iff.1 hx).1]
    exact le_rfl
  · rename_i hfirst
    omega

theorem Has.eq_of_index_eq (hx : l.Has x) (hy : l.Has y) (h : x.index = y.index) : x = y := by
  unfold Has at hx hy
  rw [h, hy] at hx
  exact (Option.some.inj hx).symm

end

/-- The order of the indexes is that of the log ids. -/
theorem Ordered.le_of_index_le (h : l.Ordered) (hx : l.Has x) (hy : l.Has y)
    (hle : x.index ≤ y.index) : x ≤ y := by
  have hleader : x.leaderId ≤ y.leaderId := by
    have hsorted := List.pairwise_append.1 h.sorted
    rcases (has_iff h.consecutive).1 hx with hpx | ⟨hfx, hmx⟩
    · rcases (has_iff h.consecutive).1 hy with hpy | ⟨-, hmy⟩
      · rw [hpx] at hpy
        rw [Option.some.inj hpy]
      · exact hsorted.2.2 x (by simp [hpx]) y hmy
    · rcases (has_iff h.consecutive).1 hy with hpy | ⟨-, hmy⟩
      · have hfirst : l.firstIndex = y.index + 1 := by
          unfold firstIndex
          rw [hpy]
          rfl
        omega
      · obtain ⟨i, hi⟩ := List.mem_iff_getElem?.1 hmx
        obtain ⟨j, hj⟩ := List.mem_iff_getElem?.1 hmy
        have hxi := h.consecutive i x hi
        have hyj := h.consecutive j y hj
        rcases Nat.lt_or_ge i j with hij | hij
        · have hi' := List.getElem?_eq_some_iff.1 hi
          have hj' := List.getElem?_eq_some_iff.1 hj
          have hpair := List.pairwise_iff_getElem.1 hsorted.2.1 i j hi'.1 hj'.1 hij
          rw [hi'.2, hj'.2] at hpair
          exact hpair
        · obtain rfl : i = j := by omega
          rw [Option.some.inj (hi.symm.trans hj)]
  rw [LogId.le_iff]
  rcases hleader.lt_or_eq with hlt | heq
  · exact Or.inl hlt
  · exact Or.inr ⟨heq, hle⟩

theorem Ordered.index_le_of_le (h : l.Ordered) (hx : l.Has x) (hy : l.Has y) (hle : x ≤ y) :
    x.index ≤ y.index := by
  by_contra hlt
  have hge := h.le_of_index_le hy hx (by omega)
  have heq := le_antisymm hle hge
  rw [heq] at hlt
  exact hlt le_rfl

theorem Ordered.index_lt_of_lt (h : l.Ordered) (hx : l.Has x) (hy : l.Has y) (hlt : x < y) :
    x.index < y.index := by
  by_contra hge
  exact absurd (h.le_of_index_le hy hx (by omega)) (not_le.2 hlt)

theorem Ordered.exists_has (h : l.Ordered) {i : Nat} (hfirst : l.firstIndex ≤ i + 1)
    (hi : i < nextIndex l.last) : ∃ x, l.Has x ∧ x.index = i := by
  by_cases hp : l.firstIndex ≤ i
  · obtain ⟨x, hx⟩ := h.consecutive.exists_refAt hp hi
    have hxi := refAt_index hx
    exact ⟨x, by unfold Has; rw [hxi]; exact hx, hxi⟩
  · unfold firstIndex at hp hfirst
    cases hpurged : l.purged with
    | none => simp [hpurged] at hp
    | some p =>
      rw [hpurged, nextIndex_some] at hp hfirst
      exact ⟨p, (has_iff h.consecutive).2 (Or.inl hpurged), by omega⟩

/-! ### Changes of a log -/

omit [LinearOrder NID] in
theorem has_last (h : l.Consecutive) (hx : l.last = some x) : l.Has x := by
  unfold last at hx
  rw [has_iff h]
  cases hl : l.ids.getLast? with
  | none =>
    rw [hl, Option.none_or] at hx
    exact Or.inl hx
  | some y =>
    rw [hl] at hx
    obtain rfl : y = x := Option.some.inj hx
    have hmem := List.mem_of_getLast? hl
    obtain ⟨k, hk⟩ := List.mem_iff_getElem?.1 hmem
    exact Or.inr ⟨by rw [h k y hk]; omega, hmem⟩

omit [LinearOrder NID] in
theorem Has.extend (hx : l.Has x) (new : List (LogId NID)) : (l.extend new).Has x :=
  refAt_extend hx new

theorem Ordered.truncate (h : l.Ordered) (since : Nat) : (l.truncate since).Ordered := by
  refine ⟨h.consecutive.truncate since, ?_⟩
  refine h.sorted.sublist ?_
  exact List.Sublist.append_left List.filter_sublist _

theorem Ordered.nextIndex_last_truncate (h : l.Ordered) {since : Nat}
    (hfirst : l.firstIndex ≤ since) : nextIndex (l.truncate since).last ≤ since := by
  rw [(h.consecutive.truncate since).nextIndex_last]
  show l.firstIndex + (l.ids.filter _).length ≤ since
  rw [filter_index_lt h.consecutive, List.length_take]
  omega

section

omit [LinearOrder NID]

theorem Has.truncate {since : Nat} (hx : l.Has x) (hlt : x.index < since) :
    (l.truncate since).Has x := by
  unfold Has
  rw [refAt_truncate hlt]
  exact hx

/-- The ids a purge leaves. -/
theorem purge_cases (l : LogIds NID) (upto : LogId NID) :
    l.purge upto = ⟨some upto, []⟩ ∧ nextIndex l.last ≤ upto.index ∨
    l.purge upto = l ∧ upto.index < l.firstIndex ∨
    l.purge upto = ⟨some upto, l.ids.filter fun x => decide (upto.index < x.index)⟩ ∧
      l.firstIndex ≤ upto.index := by
  unfold purge
  split
  · rename_i hlast
    exact Or.inl ⟨rfl, hlast⟩
  split
  · rename_i hfirst
    exact Or.inr (Or.inl ⟨rfl, hfirst⟩)
  · rename_i hfirst
    exact Or.inr (Or.inr ⟨rfl, not_lt.1 hfirst⟩)

theorem filter_index_gt {b : Nat} {ids : List (LogId NID)}
    (h : ∀ i x, ids[i]? = some x → x.index = b + i) (upto : Nat) :
    ids.filter (fun x => decide (upto < x.index)) = ids.drop (upto + 1 - b) := by
  induction ids generalizing b with
  | nil => simp
  | cons a ids ih =>
    have ha : a.index = b := h 0 a rfl
    have hrest : ∀ i x, ids[i]? = some x → x.index = b + 1 + i := by
      intro i x hx
      have := h (i + 1) x hx
      omega
    by_cases hb : upto < b
    · have hsub : upto + 1 - b = 0 := by omega
      have hsub' : upto + 1 - (b + 1) = 0 := by omega
      rw [List.filter_cons_of_pos (by simp [ha, hb]), ih hrest, hsub, hsub', List.drop_zero,
        List.drop_zero]
    · have hsub : upto + 1 - b = (upto + 1 - (b + 1)) + 1 := by omega
      rw [List.filter_cons_of_neg (by simp [ha, hb]), ih hrest, hsub, List.drop_succ_cons]

end

theorem Ordered.purge (h : l.Ordered) {upto : LogId NID}
    (hupto : l.Has upto ∨ nextIndex l.last ≤ upto.index) : (l.purge upto).Ordered := by
  rcases purge_cases l upto with ⟨heq, -⟩ | ⟨heq, -⟩ | ⟨heq, hfirst⟩
  · rw [heq]
    exact ⟨fun i x hx => by simp at hx, by simp⟩
  · rw [heq]
    exact h
  · rw [heq]
    constructor
    · intro i x hx
      dsimp only at hx
      rw [filter_index_gt h.consecutive, List.getElem?_drop] at hx
      have := h.consecutive _ x hx
      show x.index = upto.index + 1 + i
      omega
    · show ([upto] ++ _).Pairwise _
      rw [List.singleton_append, List.pairwise_cons]
      refine ⟨?_, (List.pairwise_append.1 h.sorted).2.1.sublist List.filter_sublist⟩
      intro x hx
      obtain ⟨hmem, hgt⟩ := List.mem_filter.1 hx
      have hgt : upto.index < x.index := of_decide_eq_true hgt
      have hxl : l.Has x := (has_iff h.consecutive).2 (Or.inr ⟨by omega, hmem⟩)
      have hup : l.Has upto := by
        rcases hupto with hup | hlast
        · exact hup
        · have := hxl.index_lt h.consecutive
          omega
      rcases LogId.le_iff.1 (h.le_of_index_le hup hxl hgt.le) with hlt | heq
      · exact hlt.le
      · exact heq.1.le

/-- A purge that goes forward ends at the id it is given. -/
theorem purged_purge {upto : LogId NID} (hfirst : l.firstIndex ≤ upto.index) :
    (l.purge upto).purged = some upto := by
  rcases purge_cases l upto with ⟨heq, -⟩ | ⟨-, hlt⟩ | ⟨heq, -⟩
  · rw [heq]
  · omega
  · rw [heq]

theorem Has.purge (hx : l.Has x) (h : l.Ordered) {upto : LogId NID} (hupto : l.Has upto)
    (hle : upto.index ≤ x.index) : (l.purge upto).Has x := by
  rcases purge_cases l upto with ⟨-, hlast⟩ | ⟨heq, -⟩ | ⟨heq, hfirst⟩
  · have := hupto.index_lt h.consecutive
    omega
  · rw [heq]
    exact hx
  · have hord := (h.purge (Or.inl hupto)).consecutive
    rw [heq] at hord ⊢
    rw [has_iff hord]
    rcases Nat.eq_or_lt_of_le hle with heq' | hlt
    · exact Or.inl (by rw [hupto.eq_of_index_eq hx heq'])
    · right
      rcases (has_iff h.consecutive).1 hx with hp | ⟨-, hmem⟩
      · have : l.firstIndex = x.index + 1 := by
          unfold firstIndex
          rw [hp]
          rfl
        omega
      · exact ⟨hlt, List.mem_filter.2 ⟨hmem, decide_eq_true hlt⟩⟩

end LogIds

/-! ## The cursors -/

/-- The log has this id, if it is one. -/
def LogIds.HasOpt (l : LogIds NID) (x : Option (LogId NID)) : Prop := ∀ y, x = some y → l.Has y

instance (l : LogIds NID) (x : Option (LogId NID)) : Decidable (l.HasOpt x) :=
  inferInstanceAs (Decidable (∀ y ∈ x, l.Has y))

theorem LogIds.Ordered.nextIndex_le {l : LogIds NID} (h : l.Ordered) {x y : Option (LogId NID)}
    (hx : l.HasOpt x) (hy : l.HasOpt y) (hle : x ≤ y) : nextIndex x ≤ nextIndex y := by
  cases x with
  | none => exact Nat.zero_le _
  | some a =>
    cases y with
    | none => exact absurd hle (not_le.2 Option.none_lt_some)
    | some b => exact Nat.succ_le_succ (h.index_le_of_le (hx a rfl) (hy b rfl) hle)

theorem LogIds.Ordered.le_of_nextIndex_le {l : LogIds NID} (h : l.Ordered)
    {x y : Option (LogId NID)} (hx : l.HasOpt x) (hy : l.HasOpt y)
    (hle : nextIndex x ≤ nextIndex y) : x ≤ y := by
  cases x with
  | none => exact Option.none_le
  | some a =>
    cases y with
    | none => simp at hle
    | some b =>
      rw [nextIndex_some, nextIndex_some] at hle
      exact h.le_of_index_le (hx a rfl) (hy b rfl) (by omega)

theorem LogIds.Ordered.hasOpt_purged {l : LogIds NID} (h : l.Ordered) : l.HasOpt l.purged :=
  fun _ hx => (LogIds.has_iff h.consecutive).2 (Or.inl hx)

/-- Every cursor is in the log, and they are in order. -/
structure RaftState.Cursors (s : RaftState NID N) : Prop where
  log : s.logIds.Ordered
  purgeUpto : s.logIds.HasOpt s.purgeUpto
  snapshot : s.logIds.HasOpt s.snapshotMeta.lastLogId
  committed : s.logIds.HasOpt s.localCommitted
  purged_le : nextIndex s.logIds.purged ≤ nextIndex s.purgeUpto
  purgeUpto_le : nextIndex s.purgeUpto ≤ nextIndex (s.snapshotMeta.lastLogId.or s.localCommitted)
  snapshot_le : nextIndex s.snapshotMeta.lastLogId ≤ nextIndex s.localCommitted

instance (s : RaftState NID N) : Decidable s.Cursors :=
  decidable_of_iff (s.logIds.Ordered ∧ s.logIds.HasOpt s.purgeUpto ∧
      s.logIds.HasOpt s.snapshotMeta.lastLogId ∧ s.logIds.HasOpt s.localCommitted ∧
      nextIndex s.logIds.purged ≤ nextIndex s.purgeUpto ∧
      nextIndex s.purgeUpto ≤ nextIndex (s.snapshotMeta.lastLogId.or s.localCommitted) ∧
      nextIndex s.snapshotMeta.lastLogId ≤ nextIndex s.localCommitted)
    ⟨fun h => ⟨h.1, h.2.1, h.2.2.1, h.2.2.2.1, h.2.2.2.2.1, h.2.2.2.2.2.1, h.2.2.2.2.2.2⟩,
      fun h => ⟨h.log, h.purgeUpto, h.snapshot, h.committed, h.purged_le, h.purgeUpto_le,
        h.snapshot_le⟩⟩

/-- A state that passes `RaftState::validate` has its cursors in order, if they are in its log. -/
theorem RaftState.cursors_of_validate {mode : LeaderIdMode} {s : RaftState NID N}
    (hvalid : s.validate mode = true) (hlog : s.logIds.Ordered)
    (hpurge : s.logIds.HasOpt s.purgeUpto) (hsnap : s.logIds.HasOpt s.snapshotMeta.lastLogId)
    (hcommitted : s.logIds.HasOpt s.localCommitted) : s.Cursors := by
  unfold RaftState.validate at hvalid
  simp only [Bool.and_eq_true, decide_eq_true_eq] at hvalid
  obtain ⟨⟨⟨⟨⟨⟨-, hpurged⟩, hupto⟩, hsnapshot⟩, -⟩, -⟩, -⟩ := hvalid
  refine ⟨hlog, hpurge, hsnap, hcommitted, hlog.nextIndex_le hlog.hasOpt_purged hpurge hpurged, ?_,
    hlog.nextIndex_le hsnap hcommitted hsnapshot⟩
  cases hs : s.snapshotMeta.lastLogId with
  | none =>
    rw [if_pos hs, decide_eq_true_eq] at hupto
    exact hlog.nextIndex_le hpurge hcommitted hupto
  | some y =>
    rw [if_neg (by rw [hs]; simp), decide_eq_true_eq] at hupto
    have hle := hlog.nextIndex_le hpurge hsnap hupto
    rw [hs] at hle
    exact hle

namespace RaftState.Cursors

variable {s : RaftState NID N}

theorem purgeUpto_le_committed (h : s.Cursors) :
    nextIndex s.purgeUpto ≤ nextIndex s.localCommitted := by
  have hle := h.purgeUpto_le
  have hsnap := h.snapshot_le
  cases hs : s.snapshotMeta.lastLogId with
  | none =>
    rw [hs] at hle
    exact hle
  | some y =>
    rw [hs] at hle hsnap
    exact hle.trans hsnap

theorem snapshot_le_last (h : s.Cursors) :
    nextIndex s.snapshotMeta.lastLogId ≤ nextIndex s.logIds.last := by
  cases hs : s.snapshotMeta.lastLogId with
  | none => exact Nat.zero_le _
  | some y => exact (h.snapshot y hs).index_lt h.log.consecutive

/-- The cursors only depend on the log and on themselves. -/
theorem congr {s' : RaftState NID N} (h : s.Cursors) (hlog : s'.logIds = s.logIds)
    (hpurge : s'.purgeUpto = s.purgeUpto) (hsnap : s'.snapshotMeta = s.snapshotMeta)
    (hcom : s'.localCommitted = s.localCommitted) : s'.Cursors := by
  refine ⟨?_, ?_, ?_, ?_, ?_, ?_, ?_⟩
  · rw [hlog]
    exact h.log
  · rw [hlog, hpurge]
    exact h.purgeUpto
  · rw [hlog, hsnap]
    exact h.snapshot
  · rw [hlog, hcom]
    exact h.committed
  · rw [hlog, hpurge]
    exact h.purged_le
  · rw [hpurge, hsnap, hcom]
    exact h.purgeUpto_le
  · rw [hsnap, hcom]
    exact h.snapshot_le

/-- The schedule may be moved to any id of the log between the last purged one and the
    snapshot. -/
theorem reschedule (h : s.Cursors) {x : LogId NID} (hx : s.logIds.Has x)
    (hle : nextIndex (some x) ≤ nextIndex (s.snapshotMeta.lastLogId.or s.localCommitted)) :
    RaftState.Cursors { s with purgeUpto := some x } := by
  refine ⟨h.log, ?_, h.snapshot, h.committed, hx.firstIndex_le, hle, h.snapshot_le⟩
  intro y hy
  obtain rfl := Option.some.inj hy
  exact hx

/-- Purging up to the schedule. -/
theorem purge (h : s.Cursors) {x : LogId NID} (hx : s.purgeUpto = some x) :
    RaftState.Cursors { s with logIds := s.logIds.purge x } := by
  have hhas := h.purgeUpto x hx
  have hmove : ∀ y, nextIndex s.purgeUpto ≤ nextIndex y → s.logIds.HasOpt y →
      (s.logIds.purge x).HasOpt y := by
    intro y hle hy z hz
    rw [hx, hz, nextIndex_some, nextIndex_some] at hle
    exact (hy z hz).purge h.log hhas (by omega)
  have hcom := h.purgeUpto_le_committed
  refine ⟨h.log.purge (Or.inl hhas), hmove _ le_rfl h.purgeUpto, ?_, hmove _ hcom h.committed, ?_,
    h.purgeUpto_le, h.snapshot_le⟩
  · intro y hy
    refine hmove _ ?_ h.snapshot y hy
    have hle := h.purgeUpto_le
    rw [hy] at hle ⊢
    exact hle
  · show nextIndex (s.logIds.purge x).purged ≤ nextIndex s.purgeUpto
    rcases LogIds.purge_cases s.logIds x with ⟨heq, -⟩ | ⟨heq, -⟩ | ⟨heq, -⟩
    · rw [heq, hx]
    · rw [heq]
      exact h.purged_le
    · rw [heq, hx]

/-- The log gets longer. -/
theorem extend (h : s.Cursors) {new : List (LogId NID)} (hlog : (s.logIds.extend new).Ordered) :
    RaftState.Cursors { s with logIds := s.logIds.extend new } :=
  ⟨hlog, fun x hx => (h.purgeUpto x hx).extend new, fun x hx => (h.snapshot x hx).extend new,
    fun x hx => (h.committed x hx).extend new, h.purged_le, h.purgeUpto_le, h.snapshot_le⟩

/-- More of the log is committed. -/
theorem updateLocalCommitted (h : s.Cursors) {c : Option (LogId NID)}
    (hc : ∀ x, c = some x → s.localCommitted < some x →
      s.logIds.Has x ∧ nextIndex s.localCommitted ≤ nextIndex (some x)) :
    (s.updateLocalCommitted c).Cursors := by
  unfold RaftState.updateLocalCommitted
  cases c with
  | none => exact h
  | some x =>
    dsimp only
    split
    · rename_i hlt
      obtain ⟨hhas, hle⟩ := hc x rfl hlt
      refine ⟨h.log, h.purgeUpto, h.snapshot, ?_, h.purged_le, ?_, h.snapshot_le.trans hle⟩
      · intro y hy
        obtain rfl := Option.some.inj hy
        exact hhas
      · refine h.purgeUpto_le.trans ?_
        show nextIndex (s.snapshotMeta.lastLogId.or _) ≤
          nextIndex (s.snapshotMeta.lastLogId.or (some x))
        cases s.snapshotMeta.lastLogId with
        | none => exact hle
        | some y => exact le_rfl
    · exact h

end RaftState.Cursors

/-! ## The handlers -/

namespace Engine

variable {e : Engine NID N D}

/-- What trying to purge does: nothing, or the log is purged up to the schedule, if no log range
    that a leader has in flight needs these logs. -/
inductive Purges (e : Engine NID N D) : Engine NID N D → Prop
  | refl : Purges e e
  | purge {x : LogId NID} (hx : e.state.purgeUpto = some x)
      (hlt : e.state.logIds.purged < some x)
      (hfree : ∀ l, e.leader = some l → ∀ item ∈ l.progress.entries,
        ProgressEntry.isLogRangeInflight item x = false) :
      Purges e ({ e with state := { e.state with logIds := e.state.logIds.purge x } }.pushCommand
        (.purgeLog x))

theorem purgeLog_purges (hfree : ∀ x, e.state.purgeUpto = some x → ∀ l, e.leader = some l →
    ∀ item ∈ l.progress.entries, ProgressEntry.isLogRangeInflight item x = false) :
    Purges e e.purgeLog := by
  unfold purgeLog
  cases hupto : e.state.purgeUpto with
  | none => exact .refl
  | some x =>
    dsimp only
    split
    · exact .refl
    · rename_i hgt
      exact .purge hupto (not_le.1 hgt) (hfree x hupto)

theorem tryPurgeLog_purges (e : Engine NID N D) : Purges e e.tryPurgeLog := by
  unfold tryPurgeLog
  cases hl : e.leader with
  | none =>
    -- a follower has no replication to wait for
    refine purgeLog_purges fun x _ l hl' => ?_
    rw [hl] at hl'
    cases hl'
  | some l =>
    dsimp only
    unfold tryPurgeLogLeader
    cases hupto : e.state.purgeUpto with
    | none => exact .refl
    | some x =>
      dsimp only
      split
      · exact .refl
      split
      · exact .refl
      · rename_i hfree
        refine purgeLog_purges fun y hy l' hl' item hitem => ?_
        obtain rfl : x = y := Option.some.inj (hupto.symm.trans hy)
        obtain rfl : l = l' := Option.some.inj (hl.symm.trans hl')
        by_contra hused
        exact hfree (List.any_eq_true.2 ⟨item, hitem, by simpa using hused⟩)

theorem Purges.purgeUpto {e' : Engine NID N D} (h : Purges e e') :
    e'.state.purgeUpto = e.state.purgeUpto := by
  cases h with
  | refl => rfl
  | purge => rfl

theorem Purges.cursors {e' : Engine NID N D} (h : Purges e e') (hc : e.state.Cursors) :
    e'.state.Cursors := by
  cases h with
  | refl => exact hc
  | purge hx => exact hc.purge hx

/-- `trigger_purge_log` finds the log id it looks for, and never moves the schedule back. -/
theorem triggerPurgeLog_spec (hc : e.state.Cursors) (index : Nat) :
    ∃ e', e.triggerPurgeLog index = some e' ∧ e'.state.Cursors ∧
      e.state.purgeUpto ≤ e'.state.purgeUpto ∧ (e' = e ∨ ∃ x,
        (e.updatePurgeUpto x).state.Cursors ∧ Purges (e.updatePurgeUpto x) e') := by
  unfold triggerPurgeLog
  cases hs : e.state.snapshotMeta.lastLogId with
  | none => exact ⟨e, rfl, hc, le_rfl, Or.inl rfl⟩
  | some y =>
    dsimp only
    split
    · exact ⟨e, rfl, hc, le_rfl, Or.inl rfl⟩
    rename_i hindex
    have hy := hc.snapshot y hs
    have hupto := hc.purgeUpto_le
    rw [hs] at hupto
    have hupto : nextIndex e.state.purgeUpto ≤ y.index + 1 := hupto
    have hfirst : e.state.logIds.firstIndex ≤ nextIndex e.state.purgeUpto := hc.purged_le
    have hylt := hy.index_lt hc.log.consecutive
    obtain ⟨x, hx, hxi⟩ := hc.log.exists_has (i := min index y.index) (by omega) (by omega)
    have hget : e.state.getLogId (min index y.index) = some x := by
      rw [← hxi]
      exact hx
    rw [hget]
    dsimp only
    have hpurges := tryPurgeLog_purges (e.updatePurgeUpto x)
    have hcx : (e.updatePurgeUpto x).state.Cursors := by
      refine hc.reschedule hx ?_
      rw [hs]
      show x.index + 1 ≤ y.index + 1
      omega
    refine ⟨_, rfl, hpurges.cursors hcx, ?_, Or.inr ⟨x, hcx, hpurges⟩⟩
    rw [hpurges.purgeUpto]
    refine hc.log.le_of_nextIndex_le hc.purgeUpto (y := some x) ?_ ?_
    · intro z hz
      obtain rfl := Option.some.inj hz
      exact hx
    · rw [nextIndex_some]
      omega

/-- What a finished build reports: if the snapshot is newer than the current one, it ends at a
    committed id of the log, and it covers what is scheduled to be purged. -/
def BuildOK (e : Engine NID N D) (m : SnapshotMeta NID N) : Prop :=
  ∀ x, m.lastLogId = some x → e.state.snapshotMeta.lastLogId < some x →
    e.state.logIds.Has x ∧ nextIndex (some x) ≤ nextIndex e.state.localCommitted ∧
      (e.state.snapshotMeta.lastLogId = none →
        nextIndex e.state.purgeUpto ≤ nextIndex (some x))

instance (e : Engine NID N D) (m : SnapshotMeta NID N) : Decidable (BuildOK e m) :=
  inferInstanceAs (Decidable (∀ x ∈ m.lastLogId, _ → _))

/-- The purge that is scheduled does not reach into the ids of the new snapshot that the policy
    keeps, if the policy has a batch to purge. -/
def KeepsSchedule (e : Engine NID N D) (m : SnapshotMeta NID N) : Prop :=
  ∀ x, m.lastLogId = some x → e.state.snapshotMeta.lastLogId < some x →
    0 < nextIndex (some x) - e.config.maxInSnapshotLogToKeep →
    nextIndex e.state.logIds.purged + e.config.purgeBatchSize ≤
      nextIndex (some x) - e.config.maxInSnapshotLogToKeep →
    nextIndex e.state.purgeUpto ≤ nextIndex (some x) - e.config.maxInSnapshotLogToKeep

instance (e : Engine NID N D) (m : SnapshotMeta NID N) : Decidable (KeepsSchedule e m) :=
  inferInstanceAs (Decidable (∀ x ∈ m.lastLogId, _ → _ → _ → _))

/-- The cursors after the snapshot of a finished build has been taken over. -/
theorem BuildOK.cursors {m : SnapshotMeta NID N} {x : LogId NID} (hb : BuildOK e m)
    (hc : e.state.Cursors) (hx : m.lastLogId = some x)
    (hlt : e.state.snapshotMeta.lastLogId < some x) :
    RaftState.Cursors { e.state with snapshotMeta := m } := by
  obtain ⟨hhas, hcom, hnone⟩ := hb x hx hlt
  refine ⟨hc.log, hc.purgeUpto, ?_, hc.committed, hc.purged_le, ?_, ?_⟩
  · intro y hy
    obtain rfl := Option.some.inj (hx.symm.trans hy)
    exact hhas
  · show nextIndex e.state.purgeUpto ≤ nextIndex (m.lastLogId.or _)
    rw [hx]
    cases hs : e.state.snapshotMeta.lastLogId with
    | none => exact hnone hs
    | some y =>
      have hle := hc.purgeUpto_le
      rw [hs] at hle hlt
      have hy := hc.log.index_lt_of_lt (hc.snapshot y hs) hhas hlt
      have hle : nextIndex e.state.purgeUpto ≤ y.index + 1 := hle
      show nextIndex e.state.purgeUpto ≤ x.index + 1
      omega
  · show nextIndex m.lastLogId ≤ _
    rw [hx]
    exact hcom

/-- `schedule_policy_based_purge` for a snapshot that ends at `x`. -/
theorem schedulePolicyBasedPurge_spec {x : LogId NID} (hc : e.state.Cursors)
    (hx : e.state.snapshotMeta.lastLogId = some x) :
    e.schedulePolicyBasedPurge.state.Cursors ∧
      (e.state.purgeUpto ≤ e.schedulePolicyBasedPurge.state.purgeUpto ↔
        (0 < nextIndex (some x) - e.config.maxInSnapshotLogToKeep →
        nextIndex e.state.logIds.purged + e.config.purgeBatchSize ≤
          nextIndex (some x) - e.config.maxInSnapshotLogToKeep →
        nextIndex e.state.purgeUpto ≤ nextIndex (some x) - e.config.maxInSnapshotLogToKeep)) := by
  obtain ⟨stop, hstop⟩ : ∃ stop, nextIndex (some x) - e.config.maxInSnapshotLogToKeep = stop :=
    ⟨_, rfl⟩
  rw [hstop]
  have hhas := hc.snapshot x hx
  have hxlt := hhas.index_lt hc.log.consecutive
  unfold schedulePolicyBasedPurge calcPurgeUpto
  dsimp only
  rw [hx, hstop]
  by_cases hbatch : stop < nextIndex e.state.logIds.purged + e.config.purgeBatchSize
  · rw [if_pos hbatch]
    exact ⟨hc, fun _ _ hle => absurd hle (by omega), fun _ => le_rfl⟩
  rw [if_neg hbatch]
  by_cases hzero : stop = 0
  · rw [if_pos hzero]
    exact ⟨hc, fun _ hpos => absurd hpos (by omega), fun _ => le_rfl⟩
  rw [if_neg hzero]
  rw [nextIndex_some] at hstop
  obtain ⟨z, hz, hzi⟩ := hc.log.exists_has (i := stop - 1)
    (by show nextIndex e.state.logIds.purged ≤ _; omega) (by omega)
  have hget : e.state.logIds.refAt (stop - 1) = some z := by
    rw [← hzi]
    exact hz
  rw [hget]
  dsimp only
  have hzopt : e.state.logIds.HasOpt (some z) := by
    intro w hw
    obtain rfl := Option.some.inj hw
    exact hz
  have hznext : nextIndex (some z) = stop := by
    rw [nextIndex_some]
    omega
  refine ⟨?_, ?_, ?_⟩
  · refine hc.reschedule hz ?_
    rw [hx]
    show z.index + 1 ≤ x.index + 1
    omega
  · intro hle _ _
    rw [← hznext]
    exact hc.log.nextIndex_le hc.purgeUpto hzopt hle
  · intro hle
    refine hc.log.le_of_nextIndex_le hc.purgeUpto hzopt ?_
    show nextIndex e.state.purgeUpto ≤ nextIndex (some z)
    rw [hznext]
    exact hle (by omega) (by omega)

/-- What a finished build changes before it tries to purge: neither the log nor the replication. -/
structure TakesOver (e e' : Engine NID N D) (m : SnapshotMeta NID N) : Prop where
  config : e'.config = e.config
  leader : e'.leader = e.leader
  logIds : e'.state.logIds = e.state.logIds
  output : e'.output = e.output
  flushed : e'.state.ioState.snapshot.flushed = e.state.ioState.snapshot.flushed ∨
    e'.state.ioState.snapshot.flushed = m.lastLogId

omit [LinearOrder NID] in
theorem schedulePolicyBasedPurge_eq (e : Engine NID N D) : e.schedulePolicyBasedPurge = e ∨
    ∃ x, e.schedulePolicyBasedPurge = e.updatePurgeUpto x := by
  unfold schedulePolicyBasedPurge
  split
  · rename_i x _
    exact Or.inr ⟨x, rfl⟩
  · exact Or.inl rfl

omit [LinearOrder NID] in
theorem TakesOver.schedule {e' : Engine NID N D} {m : SnapshotMeta NID N} (h : TakesOver e e' m) :
    TakesOver e e'.schedulePolicyBasedPurge m := by
  rcases schedulePolicyBasedPurge_eq e' with heq | ⟨x, heq⟩
  · rw [heq]
    exact h
  · rw [heq]
    exact ⟨h.config, h.leader, h.logIds, h.output, h.flushed⟩

/-- `on_building_snapshot_done` takes the snapshot over and tries to purge. It moves the schedule
    back exactly if the policy replaces a postponed purge. -/
theorem onBuildingSnapshotDone_spec {m : SnapshotMeta NID N} (hc : e.state.Cursors)
    (hb : BuildOK e m) : ∃ e', TakesOver e e' m ∧ e'.state.Cursors ∧
      Purges e' (e.onBuildingSnapshotDone m) ∧
      (e.state.purgeUpto ≤ e'.state.purgeUpto ↔ KeepsSchedule e m) := by
  obtain ⟨p, hp, hdone⟩ := onBuildingSnapshotDone_eq e m
  have hflushed : p.flushed = e.state.ioState.snapshot.flushed ∨ p.flushed = m.lastLogId := by
    rw [hp]
    exact max_choice _ _
  have hsnap : (e.snapshotBuilt p).state.snapshotMeta = e.state.snapshotMeta := rfl
  rw [hdone]
  unfold updateSnapshot
  rw [hsnap]
  by_cases hle : m.lastLogId ≤ e.state.snapshotMeta.lastLogId
  · -- the snapshot is not newer
    rw [if_pos hle]
    refine ⟨e.snapshotBuilt p, ⟨rfl, rfl, rfl, rfl, hflushed⟩, hc.congr rfl rfl rfl rfl, .refl,
      fun _ x hx hlt => ?_, fun _ => le_rfl⟩
    rw [hx] at hle
    exact absurd hlt (not_lt.2 hle)
  · rw [if_neg hle]
    obtain ⟨x, hx⟩ : ∃ x, m.lastLogId = some x := by
      cases hm : m.lastLogId with
      | none =>
        rw [hm] at hle
        exact absurd Option.none_le hle
      | some x => exact ⟨x, rfl⟩
    have hlt : e.state.snapshotMeta.lastLogId < some x := by
      rw [← hx]
      exact not_le.1 hle
    obtain ⟨e1, he1⟩ : ∃ e1, e1 = ({ e.snapshotBuilt p with
      state := { (e.snapshotBuilt p).state with snapshotMeta := m } } : Engine NID N D) := ⟨_, rfl⟩
    have htakes : TakesOver e e1 m := by
      rw [he1]
      exact ⟨rfl, rfl, rfl, rfl, hflushed⟩
    have hc1 : e1.state.Cursors := by
      rw [he1]
      exact (hb.cursors hc hx hlt).congr rfl rfl rfl rfl
    have hx1 : e1.state.snapshotMeta.lastLogId = some x := by
      rw [he1]
      exact hx
    have hupto : e1.state.purgeUpto = e.state.purgeUpto := by
      rw [he1]
      rfl
    obtain ⟨hc2, hiff⟩ := schedulePolicyBasedPurge_spec hc1 hx1
    rw [hupto, htakes.logIds, htakes.config] at hiff
    dsimp only
    rw [← he1]
    refine ⟨e1.schedulePolicyBasedPurge, htakes.schedule, hc2, tryPurgeLog_purges _, ?_⟩
    rw [hiff]
    constructor
    · intro hkeep y hy _
      obtain rfl := Option.some.inj (hx.symm.trans hy)
      exact hkeep
    · intro hkeep
      exact hkeep x hx hlt

/-! ### Installing a snapshot -/

/-- The log that `install_full_snapshot` purges: it has the end of the snapshot, or it ends before
    it. -/
theorem truncateForSnapshot_logIds {last : LogId NID} (hlog : e.state.logIds.Ordered)
    (hfirst : e.state.logIds.firstIndex ≤ nextIndex e.state.localCommitted)
    (hindex : nextIndex e.state.localCommitted ≤ last.index) :
    ∃ ids, (e.truncateForSnapshot last).state.logIds = ids ∧ ids.purged = e.state.logIds.purged ∧
      (e.state.logIds.Has last → ids = e.state.logIds) ∧
      (¬ e.state.logIds.Has last → nextIndex ids.last ≤ last.index) := by
  unfold truncateForSnapshot
  cases hget : e.state.getLogId last.index with
  | none =>
    refine ⟨_, rfl, rfl, fun _ => rfl, fun _ => ?_⟩
    show nextIndex e.state.logIds.last ≤ last.index
    by_contra hlt
    obtain ⟨x, hx⟩ := hlog.consecutive.exists_refAt (i := last.index) (by omega) (by omega)
    have hget : e.state.logIds.refAt last.index = none := hget
    rw [hget] at hx
    cases hx
  | some x =>
    have hget : e.state.logIds.refAt last.index = some x := hget
    dsimp only
    by_cases hx : x = last
    · subst hx
      rw [if_pos rfl]
      exact ⟨_, rfl, rfl, fun _ => rfl, fun hno => absurd hget hno⟩
    · rw [if_neg hx]
      have hlt := hlog.consecutive.lt_nextIndex hget
      obtain ⟨y, hy⟩ := hlog.consecutive.exists_refAt hfirst
        (show nextIndex e.state.localCommitted < nextIndex e.state.logIds.last by omega)
      have hget' : e.state.getLogId (nextIndex e.state.localCommitted) = some y := hy
      unfold truncateLogs
      rw [hget']
      refine ⟨_, rfl, rfl, fun hhas => ?_, fun _ => ?_⟩
      · exact absurd (Option.some.inj (hget.symm.trans hhas)) hx
      · have hle := hlog.nextIndex_last_truncate hfirst
        exact hle.trans hindex

/-- What `install_full_snapshot` leaves of a log and its cursors: the ids behind the end of the
    snapshot are kept exactly if the log has this end. -/
structure Installs (e e' : Engine NID N D) (snapshot : Snapshot NID N D) (last : LogId NID) :
    Prop where
  snapshotMeta : e'.state.snapshotMeta = snapshot.snapshotMeta
  localCommitted : e'.state.localCommitted = some last
  purgeUpto : e'.state.purgeUpto = some last
  kept : e.state.logIds.Has last → e'.state.logIds = e.state.logIds.purge last
  dropped : ¬ e.state.logIds.Has last → e'.state.logIds = ⟨some last, []⟩

/-- The cursors that `accept_snapshot` writes, and the log that it does not touch. -/
theorem acceptSnapshot_cursors (e : Engine NID N D) (io : LogIOId NID)
    (snapshot : Snapshot NID N D) (last : LogId NID) :
    (e.acceptSnapshot io snapshot last).state.logIds = e.state.logIds ∧
    (e.acceptSnapshot io snapshot last).state.snapshotMeta = e.state.snapshotMeta ∧
    (e.acceptSnapshot io snapshot last).state.localCommitted = some last ∧
    (e.acceptSnapshot io snapshot last).state.purgeUpto = some last := by
  have heq := RaftState.acceptLogIo_eq e.config.mode e.state (.log io)
  refine ⟨?_, ?_, rfl, rfl⟩
  · exact (congrArg RaftState.logIds heq).trans rfl
  · exact (congrArg RaftState.snapshotMeta heq).trans rfl

theorem truncateForSnapshot_snapshotMeta (e : Engine NID N D) (last : LogId NID) :
    (e.truncateForSnapshot last).state.snapshotMeta = e.state.snapshotMeta := by
  unfold truncateForSnapshot
  split
  · split
    · rfl
    · unfold truncateLogs
      split
      · rfl
      · rfl
  · rfl

theorem purgeLog_state {upto : LogId NID} (hupto : e.state.purgeUpto = some upto)
    (hlt : e.state.logIds.purged < some upto) :
    e.purgeLog.state = { e.state with logIds := e.state.logIds.purge upto } := by
  unfold purgeLog
  rw [hupto]
  dsimp only
  rw [if_neg (not_le.2 hlt)]
  rfl

/-- A snapshot that ends behind `local_committed` is installed. -/
theorem installFullSnapshot_eq {snapshot : Snapshot NID N D} {last : LogId NID}
    (hc : e.state.Cursors) (hlast : snapshot.snapshotMeta.lastLogId = some last)
    (hgt : e.state.localCommitted < some last)
    (hleader : last.leaderId ≤ e.state.voteRef.leaderId.toCommitted e.config.mode)
    (hindex : nextIndex e.state.localCommitted ≤ last.index) :
    e.installFullSnapshot snapshot =
      some (((({ e with state := { e.state with snapshotMeta := snapshot.snapshotMeta } } :
        Engine NID N D).truncateForSnapshot last).acceptSnapshot
          ⟨e.state.voteRef.leaderId, some last⟩ snapshot last).purgeLog,
          some (.snapshot last)) := by
  have hnot : ¬ some last.index ≤ optIndex e.state.localCommitted := by
    cases hcom : e.state.localCommitted with
    | none => exact not_le.2 Option.none_lt_some
    | some c =>
      rw [hcom, nextIndex_some] at hindex
      show ¬ some last.index ≤ some c.index
      rw [Option.some_le_some]
      omega
  have hsnap : e.state.snapshotMeta.lastLogId ≤ e.state.localCommitted :=
    hc.log.le_of_nextIndex_le hc.snapshot hc.committed hc.snapshot_le
  have hupdate : e.updateSnapshot snapshot.snapshotMeta =
      ({ e with state := { e.state with snapshotMeta := snapshot.snapshotMeta } }, true) := by
    unfold updateSnapshot
    rw [hlast, if_neg (not_le.2 (hsnap.trans_lt hgt))]
  unfold installFullSnapshot
  rw [hlast]
  dsimp only
  rw [if_neg (not_le.2 hgt), if_neg (not_lt.2 hleader), if_neg hnot, hupdate]
  rfl

theorem installFullSnapshot_spec {snapshot : Snapshot NID N D} {last : LogId NID}
    (hc : e.state.Cursors) (hlast : snapshot.snapshotMeta.lastLogId = some last)
    (hgt : e.state.localCommitted < some last)
    (hleader : last.leaderId ≤ e.state.voteRef.leaderId.toCommitted e.config.mode)
    (hindex : nextIndex e.state.localCommitted ≤ last.index) :
    ∃ e', e.installFullSnapshot snapshot = some (e', some (.snapshot last)) ∧
      Installs e e' snapshot last := by
  have hpurged : e.state.logIds.purged ≤ e.state.localCommitted :=
    hc.log.le_of_nextIndex_le hc.log.hasOpt_purged hc.committed
      (hc.purged_le.trans hc.purgeUpto_le_committed)
  obtain ⟨e1, he1⟩ : ∃ e1, e1 = ({ e with state := { e.state with
    snapshotMeta := snapshot.snapshotMeta } } : Engine NID N D) := ⟨_, rfl⟩
  have hlog1 : e1.state.logIds = e.state.logIds ∧
      e1.state.localCommitted = e.state.localCommitted := by
    rw [he1]
    exact ⟨rfl, rfl⟩
  rw [installFullSnapshot_eq hc hlast hgt hleader hindex, ← he1]
  refine ⟨_, rfl, ?_⟩
  have hindex1 : nextIndex e1.state.localCommitted ≤ last.index := by
    rw [hlog1.2]
    exact hindex
  obtain ⟨ids, hids, hidsp, hhas, hno⟩ := truncateForSnapshot_logIds
    (by rw [hlog1.1]; exact hc.log)
    (by rw [hlog1.1, hlog1.2]; exact hc.purged_le.trans hc.purgeUpto_le_committed) hindex1
  rw [hlog1.1] at hidsp hhas hno
  obtain ⟨e2, he2⟩ : ∃ e2, e2 = (e1.truncateForSnapshot last).acceptSnapshot
    ⟨e.state.voteRef.leaderId, some last⟩ snapshot last := ⟨_, rfl⟩
  obtain ⟨hids2, hmeta2, hcom2, hupto2⟩ := acceptSnapshot_cursors (e1.truncateForSnapshot last)
    ⟨e.state.voteRef.leaderId, some last⟩ snapshot last
  rw [← he2] at hids2 hmeta2 hcom2 hupto2 ⊢
  rw [hids] at hids2
  rw [truncateForSnapshot_snapshotMeta, he1] at hmeta2
  have hstate := purgeLog_state hupto2
    (by rw [hids2, hidsp]; exact hpurged.trans_lt hgt)
  rw [hids2] at hstate
  have hlogIds := congrArg RaftState.logIds hstate
  refine ⟨?_, ?_, ?_, fun hin => ?_, fun hout => ?_⟩
  · rw [hstate]
    exact hmeta2
  · rw [hstate]
    exact hcom2
  · rw [hstate]
    exact hupto2
  · rw [hlogIds, hhas hin]
  · rw [hlogIds]
    exact if_pos (hno hout)

theorem Installs.log {e' : Engine NID N D} {snapshot : Snapshot NID N D} {last : LogId NID}
    (h : Installs e e' snapshot last) (hc : e.state.Cursors)
    (hindex : nextIndex e.state.localCommitted ≤ last.index) :
    e'.state.logIds.Ordered ∧ e'.state.logIds.purged = some last := by
  by_cases hhas : e.state.logIds.Has last
  · have hfirst : e.state.logIds.firstIndex ≤ nextIndex e.state.localCommitted :=
      hc.purged_le.trans hc.purgeUpto_le_committed
    rw [h.kept hhas]
    exact ⟨hc.log.purge (Or.inl hhas), LogIds.purged_purge (hfirst.trans hindex)⟩
  · rw [h.dropped hhas]
    exact ⟨⟨fun i x hx => by simp at hx, by simp⟩, rfl⟩

/-- All cursors are at the end of the snapshot. -/
theorem Installs.cursors {e' : Engine NID N D} {snapshot : Snapshot NID N D} {last : LogId NID}
    (h : Installs e e' snapshot last) (hlast : snapshot.snapshotMeta.lastLogId = some last)
    (hc : e.state.Cursors) (hindex : nextIndex e.state.localCommitted ≤ last.index) :
    e'.state.Cursors := by
  obtain ⟨hlog, hpurged⟩ := h.log hc hindex
  have hend : e'.state.logIds.HasOpt (some last) := by
    rw [← hpurged]
    exact hlog.hasOpt_purged
  have hsnap : e'.state.snapshotMeta.lastLogId = some last := by
    rw [h.snapshotMeta]
    exact hlast
  refine ⟨hlog, ?_, ?_, ?_, ?_, ?_, ?_⟩
  · rw [h.purgeUpto]
    exact hend
  · rw [hsnap]
    exact hend
  · rw [h.localCommitted]
    exact hend
  · rw [hpurged, h.purgeUpto]
  · rw [h.purgeUpto, hsnap]
    exact le_rfl
  · rw [hsnap, h.localCommitted]

end Engine

end ZenohRaft
