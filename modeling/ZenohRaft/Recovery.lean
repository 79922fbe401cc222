/-
  Recovering from storage: `StorageHelper::get_initial_state` on what a crash leaves.

  A crash keeps the vote, the log up to some entry, and a state machine and snapshot that may be
  ahead of the log. Start-up then has to bring these together. It does not always:
  * the saved committed log id is beyond the log and the state machine: the entries in between
    were submitted, saved as committed and never flushed. Start-up fails.
  * a snapshot exists that is older than what is purged. This happens when the state machine is
    ahead of the log: the log is then purged up to the last applied log id, and the older
    snapshot stays. The state violates `validate`.
  * a snapshot was installed on a log that ends before it in index but not in the order of log ids,
    and the crash came before the log was purged. Start-up takes the log for the newer one and keeps
    it; what is appended later stands behind a hole, and the log ids cannot be read back any more
    (`Ahead.recovery_fails`).

  `Coherent` says of a storage that its log is in order and that, where it meets what is applied or
  committed, it has the same log id there. Entries may be missing in it, as in the third case, which
  takes two crashes (`Node.Ran.crash_whole`). `recovers_iff` says that on such a storage these cases
  are the only ones.
-/
import ZenohRaft.Log.Safety
import ZenohRaft.LogIdList
import ZenohRaft.Startup

namespace ZenohRaft

open Lib

variable {NID N D : Type} [LinearOrder NID]

/-! ## Reading back the log ids -/

/-- `RaftLogReaderExt::get_log_id`. -/
def LogStore.readLogId (store : LogStore NID N D) (index : Nat) : Option (LogId NID) :=
  (store.entries.find? fun ent => decide (ent.logId.index = index)).map Entry.logId

/-- `StorageHelper::get_key_log_ids`. -/
def LogStore.loadLogIds (store : LogStore NID N D) (purged last : Option (LogId NID)) :
    Option (LogIdList NID) :=
  match last with
  | none => some ⟨purged, []⟩
  | some last =>
    if optIndex purged = some last.index then some ⟨some last, []⟩
    else
      (store.readLogId (nextIndex purged)).bind fun first =>
        (LogIdList.loadKeyLogIds store.readLogId (last.index + 1) first last []).map
          fun keys => ⟨purged, keys⟩

section LogIds

variable {b i : Nat} {l : List (Entry NID N D)} {store : LogStore NID N D}

omit [LinearOrder NID] in
theorem IndexedFrom.find?_eq (h : IndexedFrom b l) (i : Nat) :
    l.find? (fun ent => decide (ent.logId.index = b + i)) = l[i]? := by
  induction l generalizing b i with
  | nil => rfl
  | cons a l ih =>
    obtain ⟨ha, h⟩ := indexedFrom_cons.1 h
    cases i with
    | zero => simp [ha]
    | succ i =>
      rw [List.find?_cons_of_neg (by simp [ha]), List.getElem?_cons_succ, ← ih h i]
      congr
      funext ent
      congr 2
      omega

omit [LinearOrder NID] in
theorem IndexedFrom.consecutive (h : IndexedFrom b l) :
    ConsecutiveFrom b (l.map Entry.logId) := by
  intro i x hx
  rw [List.getElem?_map, Option.map_eq_some_iff] at hx
  obtain ⟨ent, hent, rfl⟩ := hx
  exact h i ent hent

theorem leadersUp_of_pairwise {ids : List (LogId NID)} (h : ids.Pairwise (· < ·)) :
    LeadersUp ids := by
  refine h.imp ?_
  intro x y hxy
  rcases LogId.lt_iff.1 hxy with h | h
  · exact h.le
  · exact h.1.le

/-- What is read back stands for exactly the log ids that are stored. -/
theorem expand_loadLogIds (hi : IndexedFrom (nextIndex store.purged) store.entries)
    (ho : (store.entries.map Entry.logId).Pairwise (· < ·)) :
    (store.loadLogIds store.purged store.lastLogId).map LogIdList.expand =
      some ⟨store.purged, store.entries.map Entry.logId⟩ := by
  unfold LogStore.loadLogIds LogStore.lastLogId
  cases hlast : store.entries.getLast? with
  | none =>
    have hnil : store.entries = [] := List.getLast?_eq_none_iff.1 hlast
    cases hp : store.purged with
    | none => simp [hnil, LogIdList.expand, LogIdList.expandKeys]
    | some p => simp [hnil, optIndex, LogIdList.expand, LogIdList.expandKeys]
  | some last =>
    have hne : store.entries ≠ [] := by
      intro hnil
      simp [hnil] at hlast
    have hlen : 0 < store.entries.length := List.length_pos_iff.2 hne
    have hlast' : store.entries[store.entries.length - 1]? = some last := by
      rw [← List.getLast?_eq_getElem?, hlast]
    have hidx := hi _ last hlast'
    obtain ⟨first, hfirst⟩ : ∃ first, store.entries[0]? = some first :=
      ⟨store.entries[0], List.getElem?_eq_getElem hlen⟩
    have hread : ∀ i, store.readLogId (nextIndex store.purged + i) =
        (store.entries.map Entry.logId)[i]? := by
      intro i
      rw [LogStore.readLogId, hi.find?_eq i, List.getElem?_map]
    have hcond : optIndex store.purged ≠ some last.logId.index := by
      cases hp : store.purged with
      | none => simp [optIndex]
      | some p =>
        rw [hp, nextIndex] at hidx
        simp only [optIndex, Option.map_some, ne_eq, Option.some.injEq]
        omega
    have hfirst' : (store.entries.map Entry.logId)[0]? = some first.logId := by
      rw [List.getElem?_map, hfirst]
      rfl
    have hlast'' : (store.entries.map Entry.logId)[store.entries.length - 1]? =
        some last.logId := by
      rw [List.getElem?_map, hlast']
      rfl
    have hload : LogIdList.loadKeyLogIds store.readLogId (last.logId.index + 1) first.logId
        last.logId [] = some _ :=
      LogIdList.loadKeyLogIds_eq hread hi.consecutive (leadersUp_of_pairwise ho)
        (last.logId.index + 1) (Nat.zero_le _) hfirst' hlast'' (by omega)
    have hseg : LogIdList.segment (store.entries.map Entry.logId) 0 (store.entries.length - 1) =
        store.entries.map Entry.logId := by
      unfold LogIdList.segment
      rw [List.drop_zero, List.take_of_length_le (by rw [List.length_map]; omega)]
    have hfirst0 : store.readLogId (nextIndex store.purged) = some first.logId := by
      rw [← hfirst', ← hread 0, Nat.add_zero]
    simp only [Option.map_some, Option.some_or, if_neg hcond, hfirst0, Option.bind_some, hload]
    rw [hseg, LogIdList.expand, (LogIdList.expandKeys_foldl hi.consecutive).1]

end LogIds

/-! ## Storages that fit together -/

/-- `e` comes before `e'`. -/
def Entry.Before (e e' : Entry NID N D) : Prop :=
  e.logId < e'.logId ∧ e.logId.index < e'.logId.index

/-- A log store and a state machine that fit together. The log store holds entries in order, behind
    the purged ones; some may be missing. The state machine and its snapshot are states of one
    sequence of applied entries, which reaches at least as far as the purged log. Where the log
    still has an entry at the end of that sequence, or at the committed log id that was saved, it is
    the same entry, and entries behind the end of that sequence are later ones. -/
structure Coherent (store : LogStore NID N D) (sm : StateMachine NID N D) : Prop where
  ordered : store.entries.Pairwise Entry.Before
  behind : ∀ p ∈ store.purged, ∀ ent ∈ store.entries, p < ent.logId ∧ p.index < ent.logId.index
  applied : IndexedFrom 0 sm.applied ∧ (sm.applied.map Entry.logId).Pairwise (· < ·)
  snapshot : ∀ s ∈ sm.snapshot, s.snapshotMeta = ⟨tipId s.data, lastMembershipIn s.data⟩ ∧
    IndexedFrom 0 s.data ∧ (s.data.map Entry.logId).Pairwise (· < ·) ∧
    (s.data <+: sm.applied ∨ sm.applied <+: s.data)
  purged : ∀ p ∈ store.purged, ∃ ent ∈ sm.restoreFromSnapshot.applied, ent.logId = p
  agrees : ∀ x, sm.restoreFromSnapshot.lastApplied = some x ∨ store.committed = some x →
    ∀ ent ∈ store.entries, ent.logId.index = x.index → ent.logId = x
  above : ∀ x ∈ sm.restoreFromSnapshot.lastApplied, ∀ ent ∈ store.entries,
    x.index < ent.logId.index → x < ent.logId
  committed : ∀ c ∈ store.committed, ∀ x ∈ sm.restoreFromSnapshot.lastApplied,
    (x < c ↔ x.index < c.index)

/-- No entry is missing in the log. -/
def LogStore.Whole (store : LogStore NID N D) : Prop :=
  IndexedFrom (nextIndex store.purged) store.entries

/-- A node that has not been restarted before leaves a whole log when it crashes. -/
theorem Node.Ran.crash_whole [DecidableEq N] {h : History NID N D} {e0 : Entry NID N D}
    {config : EngineConfig NID} {evs : List (Nat × Event NID N D)} {n : Node NID N D}
    (hs : h.Sound config.mode) (hb : Node.Begins h e0) (hr : Node.Ran h e0 config evs n)
    (keep : Nat) : (n.store.crash keep).Whole := by
  obtain ⟨-, io, sub, hn⟩ := hr.inOrder hs hb
  exact hn.ok.indexed.of_le ((List.prefix_append_right_inj _).2 (List.take_prefix _ _))

/-- Start-up succeeds with a valid state: nothing is purged beyond the snapshot, the log ids are
    those of the stored log, and the effective membership is the last one in the state machine
    and the log. -/
def Recovers (mode : LeaderIdMode) (id : NID) (now : Nat) (store : LogStore NID N D)
    (sm : StateMachine NID N D) : Prop :=
  ∃ state store' sm', getInitialState id now store sm = some (state, store', sm') ∧
    state.validate mode = true ∧
    state.logIds.purged ≤ state.purgeUpto ∧
    (∀ s ∈ sm'.snapshot, state.purgeUpto ≤ s.snapshotMeta.lastLogId) ∧
    (store'.loadLogIds store'.purged store'.lastLogId).map LogIdList.expand = some state.logIds ∧
    state.logIds = ⟨store'.purged, store'.entries.map Entry.logId⟩ ∧
    state.membershipState.effective = lastMembershipIn (sm'.applied ++
      store.entries.filter fun ent => decide (nextIndex sm'.lastApplied ≤ ent.logId.index))

/-- A snapshot reaches what was purged and, if the state machine is ahead of the log, what was
    applied. -/
def SnapshotReaches (store : LogStore NID N D) (sm : StateMachine NID N D) : Prop :=
  ∀ s ∈ sm.snapshot, store.purged ≤ s.snapshotMeta.lastLogId ∧
    (store.lastLogId < sm.restoreFromSnapshot.lastApplied →
      sm.restoreFromSnapshot.lastApplied ≤ s.snapshotMeta.lastLogId)

/-- When it does: no entry is missing in the log, unless the state machine is ahead of it; the log
    or the state machine reaches the committed log id that was saved; and a snapshot reaches far
    enough, too. -/
def Recoverable (store : LogStore NID N D) (sm : StateMachine NID N D) : Prop :=
  (store.Whole ∨ store.lastLogId < sm.restoreFromSnapshot.lastApplied) ∧
    (store.committed ≤ sm.restoreFromSnapshot.lastApplied ∨
      nextIndex store.committed ≤ nextIndex store.lastLogId) ∧ SnapshotReaches store sm

/-! ## Memberships in order -/

theorem pairwise_before {b : Nat} {l : List (Entry NID N D)} (hi : IndexedFrom b l)
    (ho : (l.map Entry.logId).Pairwise (· < ·)) : l.Pairwise Entry.Before := by
  rw [List.pairwise_map] at ho
  rw [List.pairwise_iff_getElem] at ho ⊢
  intro i j hil hjl hij
  have hx := hi i _ (List.getElem?_eq_getElem hil)
  have hy := hi j _ (List.getElem?_eq_getElem hjl)
  exact ⟨ho i j hil hjl hij, by omega⟩

/-- A membership state whose last memberships come in order is valid. -/
theorem storedMemberships_pairwise {l : List (Entry NID N D)} (h : l.Pairwise Entry.Before) :
    (storedMemberships l).Pairwise fun a b =>
      a.logId ≤ b.logId ∧ optIndex a.logId ≤ optIndex b.logId := by
  unfold storedMemberships
  refine List.Pairwise.filterMap _ ?_ h
  intro e e' hee a ha a' ha'
  obtain ⟨m, -, rfl⟩ := Option.map_eq_some_iff.1 ha
  obtain ⟨m', -, rfl⟩ := Option.map_eq_some_iff.1 ha'
  exact ⟨Option.some_le_some.2 hee.1.le, Option.some_le_some.2 hee.2.le⟩

omit [LinearOrder NID] in
/-- The two cases of `get_membership`: it returns the last two memberships. -/
theorem getMembership_cases (store : LogStore NID N D) (sm : StateMachine NID N D) :
    ∃ inLog, inLog = storedMemberships (store.entries.filter fun ent =>
        decide (max (nextIndex store.purged) (nextIndex sm.lastApplied) ≤ ent.logId.index)) ∧
      ((inLog = [] ∧ getMembership store sm = ⟨sm.lastMembership, sm.lastMembership⟩) ∨
        (∃ a, inLog = [a] ∧ getMembership store sm = ⟨sm.lastMembership, a⟩) ∨
        ∃ l a b, inLog = l ++ [a, b] ∧ getMembership store sm = ⟨a, b⟩) := by
  refine ⟨_, rfl, ?_⟩
  unfold getMembership
  dsimp only
  generalize storedMemberships (store.entries.filter fun ent =>
    decide (max (nextIndex store.purged) (nextIndex sm.lastApplied) ≤ ent.logId.index)) = inLog
  rcases List.eq_nil_or_concat inLog with rfl | ⟨l, b, rfl⟩
  · exact Or.inl ⟨rfl, rfl⟩
  · rcases List.eq_nil_or_concat l with rfl | ⟨l, a, rfl⟩
    · exact Or.inr (Or.inl ⟨b, rfl, rfl⟩)
    · refine Or.inr (Or.inr ⟨l, a, b, by simp, ?_⟩)
      have hdrop : ((l ++ [a]) ++ [b]).drop (((l ++ [a]) ++ [b]).length - 2) = [a, b] := by
        rw [List.append_assoc]
        simp
      rw [List.concat_eq_append, List.concat_eq_append, hdrop]

/-- Applied entries followed by the rest of the log: `get_membership` returns the last
    membership, and the one before it is not later. -/
theorem getMembership_spec {store : LogStore NID N D} {sm : StateMachine NID N D}
    (hp : nextIndex store.purged ≤ nextIndex sm.lastApplied)
    (hord : (sm.applied ++ store.entries.filter fun ent =>
      decide (nextIndex sm.lastApplied ≤ ent.logId.index)).Pairwise Entry.Before) :
    (getMembership store sm).validate = true ∧
      (getMembership store sm).effective = lastMembershipIn (sm.applied ++
        store.entries.filter fun ent => decide (nextIndex sm.lastApplied ≤ ent.logId.index)) := by
  obtain ⟨inLog, hinLog, hcases⟩ := getMembership_cases store sm
  rw [max_eq_right hp] at hinLog
  have hpair := storedMemberships_pairwise hord
  unfold lastMembershipIn
  rw [storedMemberships_append, ← hinLog] at hpair ⊢
  rcases hcases with ⟨rfl, heq⟩ | ⟨a, rfl, heq⟩ | ⟨l, a, b, rfl, heq⟩
  · rw [heq, List.append_nil]
    exact ⟨by simp [MembershipState.validate], rfl⟩
  · rw [heq]
    refine ⟨?_, by simp⟩
    have hle : sm.lastMembership.logId ≤ a.logId ∧
        optIndex sm.lastMembership.logId ≤ optIndex a.logId := by
      unfold StateMachine.lastMembership
      cases hlast : (storedMemberships sm.applied).getLast? with
      | none => exact ⟨Option.none_le, Option.none_le⟩
      | some m =>
        exact (List.pairwise_append.1 hpair).2.2 m (List.mem_of_getLast? hlast) a (by simp)
    simp [MembershipState.validate, hle.1, hle.2]
  · rw [heq]
    refine ⟨?_, by simp⟩
    have hlog := (List.pairwise_append.1 (List.pairwise_append.1 hpair).2.1).2.1
    have hab := List.rel_of_pairwise_cons hlog (List.mem_singleton.2 rfl)
    simp [MembershipState.validate, hab.1, hab.2]

/-! ## Bringing the state machine up to date -/

variable {store : LogStore NID N D} {sm sm' : StateMachine NID N D} {a : Option (LogId NID)}

/-- The state machine has applied everything up to `a`, and the log fits to that. -/
structure CaughtUp (store : LogStore NID N D) (sm : StateMachine NID N D)
    (a : Option (LogId NID)) : Prop where
  last : sm.lastApplied = a
  applied : IndexedFrom 0 sm.applied ∧ (sm.applied.map Entry.logId).Pairwise (· < ·)
  agrees : ∀ x ∈ a, ∀ ent ∈ store.entries, ent.logId.index = x.index → ent.logId = x
  above : ∀ x ∈ a, ∀ ent ∈ store.entries, x.index < ent.logId.index → x < ent.logId
  purged : ∀ p ∈ store.purged, ∃ ent ∈ sm.applied, ent.logId = p
  snapshot : ∀ s ∈ sm.snapshot, s.snapshotMeta.lastLogId ≤ a

theorem restoreFromSnapshot_snapshot (sm : StateMachine NID N D) :
    sm.restoreFromSnapshot.snapshot = sm.snapshot := by
  unfold StateMachine.restoreFromSnapshot
  cases hs : sm.snapshot with
  | none => exact hs
  | some s =>
    dsimp only
    split
    · rfl
    · exact hs

theorem lastApplied_le_restored (sm : StateMachine NID N D)
    (h : ∀ s ∈ sm.snapshot, s.snapshotMeta.lastLogId = tipId s.data) :
    sm.lastApplied ≤ sm.restoreFromSnapshot.lastApplied ∧
      ∀ s ∈ sm.snapshot, s.snapshotMeta.lastLogId ≤ sm.restoreFromSnapshot.lastApplied := by
  unfold StateMachine.restoreFromSnapshot
  cases hs : sm.snapshot with
  | none => exact ⟨le_rfl, nofun⟩
  | some s =>
    dsimp only
    have hdata : s.snapshotMeta.lastLogId = tipId s.data := h s hs
    split
    · rename_i hlt
      refine ⟨?_, ?_⟩
      · show sm.lastApplied ≤ tipId s.data
        rw [← hdata]
        exact hlt.le
      · rintro s' ⟨⟩
        exact le_of_eq hdata
    · rename_i hge
      refine ⟨le_rfl, ?_⟩
      rintro s' ⟨⟩
      exact not_lt.1 hge

theorem Coherent.restored (h : Coherent store sm) :
    CaughtUp store sm.restoreFromSnapshot sm.restoreFromSnapshot.lastApplied := by
  refine ⟨rfl, ?_, fun x hx => h.agrees x (Or.inl hx), h.above, h.purged, ?_⟩
  · unfold StateMachine.restoreFromSnapshot
    cases hs : sm.snapshot with
    | none => exact h.applied
    | some s =>
      dsimp only
      split
      · exact ⟨(h.snapshot s hs).2.1, (h.snapshot s hs).2.2.1⟩
      · exact h.applied
  · intro s hs
    rw [restoreFromSnapshot_snapshot] at hs
    refine (lastApplied_le_restored sm ?_).2 s hs
    intro s hs
    rw [(h.snapshot s hs).1]

namespace CaughtUp

/-- What is purged is applied. -/
theorem purged_le (h : CaughtUp store sm a) {p : LogId NID} (hp : p ∈ store.purged) :
    ∃ x, a = some x ∧ p ≤ x ∧ p.index ≤ x.index ∧ (p.index = x.index → p = x) := by
  obtain ⟨ent, hent, rfl⟩ := h.purged p hp
  cases hlast : sm.applied.getLast? with
  | none =>
    rw [List.getLast?_eq_none_iff.1 hlast] at hent
    cases hent
  | some last =>
    have ha : a = some last.logId := by rw [← h.last, StateMachine.lastApplied, hlast]; rfl
    refine ⟨last.logId, ha, ?_⟩
    obtain ⟨l, hl⟩ := List.getLast?_eq_some_iff.1 hlast
    have hbefore := pairwise_before h.applied.1 h.applied.2
    rw [hl] at hent hbefore
    rcases List.mem_append.1 hent with hent | hent
    · have hb := (List.pairwise_append.1 hbefore).2.2 ent hent last (by simp)
      exact ⟨hb.1.le, hb.2.le, fun heq => absurd heq hb.2.ne⟩
    · rw [List.mem_singleton.1 hent]
      exact ⟨le_rfl, le_rfl, fun _ => rfl⟩

theorem nextIndex_purged_le (h : CaughtUp store sm a) : nextIndex store.purged ≤ nextIndex a := by
  cases hp : store.purged with
  | none => exact Nat.zero_le _
  | some p =>
    obtain ⟨x, rfl, -, hle, -⟩ := h.purged_le hp
    exact Nat.succ_le_succ hle

/-- The applied entries and the rest of the log are in order. -/
theorem pairwise_full (h : CaughtUp store sm a) (hc : Coherent store sm') :
    (sm.applied ++ store.entries.filter fun ent =>
      decide (nextIndex a ≤ ent.logId.index)).Pairwise Entry.Before := by
  rw [List.pairwise_append]
  refine ⟨pairwise_before h.applied.1 h.applied.2, hc.ordered.sublist List.filter_sublist, ?_⟩
  intro e he e' he'
  obtain ⟨hmem, hle⟩ := List.mem_filter.1 he'
  have hle := of_decide_eq_true hle
  cases hlast : sm.applied.getLast? with
  | none =>
    rw [List.getLast?_eq_none_iff.1 hlast] at he
    cases he
  | some last =>
    have ha : a = some last.logId := by rw [← h.last, StateMachine.lastApplied, hlast]; rfl
    rw [ha, nextIndex] at hle
    have hlater := h.above _ ha e' hmem hle
    obtain ⟨l, hl⟩ := List.getLast?_eq_some_iff.1 hlast
    have hbefore := pairwise_before h.applied.1 h.applied.2
    rw [hl] at he hbefore
    rcases List.mem_append.1 he with he | he
    · have hb := (List.pairwise_append.1 hbefore).2.2 e he last (by simp)
      exact ⟨hb.1.trans hlater, by have := hb.2; omega⟩
    · rw [List.mem_singleton.1 he]
      exact ⟨hlater, hle⟩

end CaughtUp

/-! ### Reading a range of the log -/

section

omit [LinearOrder NID]

theorem IndexedFrom.drop {b : Nat} {l : List (Entry NID N D)} (h : IndexedFrom b l) (k : Nat) :
    IndexedFrom (b + k) (l.drop k) := by
  intro i ent hi
  rw [List.getElem?_drop] at hi
  have := h _ ent hi
  omega

/-- The entries of a range. -/
theorem IndexedFrom.filter_range {b start stop : Nat} {l : List (Entry NID N D)}
    (h : IndexedFrom b l) (hb : b ≤ start) :
    l.filter (fun ent => decide (start ≤ ent.logId.index) && decide (ent.logId.index < stop)) =
      (l.drop (start - b)).take (stop - start) := by
  have hdrop := h.drop (start - b)
  rw [Nat.add_sub_cancel' hb] at hdrop
  rw [← hdrop.filter_lt stop, ← h.filter_ge start, List.filter_filter]
  congr
  funext ent
  exact Bool.and_comm _ _

theorem readRange_eq {b start stop : Nat} {l : List (Entry NID N D)} (h : IndexedFrom b l)
    (hb : b ≤ start) (hlt : start < stop) (hstop : stop ≤ b + l.length) :
    readRange l start stop = some ((l.drop (start - b)).take (stop - start)) := by
  have hdrop := h.drop (start - b)
  rw [Nat.add_sub_cancel' hb] at hdrop
  unfold readRange
  dsimp only
  rw [h.filter_range hb]
  generalize hr : (l.drop (start - b)).take (stop - start) = range
  have hlen : range.length = stop - start := by
    rw [← hr, List.length_take, List.length_drop]
    omega
  have hidx : IndexedFrom start range := hdrop.of_le (hr ▸ List.take_prefix _ _)
  have hpos : 0 < range.length := by omega
  have hget : ∀ i, i < range.length → ∃ ent, range[i]? = some ent ∧ ent.logId.index = start + i :=
    fun i hi => ⟨_, List.getElem?_eq_getElem hi, hidx i _ (List.getElem?_eq_getElem hi)⟩
  obtain ⟨first, hfirst, hfirstIdx⟩ := hget 0 hpos
  obtain ⟨last, hlast, hlastIdx⟩ := hget (range.length - 1) (by omega)
  rw [if_pos]
  rw [List.head?_eq_getElem?, List.getLast?_eq_getElem?, hfirst, hlast, Option.map_some,
    Option.map_some, hfirstIdx, hlastIdx]
  exact ⟨rfl, congrArg some (by omega)⟩

end

/-! ### Re-applying the log -/

theorem Coherent.purged_le_last (h : Coherent store sm) : store.purged ≤ store.lastLogId := by
  unfold LogStore.lastLogId
  cases hlast : store.entries.getLast? with
  | none => exact le_rfl
  | some last =>
    cases hp : store.purged with
    | none => exact Option.none_le
    | some p => exact Option.some_le_some.2 (h.behind p hp last (List.mem_of_getLast? hlast)).1.le

theorem Coherent.entry_le_last (h : Coherent store sm) {ent : Entry NID N D}
    (hent : ent ∈ store.entries) :
    some ent.logId ≤ store.lastLogId ∧ ent.logId.index < nextIndex store.lastLogId := by
  unfold LogStore.lastLogId
  cases hlast : store.entries.getLast? with
  | none =>
    rw [List.getLast?_eq_none_iff.1 hlast] at hent
    cases hent
  | some last =>
    obtain ⟨l, hl⟩ := List.getLast?_eq_some_iff.1 hlast
    have hord := h.ordered
    rw [hl] at hent
    rw [hl, List.pairwise_append] at hord
    rcases List.mem_append.1 hent with hent | hent
    · have hb := hord.2.2 ent hent last (by simp)
      exact ⟨Option.some_le_some.2 hb.1.le, Nat.lt_succ_of_lt hb.2⟩
    · rw [List.mem_singleton.1 hent]
      exact ⟨le_rfl, Nat.lt_succ_self _⟩

omit [LinearOrder NID] in
/-- The log ends where its last log id says. -/
theorem LogStore.Whole.nextIndex_last (hw : store.Whole) :
    nextIndex store.lastLogId = nextIndex store.purged + store.entries.length := by
  unfold LogStore.lastLogId
  cases hlast : store.entries.getLast? with
  | none => simp [List.getLast?_eq_none_iff.1 hlast]
  | some last =>
    rw [List.getLast?_eq_getElem?] at hlast
    have hlen := (List.getElem?_eq_some_iff.1 hlast).1
    have := hw _ last hlast
    simp only [Option.map_some, Option.some_or, nextIndex]
    simp only [nextIndex] at this
    omega

/-- `x` is not before the purged log, and the log has no other log id in its place. -/
structure FitsLog (store : LogStore NID N D) (x : LogId NID) : Prop where
  agrees : ∀ ent ∈ store.entries, ent.logId.index = x.index → ent.logId = x
  purged : ∀ p ∈ store.purged, p ≤ x ∧ p.index ≤ x.index ∧ (p.index = x.index → p = x)

/-- The log ends before such a log id, or has it, or starts right behind it. -/
theorem FitsLog.mem {x : LogId NID} (h : FitsLog store x) (hw : store.Whole)
    (hlt : x.index < nextIndex store.lastLogId) :
    store.purged = some x ∨ ∃ e ∈ store.entries, e.logId = x := by
  rw [hw.nextIndex_last] at hlt
  rcases Nat.lt_or_ge x.index (nextIndex store.purged) with hp | hge
  · cases hpurged : store.purged with
    | none => simp [hpurged, nextIndex] at hp
    | some p =>
      obtain ⟨-, hidx, heq⟩ := h.purged p hpurged
      rw [hpurged, nextIndex] at hp
      rw [heq (by omega)]
      exact Or.inl rfl
  · have hlen : x.index - nextIndex store.purged < store.entries.length := by omega
    have hget := List.getElem?_eq_getElem hlen
    have hidx := hw _ _ hget
    have hmem := List.mem_of_getElem? hget
    exact Or.inr ⟨_, hmem, h.agrees _ hmem (by omega)⟩

theorem FitsLog.le_last {x : LogId NID} (h : FitsLog store x) (hc : Coherent store sm)
    (hw : store.Whole) (hlt : x.index < nextIndex store.lastLogId) :
    some x ≤ store.lastLogId := by
  rcases h.mem hw hlt with hp | ⟨e, he, rfl⟩
  · rw [← hp]
    exact hc.purged_le_last
  · exact (hc.entry_le_last he).1

/-- What the log has behind such a log id is later. -/
theorem FitsLog.above {x : LogId NID} (h : FitsLog store x) (hc : Coherent store sm)
    (hw : store.Whole) {ent : Entry NID N D} (hent : ent ∈ store.entries)
    (hlt : x.index < ent.logId.index) : x < ent.logId := by
  rcases h.mem hw (hlt.trans (hc.entry_le_last hent).2) with hp | ⟨e, he, rfl⟩
  · exact (hc.behind x hp ent hent).1
  · obtain ⟨i, hi⟩ := List.mem_iff_getElem?.1 he
    obtain ⟨j, hj⟩ := List.mem_iff_getElem?.1 hent
    have hei := hw i e hi
    have hej := hw j ent hj
    obtain ⟨hil, rfl⟩ := List.getElem?_eq_some_iff.1 hi
    obtain ⟨hjl, rfl⟩ := List.getElem?_eq_some_iff.1 hj
    exact (List.pairwise_iff_getElem.1 hc.ordered i j hil hjl (by omega)).1

/-- A log that is behind what is applied also ends before it. -/
theorem CaughtUp.nextIndex_last_lt (h : CaughtUp store sm a) (hlt : store.lastLogId < a) :
    nextIndex store.lastLogId < nextIndex a := by
  cases a with
  | none => exact absurd hlt Option.not_lt_none
  | some x =>
    unfold LogStore.lastLogId at hlt ⊢
    cases hlast : store.entries.getLast? with
    | some last =>
      have hmem := List.mem_of_getLast? hlast
      rw [hlast] at hlt
      have hlt : last.logId < x := Option.some_lt_some.1 hlt
      have hle : ¬ x.index < last.logId.index := fun hi => lt_asymm hlt (h.above x rfl last hmem hi)
      have hne : last.logId.index ≠ x.index := fun hi => hlt.ne (h.agrees x rfl last hmem hi)
      show last.logId.index + 1 < x.index + 1
      omega
    | none =>
      rw [hlast] at hlt
      cases hp : store.purged with
      | none => exact Nat.succ_pos _
      | some p =>
        obtain ⟨y, hy, -, hle, heq⟩ := h.purged_le hp
        obtain rfl := Option.some.inj hy
        rw [hp] at hlt
        have hne : p.index ≠ x.index := fun hi => (Option.some_lt_some.1 hlt).ne (heq hi)
        show p.index + 1 < x.index + 1
        omega

/-- The saved committed log id, when the state machine has not reached it. -/
theorem Coherent.committed_fits (h : Coherent store sm) {c : LogId NID}
    (hc : c ∈ store.committed) (hlt : sm.restoreFromSnapshot.lastApplied < some c) :
    FitsLog store c ∧ nextIndex sm.restoreFromSnapshot.lastApplied ≤ c.index := by
  refine ⟨⟨h.agrees c (Or.inr hc), ?_⟩, ?_⟩
  · intro p hp
    obtain ⟨x, hx, hpx, hidx, -⟩ := h.restored.purged_le hp
    rw [hx] at hlt
    have hlt := Option.some_lt_some.1 hlt
    have hlt' := (h.committed c hc x hx).1 hlt
    exact ⟨hpx.trans hlt.le, by omega, by omega⟩
  · cases hx : sm.restoreFromSnapshot.lastApplied with
    | none => exact Nat.zero_le _
    | some x =>
      rw [hx] at hlt
      exact (h.committed c hc x hx).1 (Option.some_lt_some.1 hlt)

/-- There is nothing to apply again. -/
theorem Coherent.reapply_done (h : Coherent store sm)
    (hle : store.committed ≤ sm.restoreFromSnapshot.lastApplied) : reapplyCommitted store sm =
      some (sm.restoreFromSnapshot, sm.restoreFromSnapshot.lastApplied) := by
  have hsm := (lastApplied_le_restored sm fun s hs => by rw [(h.snapshot s hs).1]).1
  unfold reapplyCommitted
  dsimp only
  rw [if_neg (not_lt.2 (max_le hle hsm))]

/-- What has to be applied again is read from the log, so the log has it. -/
theorem Coherent.reapply_reaches (h : Coherent store sm)
    (hre : reapplyCommitted store sm = some (sm', a)) :
    (a = sm.restoreFromSnapshot.lastApplied ∨ nextIndex a ≤ nextIndex store.lastLogId) ∧
      (store.committed ≤ sm.restoreFromSnapshot.lastApplied ∨
        nextIndex store.committed ≤ nextIndex store.lastLogId) := by
  have hsm := (lastApplied_le_restored sm fun s hs => by rw [(h.snapshot s hs).1]).1
  unfold reapplyCommitted at hre
  dsimp only at hre
  split at hre
  · rename_i hlt
    have hmax : max store.committed sm.lastApplied = store.committed := by
      refine max_eq_left (le_of_not_ge fun hle => ?_)
      rw [max_eq_right hle] at hlt
      exact absurd hlt (not_lt.2 hsm)
    rw [hmax] at hre
    split at hre
    · cases hre
    obtain ⟨range, hread, heq⟩ := Option.map_eq_some_iff.1 hre
    obtain ⟨-, rfl⟩ := Prod.mk.inj heq
    unfold readRange at hread
    dsimp only at hread
    split at hread
    · rename_i hends
      obtain ⟨ent, hent, hidx⟩ := Option.map_eq_some_iff.1 hends.2
      have hmem := (List.mem_filter.1 (List.mem_of_getLast? hent)).1
      have hle : nextIndex store.committed ≤ nextIndex store.lastLogId :=
        hidx ▸ (h.entry_le_last hmem).2
      exact ⟨Or.inr hle, Or.inr hle⟩
    · cases hread
  · rename_i hle
    obtain ⟨-, rfl⟩ := Prod.mk.inj (Option.some.inj hre)
    exact ⟨Or.inl rfl, Or.inl ((le_max_left _ _).trans (not_lt.1 hle))⟩

/-- The state machine when the log up to `c` is applied again. -/
def StateMachine.reapplied (sm : StateMachine NID N D) (store : LogStore NID N D) (c : LogId NID) :
    StateMachine NID N D :=
  { sm.restoreFromSnapshot with
    applied := sm.restoreFromSnapshot.applied ++ (store.entries.drop
      (nextIndex sm.restoreFromSnapshot.lastApplied - nextIndex store.purged)).take
        (c.index + 1 - nextIndex sm.restoreFromSnapshot.lastApplied) }

theorem Coherent.reapply_more (h : Coherent store sm) (hw : store.Whole) {c : LogId NID}
    (hc : c ∈ store.committed) (hlt : sm.restoreFromSnapshot.lastApplied < some c)
    (hle : c.index < nextIndex store.lastLogId) :
    reapplyCommitted store sm = some (sm.reapplied store c, some c) := by
  have hsm := (lastApplied_le_restored sm fun s hs => by rw [(h.snapshot s hs).1]).1
  have hmax : max store.committed sm.lastApplied = some c := by
    rw [hc, max_eq_left (hsm.trans hlt.le)]
  obtain ⟨-, hidx⟩ := h.committed_fits hc hlt
  have hpurged := h.restored.nextIndex_purged_le
  rw [hw.nextIndex_last] at hle
  unfold reapplyCommitted
  dsimp only
  rw [hmax, if_pos hlt, if_neg (not_lt.2 hpurged), nextIndex_some,
    readRange_eq hw hpurged (by omega) (by omega)]
  rfl

theorem Coherent.caughtUp_more (h : Coherent store sm) (hw : store.Whole) {c : LogId NID}
    (hc : c ∈ store.committed) (hlt : sm.restoreFromSnapshot.lastApplied < some c)
    (hle : c.index < nextIndex store.lastLogId) :
    CaughtUp store (sm.reapplied store c) (some c) := by
  have hr := h.restored
  obtain ⟨hfits, hidx⟩ := h.committed_fits hc hlt
  have hpurged := hr.nextIndex_purged_le
  rw [hw.nextIndex_last] at hle
  unfold StateMachine.reapplied
  generalize hd : sm.restoreFromSnapshot.lastApplied = d at *
  generalize hseg : (store.entries.drop (nextIndex d - nextIndex store.purged)).take
    (c.index + 1 - nextIndex d) = seg
  have hdrop := IndexedFrom.drop hw (nextIndex d - nextIndex store.purged)
  rw [Nat.add_sub_cancel' hpurged] at hdrop
  have hsegIdx : IndexedFrom (nextIndex d) seg := hdrop.of_le (hseg ▸ List.take_prefix _ _)
  have hsegLen : seg.length = c.index + 1 - nextIndex d := by
    rw [← hseg, List.length_take, List.length_drop]
    omega
  have hsub : ∀ ent ∈ seg, ent ∈ store.entries := by
    intro ent hent
    rw [← hseg] at hent
    exact List.mem_of_mem_drop (List.mem_of_mem_take hent)
  have hfilter : seg = store.entries.filter fun ent =>
      decide (nextIndex d ≤ ent.logId.index) && decide (ent.logId.index < c.index + 1) := by
    rw [IndexedFrom.filter_range hw hpurged, hseg]
  have hordered : (sm.restoreFromSnapshot.applied ++ seg).Pairwise Entry.Before := by
    refine (hr.pairwise_full h).sublist (List.Sublist.append_left ?_ _)
    rw [hfilter]
    refine List.monotone_filter_right _ ?_
    intro ent hent
    exact (Bool.and_eq_true_iff.1 hent).1
  refine ⟨?_, ⟨?_, ?_⟩, ?_, ?_, ?_, ?_⟩
  · show (sm.restoreFromSnapshot.applied ++ seg).getLast?.map Entry.logId = some c
    have hne : seg ≠ [] := List.length_pos_iff.1 (by omega)
    obtain ⟨last, hlast⟩ := Option.isSome_iff_exists.1 (List.getLast?_isSome.2 hne)
    rw [List.getLast?_append, hlast, Option.some_or, Option.map_some]
    have hmem := hsub last (List.mem_of_getLast? hlast)
    rw [List.getLast?_eq_getElem?] at hlast
    have hi := hsegIdx _ last hlast
    rw [hfits.agrees last hmem (by omega)]
  · rw [indexedFrom_append]
    refine ⟨hr.applied.1, ?_⟩
    have hlen : 0 + sm.restoreFromSnapshot.applied.length = nextIndex d := by
      have htip := nextIndex_tipId hr.applied.1
      rw [← hd, Nat.zero_add, ← htip]
      rfl
    rw [hlen]
    exact hsegIdx
  · rw [List.pairwise_map]
    exact hordered.imp fun hb => hb.1
  · rintro x ⟨⟩
    exact hfits.agrees
  · rintro x ⟨⟩ ent
    exact hfits.above h hw
  · intro p hp
    obtain ⟨ent, hent, heq⟩ := h.purged p hp
    exact ⟨ent, List.mem_append.2 (Or.inl hent), heq⟩
  · intro s hs
    exact (hr.snapshot s hs).trans hlt.le

/-! ## Closing the hole -/

/-- The log store after start-up: behind the last applied log id, it is purged. -/
def LogStore.cleaned (store : LogStore NID N D) (a : Option (LogId NID)) : LogStore NID N D :=
  if store.lastLogId < a then { store with purged := a, entries := [] } else store

theorem CaughtUp.cleanHole_eq (h : CaughtUp store sm' a) (hc : Coherent store sm) :
    cleanHole store a = some (store.cleaned a) := by
  cases a with
  | none =>
    unfold cleanHole LogStore.cleaned
    rw [if_neg Option.not_lt_none]
  | some x =>
    unfold cleanHole LogStore.cleaned
    dsimp only
    by_cases hlt : store.lastLogId < some x
    · have hbeyond := h.nextIndex_last_lt hlt
      have hnone : store.entries.filter (fun ent => decide (x.index < ent.logId.index)) = [] := by
        rw [List.filter_eq_nil_iff]
        intro ent hent
        have hidx := (hc.entry_le_last hent).2
        rw [nextIndex_some] at hbeyond
        simp only [decide_eq_true_eq]
        omega
      rw [if_pos hlt, if_pos hlt, if_neg (not_le.2 hbeyond), LogStore.purge, hnone]
    · rw [if_neg hlt, if_neg hlt]

/-- The cleaned log is consecutive and reaches the last applied log id. -/
theorem CaughtUp.cleaned_spec (h : CaughtUp store sm' a) (hc : Coherent store sm)
    (hw : store.Whole ∨ store.lastLogId < a) : (store.cleaned a).Whole ∧
      ((store.cleaned a).entries.map Entry.logId).Pairwise (· < ·) ∧
      a ≤ (store.cleaned a).lastLogId ∧ (store.cleaned a).purged ≤ a := by
  unfold LogStore.cleaned
  split
  · exact ⟨indexedFrom_nil _, List.Pairwise.nil, le_rfl, le_rfl⟩
  · rename_i hge
    refine ⟨hw.resolve_right hge, List.pairwise_map.2 (hc.ordered.imp And.left), not_lt.1 hge, ?_⟩
    cases hp : store.purged with
    | none => exact Option.none_le
    | some p =>
      obtain ⟨x, rfl, hle, -⟩ := h.purged_le hp
      exact Option.some_le_some.2 hle

/-- The last log id of the snapshot, if there is one. -/
def StateMachine.snapshotLast (sm : StateMachine NID N D) : Option (LogId NID) :=
  sm.snapshot.bind fun s => s.snapshotMeta.lastLogId

omit [LinearOrder NID] in
theorem snapshotMeta_getD (sm : StateMachine NID N D) :
    ((sm.snapshot.map Snapshot.snapshotMeta).getD
      (⟨none, .default⟩ : SnapshotMeta NID N)).lastLogId = sm.snapshotLast := by
  unfold StateMachine.snapshotLast
  cases sm.snapshot <;> rfl

/-- A state that start-up returns is valid if nothing is purged beyond the snapshot. -/
theorem validate_recovered {mode : LeaderIdMode} {now : Nat} {vote : Vote NID}
    {ms : MembershipState NID N} (hi : IndexedFrom (nextIndex store.purged) store.entries)
    (hp : store.purged ≤ sm.snapshotLast) (hs : sm.snapshotLast ≤ a) (ha : a ≤ store.lastLogId)
    (hm : ms.validate = true) :
    (RaftState.recovered now vote store sm ms a).validate mode = true := by
  have hfirst : (store.purged.isSome ||
      decide (optIndex (store.entries.map Entry.logId).head? ≤ some 0)) = true := by
    cases hpurged : store.purged with
    | some p => rfl
    | none =>
      rw [hpurged, nextIndex_none] at hi
      cases hent : store.entries with
      | nil => simp [optIndex]
      | cons e es =>
        have h0 := hi 0 e (by rw [hent]; rfl)
        simp [optIndex, h0]
  have hlogs : LogIds.last ⟨store.purged, store.entries.map Entry.logId⟩ = store.lastLogId := by
    simp [LogIds.last, LogStore.lastLogId, List.getLast?_map]
  have hio : IOId.ge mode (IOId.new vote) (IOId.new vote) = true := IOId.ge_refl mode _
  have hrefl : ∀ v : Option (LogId NID), IOProgress.optGe LogId.ge v v = true :=
    fun _ => LogId.optGe_iff.2 le_rfl
  have hupto : store.purged ≤ a := hp.trans hs
  simp only [RaftState.validate, RaftState.recovered, RaftState.localCommitted,
    RaftState.lastLogId, IOState.validate, IOState.new, IOProgress.newSynchronized,
    IOProgress.validate, hrefl, hlogs, snapshotMeta_getD, hfirst, hm, hs, ha, hp, hupto]
  simp [IOProgress.optGe, hio]

/-! ## When start-up succeeds -/

/-- Once the state machine is up to date, start-up returns a good state exactly when nothing is
    purged beyond the snapshot. -/
theorem CaughtUp.recovers_iff_snapshot (h : CaughtUp store sm' a) (hc : Coherent store sm)
    (hw : store.Whole ∨ store.lastLogId < a)
    (hre : reapplyCommitted store sm = some (sm', a)) (hsnap : sm'.snapshot = sm.snapshot)
    (mode : LeaderIdMode) (id : NID) (now : Nat) : Recovers mode id now store sm ↔
      ∀ s ∈ sm.snapshot, (store.cleaned a).purged ≤ s.snapshotMeta.lastLogId := by
  have hinit : getInitialState id now store sm = some
      (RaftState.recovered now (store.vote.getD ⟨⟨0, id⟩, false⟩) (store.cleaned a)
        (sm'.ensureSnapshot (store.cleaned a).purged) (getMembership store sm') a,
        store.cleaned a, sm'.ensureSnapshot (store.cleaned a).purged) := by
    unfold getInitialState
    dsimp only
    rw [if_neg (not_lt.2 hc.purged_le_last), hre, Option.bind_some, h.cleanHole_eq hc]
    rfl
  obtain ⟨hi, ho, hle, hpa⟩ := h.cleaned_spec hc hw
  have hensure : (sm'.ensureSnapshot (store.cleaned a).purged).applied = sm'.applied := by
    unfold StateMachine.ensureSnapshot
    split <;> rfl
  have hlast : (sm'.ensureSnapshot (store.cleaned a).purged).lastApplied = sm'.lastApplied := by
    rw [StateMachine.lastApplied, hensure]
    rfl
  constructor
  · rintro ⟨state, store', final, heq, -, -, hsnaps, -⟩ s hs
    rw [hinit] at heq
    obtain ⟨rfl, rfl, rfl⟩ := Option.some.inj heq |> fun h => by
      simpa only [Prod.mk.injEq] using h
    refine hsnaps s ?_
    have hsome : sm'.snapshot = some s := by rw [hsnap]; exact hs
    unfold StateMachine.ensureSnapshot
    rw [hsome]
    exact hsome
  · intro hcond
    -- the snapshot after start-up, and its last log id
    have hfinal : ∀ s ∈ (sm'.ensureSnapshot (store.cleaned a).purged).snapshot,
        (store.cleaned a).purged ≤ s.snapshotMeta.lastLogId ∧ s.snapshotMeta.lastLogId ≤ a := by
      intro s hs
      unfold StateMachine.ensureSnapshot at hs
      split at hs
      · obtain rfl := Option.some.inj hs
        refine ⟨?_, le_of_eq h.last⟩
        rw [show sm'.buildSnapshot.snapshotMeta.lastLogId = a from h.last]
        exact hpa
      · exact ⟨hcond s (by rw [← hsnap]; exact hs), h.snapshot s hs⟩
    have hlast' : (store.cleaned a).purged ≤
          (sm'.ensureSnapshot (store.cleaned a).purged).snapshotLast ∧
        (sm'.ensureSnapshot (store.cleaned a).purged).snapshotLast ≤ a := by
      unfold StateMachine.snapshotLast
      cases hs : (sm'.ensureSnapshot (store.cleaned a).purged).snapshot with
      | some s => exact hfinal s hs
      | none =>
        refine ⟨?_, Option.none_le⟩
        cases hp : (store.cleaned a).purged with
        | none => exact Option.none_le
        | some p =>
          unfold StateMachine.ensureSnapshot at hs
          rw [hp] at hs
          cases hs' : sm'.snapshot <;> simp [hs'] at hs
    have hms : (getMembership store sm').validate = true ∧ _ :=
      getMembership_spec (by rw [h.last]; exact h.nextIndex_purged_le)
        (by rw [h.last]; exact h.pairwise_full hc)
    refine ⟨_, _, _, hinit, ?_, le_rfl, fun s hs => (hfinal s hs).1, expand_loadLogIds hi ho,
      rfl, ?_⟩
    · exact validate_recovered hi hlast'.1 hlast'.2 hle hms.1
    · rw [hensure, hlast]
      exact hms.2

/-- The log ids that start-up returns leave nothing out. -/
theorem Coherent.whole_of_expand (h : Coherent store sm) {l : LogIdList NID}
    (hl : l.expand = ⟨store.purged, store.entries.map Entry.logId⟩) : store.Whole := by
  have hp : l.purged = store.purged := congrArg LogIds.purged hl
  have hids : LogIdList.expandKeys (nextIndex l.purged) l.keyLogIds =
    store.entries.map Entry.logId := congrArg LogIds.ids hl
  rw [hp] at hids
  have hcons : ConsecutiveFrom (nextIndex store.purged) (store.entries.map Entry.logId) := by
    rw [← hids]
    refine LogIdList.expandKeys_consecutive ?_ ?_
    · intro x hx
      rw [hids] at hx
      obtain ⟨ent, hent, rfl⟩ := List.mem_map.1 hx
      cases hpurged : store.purged with
      | none => exact Nat.zero_le _
      | some p => exact (h.behind p hpurged ent hent).2
    · rw [hids]
      exact List.pairwise_map.2 (h.ordered.imp And.right)
  intro i ent hi
  exact hcons i ent.logId (by rw [List.getElem?_map, hi]; rfl)

theorem getInitialState_cases {id : NID} {now : Nat} {state : RaftState NID N}
    {store' : LogStore NID N D}
    (hinit : getInitialState id now store sm = some (state, store', sm')) :
    ∃ sm1 a, reapplyCommitted store sm = some (sm1, a) ∧ cleanHole store a = some store' := by
  unfold getInitialState at hinit
  dsimp only at hinit
  split at hinit
  · cases hinit
  · obtain ⟨⟨sm1, a⟩, hre, hinit⟩ := Option.bind_eq_some_iff.1 hinit
    obtain ⟨cleaned, hclean, heq⟩ := Option.map_eq_some_iff.1 hinit
    obtain ⟨-, heq⟩ := Prod.mk.inj heq
    obtain ⟨rfl, -⟩ := Prod.mk.inj heq
    exact ⟨sm1, a, hre, hclean⟩

/-- Start-up does not get over a log in which entries are missing, unless it purges all of it. -/
theorem Coherent.whole_of_recovers (h : Coherent store sm) {mode : LeaderIdMode} {id : NID}
    {now : Nat} (hrec : Recovers mode id now store sm) :
    store.Whole ∨ store.lastLogId < sm.restoreFromSnapshot.lastApplied := by
  obtain ⟨state, store', final, hinit, -, -, -, hload, hids, -⟩ := hrec
  obtain ⟨sm1, a, hre, hclean⟩ := getInitialState_cases hinit
  by_contra hnot
  obtain ⟨hhole, hge⟩ := not_or.1 hnot
  have hsame : store' = store := by
    unfold cleanHole at hclean
    split at hclean
    · rename_i x
      split at hclean
      · rename_i hlt
        split at hclean
        · cases hclean
        · rename_i hidx
          rcases (h.reapply_reaches hre).1 with heq | hle
          · exact absurd (heq ▸ hlt) hge
          · exact absurd hle hidx
      · exact (Option.some.inj hclean).symm
    · exact (Option.some.inj hclean).symm
  obtain ⟨l, -, hl⟩ := Option.map_eq_some_iff.1 hload
  rw [hids, hsame] at hl
  exact hhole (h.whole_of_expand hl)

/-- There is nothing to apply again. -/
theorem Coherent.recovers_iff_done (h : Coherent store sm)
    (hw : store.Whole ∨ store.lastLogId < sm.restoreFromSnapshot.lastApplied)
    (hle : store.committed ≤ sm.restoreFromSnapshot.lastApplied) (mode : LeaderIdMode) (id : NID)
    (now : Nat) : Recovers mode id now store sm ↔ SnapshotReaches store sm := by
  rw [h.restored.recovers_iff_snapshot h hw (h.reapply_done hle) (restoreFromSnapshot_snapshot sm)]
  unfold LogStore.cleaned
  constructor
  · intro hcond s hs
    have hpurged := hcond s hs
    split at hpurged
    · rename_i hlt
      exact ⟨(h.purged_le_last.trans hlt.le).trans hpurged, fun _ => hpurged⟩
    · rename_i hge
      exact ⟨hpurged, fun hlt => absurd hlt hge⟩
  · intro hcond s hs
    split
    · rename_i hlt
      exact (hcond s hs).2 hlt
    · exact (hcond s hs).1

/-- The log has what is to be applied again, so it is not behind and keeps all its entries. -/
theorem Coherent.recovers_iff_more (h : Coherent store sm) (hw : store.Whole) {c : LogId NID}
    (hc : c ∈ store.committed) (hlt : sm.restoreFromSnapshot.lastApplied < some c)
    (hidx : c.index < nextIndex store.lastLogId) (mode : LeaderIdMode) (id : NID) (now : Nat) :
    Recovers mode id now store sm ↔ SnapshotReaches store sm := by
  have hle : some c ≤ store.lastLogId := (h.committed_fits hc hlt).1.le_last h hw hidx
  rw [(h.caughtUp_more hw hc hlt hidx).recovers_iff_snapshot h (Or.inl hw)
    (h.reapply_more hw hc hlt hidx) (restoreFromSnapshot_snapshot sm)]
  unfold LogStore.cleaned
  rw [if_neg (not_lt.2 hle)]
  constructor
  · intro hcond s hs
    exact ⟨hcond s hs, fun hbehind => absurd (hbehind.trans hlt) (not_lt.2 hle)⟩
  · intro hcond s hs
    exact (hcond s hs).1

namespace Ahead

/-- The two entries that the leader of term 1 adds to the log. -/
def first : Entry (Fin 3) Unit Nat := ⟨⟨⟨1, none⟩, 1⟩, .blank⟩

@[inherit_doc first]
def second : Entry (Fin 3) Unit Nat := ⟨⟨⟨1, none⟩, 2⟩, .normal 7⟩

/-- A follower of that leader at the start. -/
def follower : Node (Fin 3) Unit Nat := Three.cluster false 1

/-- The leader sends one entry and says that it is committed. -/
def append (prev : LogId (Fin 3)) (ent : Entry (Fin 3) Unit Nat) : Event (Fin 3) Unit Nat :=
  .receive (.appendEntries ⟨0, 0, ⟨1, 0⟩, 1, 1, false, none, 0⟩
    ⟨⟨⟨1, 0⟩, true⟩, some prev, [ent], some ent.logId⟩)

/-- The follower flushes and applies the first entry and builds a snapshot, then applies the
    second entry before it is flushed. -/
def events : List (Event (Fin 3) Unit Nat) :=
  [append Three.firstEntry.logId first, .runCommand, .runCommand, .runCommand, .runCommand, .flush,
    .runProgressDrivenCommand, .workerLoop, .triggerSnapshot, .runCommand, .workerLoop,
    append first.logId second, .runCommand, .runCommand, .runCommand, .runProgressDrivenCommand,
    .workerLoop]

/-- What a crash leaves when the second entry is lost and `appliedKeep` applied entries are not,
    and what start-up makes of it. -/
def recovered (appliedKeep : Nat) : Option (Option (RaftState (Fin 3) Unit)) :=
  (follower.run 0 events).map fun n =>
    (getInitialState 1 0 (n.store.crash 0)
      { n.sm with applied := n.sm.applied.take appliedKeep }).map (·.1)

/-- The log of a node that got `(2, 1)`, installed a snapshot up to `(1, 2)`, crashed before the log
    was purged, and was then sent the entries behind the snapshot. -/
def holed : LogStore (Fin 3) Unit Nat :=
  ⟨some ⟨⟨4, 2⟩, true⟩, none, none, [Three.firstEntry, ⟨⟨⟨2, none⟩, 1⟩, .blank⟩,
    ⟨⟨⟨3, none⟩, 3⟩, .blank⟩, ⟨⟨⟨4, none⟩, 4⟩, .blank⟩], []⟩

/-- The log store after the crash. -/
def log : LogStore (Fin 3) Unit Nat :=
  ⟨some ⟨⟨1, 0⟩, true⟩, some second.logId, none, [Three.firstEntry, first], []⟩

/-- The state machine after the crash. -/
def machine : StateMachine (Fin 3) Unit Nat :=
  ⟨[Three.firstEntry, first, second],
    some ⟨⟨some first.logId, ⟨some Three.firstEntry.logId, Three.membership⟩⟩,
      [Three.firstEntry, first]⟩⟩

theorem coherent_crashed : Coherent log machine := by
  have hrestore : machine.restoreFromSnapshot = machine := by
    have hnot : ¬ machine.lastApplied < some first.logId := by decide
    unfold StateMachine.restoreFromSnapshot
    split
    · rename_i s hs
      obtain rfl := Option.some.inj hs
      rw [if_neg (by exact hnot)]
    · rfl
  refine ⟨?_, nofun, ⟨?_, by decide⟩, ?_, nofun, ?_, ?_, ?_⟩
  · simp [Entry.Before, log, Three.firstEntry, first]
    decide
  · simp [indexedFrom_cons, indexedFrom_nil, machine, Three.firstEntry, first, second]
  · rintro s ⟨⟩
    refine ⟨rfl, ?_, by decide, Or.inl ⟨[second], rfl⟩⟩
    simp [indexedFrom_cons, indexedFrom_nil, Three.firstEntry, first]
  · rw [hrestore]
    intro x hx
    obtain rfl : second.logId = x := by
      rcases hx with hx | hx <;> exact Option.some.inj hx
    decide
  · rw [hrestore]
    rintro x ⟨⟩
    decide
  · rw [hrestore]
    rintro c ⟨⟩ x ⟨⟩
    decide

end Ahead

end ZenohRaft
