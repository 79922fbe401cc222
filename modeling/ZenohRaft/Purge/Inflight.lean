/-
  What a leader has in flight, against the log that it still has.

  `H` is the list of all log ids that the log has had, the purged ones included (`FullLog`); the
  log of the engine is a tail of it (`LogIds.TailOf`). An entry of the progress is in order
  (`ItemOK`) if its matching log id is in `H`, the search for it does not go behind the end, and
  a log range in flight starts at or behind the last purged log id.

  Every way to change an entry keeps this: a new range starts at or behind what is scheduled to
  be purged (`ItemOK.nextSend`), an acknowledgement only moves the start forward
  (`ItemOK.updateMatching`), a conflict drops the range (`ItemOK.updateConflicting`), and a purge
  waits for the ranges that start before it (`ItemOK.purge`).
-/
import ZenohRaft.Purge.Cursors

namespace ZenohRaft

variable {NID N D : Type} [LinearOrder NID]

/-! ## All log ids of a log -/

/-- All log ids that a log has had: the indexes count up from 0, and the leaders do not
    decrease. -/
structure FullLog (H : List (LogId NID)) : Prop where
  indexed : ∀ i (x : LogId NID), H[i]? = some x → x.index = i
  sorted : H.Pairwise fun x y => x.leaderId ≤ y.leaderId

/-- The log has had the id `x`. -/
def InLog (H : List (LogId NID)) (x : LogId NID) : Prop := H[x.index]? = some x

/-- The log has had this id, if it is one. -/
def InLogOpt (H : List (LogId NID)) (x : Option (LogId NID)) : Prop := ∀ y ∈ x, InLog H y

/-- What is left of a log after some purges. -/
structure LogIds.TailOf (l : LogIds NID) (H : List (LogId NID)) : Prop where
  ids : l.ids = H.drop l.firstIndex
  purged : InLogOpt H l.purged

instance (H : List (LogId NID)) : Decidable (FullLog H) :=
  decidable_of_iff ((∀ i (h : i < H.length), H[i].index = i) ∧
      H.Pairwise fun x y => x.leaderId ≤ y.leaderId)
    ⟨fun h => ⟨fun i x hx => by
      obtain ⟨hi, rfl⟩ := List.getElem?_eq_some_iff.1 hx
      exact h.1 i hi, h.2⟩,
      fun h => ⟨fun i hi => h.indexed i _ (List.getElem?_eq_getElem hi), h.sorted⟩⟩

instance (H : List (LogId NID)) (x : LogId NID) : Decidable (InLog H x) :=
  inferInstanceAs (Decidable (_ = _))

instance (H : List (LogId NID)) (x : Option (LogId NID)) : Decidable (InLogOpt H x) :=
  inferInstanceAs (Decidable (∀ y ∈ x, InLog H y))

instance (l : LogIds NID) (H : List (LogId NID)) : Decidable (l.TailOf H) :=
  decidable_of_iff (l.ids = H.drop l.firstIndex ∧ InLogOpt H l.purged)
    ⟨fun h => ⟨h.1, h.2⟩, fun h => ⟨h.ids, h.purged⟩⟩

section Lemmas

variable {H H' : List (LogId NID)} {l : LogIds NID} {x y : LogId NID}

section

omit [LinearOrder NID]

theorem InLog.lt_length (h : InLog H x) : x.index < H.length :=
  (List.getElem?_eq_some_iff.1 h).1

theorem InLogOpt.none : InLogOpt H none := by
  intro y hy
  cases hy

theorem InLog.opt (h : InLog H x) : InLogOpt H (some x) := by
  intro y hy
  obtain rfl := Option.mem_some.1 hy
  exact h

theorem InLogOpt.nextIndex_le {a : Option (LogId NID)} (h : InLogOpt H a) :
    nextIndex a ≤ H.length := by
  cases a with
  | none => exact Nat.zero_le _
  | some y => exact (h y rfl).lt_length

theorem InLogOpt.mono {a : Option (LogId NID)} (h : InLogOpt H a) (hpre : H <+: H') :
    InLogOpt H' a := by
  intro y hy
  obtain ⟨new, rfl⟩ := hpre
  have hin := h y hy
  have hlt := hin.lt_length
  unfold InLog
  rw [List.getElem?_append_left hlt]
  exact hin

end

theorem FullLog.le_of_index_le (h : FullLog H) (hx : InLog H x) (hy : InLog H y)
    (hle : x.index ≤ y.index) : x ≤ y := by
  rcases Nat.eq_or_lt_of_le hle with heq | hlt
  · unfold InLog at hx hy
    rw [heq, hy] at hx
    rw [Option.some.inj hx]
  · obtain ⟨hix, hx'⟩ := List.getElem?_eq_some_iff.1 hx
    obtain ⟨hiy, hy'⟩ := List.getElem?_eq_some_iff.1 hy
    have hleader := List.pairwise_iff_getElem.1 h.sorted _ _ hix hiy hlt
    rw [hx', hy'] at hleader
    rw [LogId.le_iff]
    rcases hleader.lt_or_eq with hl | heq
    · exact Or.inl hl
    · exact Or.inr ⟨heq, hle⟩

theorem FullLog.index_le_of_le (h : FullLog H) (hx : InLog H x) (hy : InLog H y) (hle : x ≤ y) :
    x.index ≤ y.index := by
  by_contra hlt
  have heq := le_antisymm hle (h.le_of_index_le hy hx (by omega))
  rw [heq] at hlt
  exact hlt le_rfl

/-- In one log the order of the log ids is that of the indexes. -/
theorem FullLog.le_iff (h : FullLog H) {a b : Option (LogId NID)} (ha : InLogOpt H a)
    (hb : InLogOpt H b) : a ≤ b ↔ nextIndex a ≤ nextIndex b := by
  cases a with
  | none => exact ⟨fun _ => Nat.zero_le _, fun _ => Option.none_le⟩
  | some x =>
    cases b with
    | none =>
      refine ⟨fun hle => absurd hle (not_le.2 Option.none_lt_some), fun hle => ?_⟩
      simp at hle
    | some y =>
      rw [Option.some_le_some, nextIndex_some, nextIndex_some]
      refine ⟨fun hle => ?_, fun hle => h.le_of_index_le (ha x rfl) (hb y rfl) (by omega)⟩
      have := h.index_le_of_le (ha x rfl) (hb y rfl) hle
      omega

theorem FullLog.append {new : List (LogId NID)} (h : FullLog H)
    (hindex : ∀ i x, new[i]? = some x → x.index = H.length + i)
    (hsorted : new.Pairwise fun x y => x.leaderId ≤ y.leaderId)
    (hcross : ∀ x ∈ H, ∀ y ∈ new, x.leaderId ≤ y.leaderId) : FullLog (H ++ new) := by
  refine ⟨fun i x hx => ?_, List.pairwise_append.2 ⟨h.sorted, hsorted, hcross⟩⟩
  rcases Nat.lt_or_ge i H.length with hlt | hge
  · rw [List.getElem?_append_left hlt] at hx
    exact h.indexed i x hx
  · rw [List.getElem?_append_right hge] at hx
    have := hindex _ x hx
    omega

/-! ### The tail that is left -/

namespace LogIds.TailOf

omit [LinearOrder NID] in
theorem firstIndex_le (h : l.TailOf H) : l.firstIndex ≤ H.length := h.purged.nextIndex_le

omit [LinearOrder NID] in
theorem getElem? (h : l.TailOf H) (i : Nat) : l.ids[i]? = H[l.firstIndex + i]? := by
  rw [h.ids, List.getElem?_drop]

theorem ordered (h : l.TailOf H) (hH : FullLog H) : l.Ordered := by
  refine ⟨fun i x hx => ?_, ?_⟩
  · rw [h.getElem?] at hx
    exact hH.indexed _ x hx
  · rw [h.ids]
    cases hp : l.purged with
    | none => exact hH.sorted.sublist (List.drop_sublist _ _)
    | some p =>
      obtain ⟨hlt, hget⟩ := List.getElem?_eq_some_iff.1 (h.purged p hp)
      have hdrop : [p] ++ H.drop l.firstIndex = H.drop p.index := by
        have hfirst : l.firstIndex = p.index + 1 := by
          unfold LogIds.firstIndex
          rw [hp]
          rfl
        rw [hfirst, List.drop_eq_getElem_cons hlt, hget]
        rfl
      rw [show (some p).toList = [p] from rfl, hdrop]
      exact hH.sorted.sublist (List.drop_sublist _ _)

theorem nextIndex_last (h : l.TailOf H) (hH : FullLog H) : nextIndex l.last = H.length := by
  have hfirst := h.firstIndex_le
  rw [(h.ordered hH).consecutive.nextIndex_last, h.ids, List.length_drop]
  omega

theorem has_iff (h : l.TailOf H) (hH : FullLog H) :
    l.Has x ↔ InLog H x ∧ l.firstIndex ≤ x.index + 1 := by
  constructor
  · intro hx
    refine ⟨?_, hx.firstIndex_le⟩
    rcases (LogIds.has_iff (h.ordered hH).consecutive).1 hx with hp | ⟨hfirst, hmem⟩
    · exact h.purged x hp
    · obtain ⟨i, hi⟩ := List.mem_iff_getElem?.1 hmem
      have hxi := (h.ordered hH).consecutive i x hi
      rw [h.getElem?, ← hxi] at hi
      exact hi
  · rintro ⟨hx, hfirst⟩
    rw [LogIds.has_iff (h.ordered hH).consecutive]
    rcases Nat.eq_or_lt_of_le hfirst with heq | hlt
    · left
      cases hp : l.purged with
      | none =>
        unfold LogIds.firstIndex at heq
        rw [hp] at heq
        simp at heq
      | some p =>
        have hpx : p.index = x.index := by
          unfold LogIds.firstIndex at heq
          rw [hp, nextIndex_some] at heq
          omega
        have hin := h.purged p hp
        unfold InLog at hin hx
        rw [hpx, hx] at hin
        exact hin.symm
    · refine Or.inr ⟨by omega, ?_⟩
      rw [h.ids, List.mem_iff_getElem?]
      refine ⟨x.index - l.firstIndex, ?_⟩
      rw [List.getElem?_drop, Nat.add_sub_cancel' (by omega)]
      exact hx

theorem hasOpt (h : l.TailOf H) (hH : FullLog H) {a : Option (LogId NID)} (ha : InLogOpt H a)
    (hfirst : l.firstIndex ≤ nextIndex a) : l.HasOpt a := by
  intro y hy
  rw [hy, nextIndex_some] at hfirst
  exact (h.has_iff hH).2 ⟨ha y hy, hfirst⟩

theorem inLogOpt (h : l.TailOf H) (hH : FullLog H) {a : Option (LogId NID)} (ha : l.HasOpt a) :
    InLogOpt H a := by
  intro y hy
  exact ((h.has_iff hH).1 (ha y hy)).1

theorem purge (h : l.TailOf H) (hH : FullLog H) (hx : InLog H x)
    (hfirst : l.firstIndex ≤ x.index) : (l.purge x).TailOf H := by
  have hord := h.ordered hH
  rcases LogIds.purge_cases l x with ⟨-, hlast⟩ | ⟨-, hlt⟩ | ⟨heq, -⟩
  · have hlt := hx.lt_length
    rw [h.nextIndex_last hH] at hlast
    omega
  · omega
  · rw [heq]
    refine ⟨?_, hx.opt⟩
    show l.ids.filter _ = H.drop (x.index + 1)
    rw [LogIds.filter_index_gt hord.consecutive, h.ids, List.drop_drop]
    congr 1
    omega

omit [LinearOrder NID] in
theorem extend (h : l.TailOf H) (new : List (LogId NID)) : (l.extend new).TailOf (H ++ new) := by
  have hfirst := h.firstIndex_le
  refine ⟨?_, h.purged.mono (List.prefix_append H new)⟩
  show l.ids ++ new = (H ++ new).drop l.firstIndex
  rw [List.drop_append_of_le_length hfirst, h.ids]

end LogIds.TailOf

end Lemmas

/-! ## The entries of the progress -/

/-- Where a log range in flight starts. -/
def Inflight.start : Inflight NID → Option (Option (LogId NID))
  | .logs range _ => some range.prev
  | .logsSince prev _ => some prev
  | .none | .snapshot _ => Option.none

/-- An entry of the progress, for a log whose first index is `first`. -/
structure ItemOK (H : List (LogId NID)) (first : Nat) (item : ProgressEntry NID) : Prop where
  matching : InLogOpt H item.progress
  searching : item.data.searchingEnd ≤ H.length
  inflight : ∀ prev ∈ item.data.inflight.start, InLogOpt H prev ∧ first ≤ nextIndex prev

instance (H : List (LogId NID)) (first : Nat) (item : ProgressEntry NID) :
    Decidable (ItemOK H first item) :=
  decidable_of_iff (InLogOpt H item.progress ∧ item.data.searchingEnd ≤ H.length ∧
      ∀ prev ∈ item.data.inflight.start, InLogOpt H prev ∧ first ≤ nextIndex prev)
    ⟨fun h => ⟨h.1, h.2.1, h.2.2⟩, fun h => ⟨h.matching, h.searching, h.inflight⟩⟩

namespace ItemOK

variable {H H' : List (LogId NID)} {first : Nat} {item : ProgressEntry NID}

section

omit [LinearOrder NID]

theorem mono (h : ItemOK H first item) (hpre : H <+: H') : ItemOK H' first item := by
  refine ⟨h.matching.mono hpre, h.searching.trans hpre.length_le, fun prev hprev => ?_⟩
  obtain ⟨hin, hfirst⟩ := h.inflight prev hprev
  exact ⟨hin.mono hpre, hfirst⟩

/-- A fresh entry. -/
theorem empty (id : NID) (streamId : Nat) {searchingEnd : Nat} (hend : searchingEnd ≤ H.length) :
    ItemOK H first (ProgressEntry.empty id streamId searchingEnd) := by
  refine ⟨InLogOpt.none, hend, fun prev hprev => ?_⟩
  cases hprev

/-- What is in flight may be dropped. -/
theorem drop (h : ItemOK H first item) {data : ProgressData NID}
    (hnone : data.inflight.start = none) (hend : data.searchingEnd ≤ H.length) :
    ItemOK H first { item with data := data } := by
  refine ⟨h.matching, hend, fun prev hprev => ?_⟩
  rw [hnone] at hprev
  cases hprev

end

/-- A purge waits for the ranges that start before it. -/
theorem purge (h : ItemOK H first item) (hH : FullLog H) {x : LogId NID} (hx : InLog H x)
    (hfree : ProgressEntry.isLogRangeInflight item x = false) :
    ItemOK H (x.index + 1) item := by
  refine ⟨h.matching, h.searching, fun prev hprev => ?_⟩
  obtain ⟨hin, -⟩ := h.inflight prev hprev
  refine ⟨hin, ?_⟩
  have hge : some x ≤ prev := by
    unfold ProgressEntry.isLogRangeInflight at hfree
    cases hi : item.data.inflight with
    | none =>
      rw [hi] at hprev
      cases hprev
    | snapshot id =>
      rw [hi] at hprev
      cases hprev
    | logs range id =>
      rw [hi] at hprev hfree
      obtain rfl := Option.some.inj hprev
      exact not_lt.1 (of_decide_eq_false hfree)
    | logsSince p id =>
      rw [hi] at hprev hfree
      obtain rfl := Option.some.inj hprev
      exact not_lt.1 (of_decide_eq_false hfree)
  exact (hH.le_iff hx.opt hin).1 hge

theorem start_newLogs {prev last : Option (LogId NID)} {id : Nat} {p : Option (LogId NID)}
    (hp : p ∈ (Inflight.newLogs prev last id).start) : p = prev := by
  unfold Inflight.newLogs at hp
  split at hp
  · cases hp
  · exact (Option.some.inj hp).symm

/-- An acknowledged log id of the log, that is not before the start of the range it is about. -/
def Acknowledges (H : List (LogId NID)) (item : ProgressEntry NID)
    (matching : Option (LogId NID)) (inflightId : Option Nat) : Prop :=
  InLogOpt H matching ∧ (inflightId = item.data.inflight.id →
    ∀ prev ∈ item.data.inflight.start, nextIndex prev ≤ nextIndex matching)

/-- An acknowledgement of a range moves its start. -/
theorem start_ack {i : Inflight NID} {m : Option (LogId NID)} {id : Nat} {p : Option (LogId NID)}
    (hp : p ∈ (i.ack m id).2.start) :
    p ∈ i.start ∨ p = m ∧ some id = i.id ∧ ∃ q, q ∈ i.start := by
  unfold Inflight.ack at hp
  cases i with
  | none => exact Or.inl hp
  | logs range id' =>
    dsimp only at hp
    split at hp
    · rename_i heq
      exact Or.inr ⟨start_newLogs hp, by rw [heq]; rfl, range.prev, rfl⟩
    · exact Or.inl hp
  | snapshot id' =>
    dsimp only at hp
    split at hp
    · cases hp
    · exact Or.inl hp
  | logsSince prev id' =>
    dsimp only at hp
    split at hp
    · rename_i heq
      exact Or.inr ⟨(Option.some.inj hp).symm, by rw [heq]; rfl, prev, rfl⟩
    · exact Or.inl hp

theorem updateMatching (h : ItemOK H first item) {matching : Option (LogId NID)}
    {inflightId : Option Nat} (hack : Acknowledges H item matching inflightId) :
    ItemOK H first (ProgressEntry.updateMatching item matching inflightId) := by
  obtain ⟨hin, hstart⟩ := hack
  have key : ∀ (applied : Bool) (inflight : Inflight NID),
      (∀ prev ∈ inflight.start, InLogOpt H prev ∧ first ≤ nextIndex prev) →
      ItemOK H first (if applied = true then { item with
          progress := matching
          data := { item.data with
            inflight := inflight
            searchingEnd := max item.data.searchingEnd (nextIndex matching) } }
        else { item with data := { item.data with inflight := inflight } }) := by
    intro applied inflight hinflight
    split
    · exact ⟨hin, max_le h.searching hin.nextIndex_le, hinflight⟩
    · exact ⟨h.matching, h.searching, hinflight⟩
  cases inflightId with
  | none => exact key _ _ h.inflight
  | some id =>
    refine key (item.data.inflight.ack matching id).1 (item.data.inflight.ack matching id).2 ?_
    intro prev hprev
    rcases start_ack hprev with hold | ⟨rfl, hack, q, hq⟩
    · exact h.inflight prev hold
    · exact ⟨hin, (h.inflight q hq).2.trans (hstart hack q hq)⟩

/-- What the leader has flushed itself is in flight for a moment, and acknowledged. -/
theorem flushed (h : ItemOK H first item) {u : LogId NID} (hu : InLog H u) :
    ItemOK H first (ProgressEntry.updateMatching { item with data := { item.data with
      inflight := .newLogs none (some u) 0 } } (some u) (some 0)) := by
  have hlogs : Inflight.newLogs none (some u) 0 = .logs ⟨none, some u⟩ 0 :=
    if_neg (not_le.2 Option.none_lt_some)
  have hack : (Inflight.logs ⟨none, some u⟩ 0).ack (some u) 0 = (true, .none) :=
    congrArg (Prod.mk true) (if_pos le_rfl)
  rw [hlogs]
  unfold ProgressEntry.updateMatching
  dsimp only
  rw [hack]
  refine ⟨hu.opt, max_le h.searching hu.opt.nextIndex_le, fun prev hprev => ?_⟩
  cases hprev

omit [LinearOrder NID] in
theorem start_conflict {i : Inflight NID} {id : Nat} {p : Option (LogId NID)}
    (hp : p ∈ (i.conflict id).2.start) : p ∈ i.start := by
  unfold Inflight.conflict at hp
  cases i with
  | none => exact hp
  | snapshot id' => exact hp
  | logs range id' =>
    dsimp only at hp
    split at hp
    · cases hp
    · exact hp
  | logsSince prev id' =>
    dsimp only at hp
    split at hp
    · cases hp
    · exact hp

omit [LinearOrder NID] in
/-- A conflict moves the end of the search to the left, and drops the range it is about. -/
theorem updateConflicting (h : ItemOK H first item) (allow : Bool) (conflict : Nat)
    (inflightId : Option Nat) :
    ItemOK H first (ProgressEntry.updateConflicting allow item conflict inflightId) := by
  have hsearch := h.searching
  -- `reverted` is what is in flight once the matching log id is given up
  have key : ∀ (applied : Bool) (inflight reverted : Inflight NID),
      (∀ prev ∈ inflight.start, InLogOpt H prev ∧ first ≤ nextIndex prev) →
      (∀ prev ∈ reverted.start, prev ∈ inflight.start) →
      ItemOK H first (if (!applied) = true then { item with data := { item.data with
          inflight := inflight } }
        else if item.data.searchingEnd ≤ conflict then { item with data := { item.data with
          inflight := inflight } }
        else if ((item.data.allowLogReversion || allow) &&
            decide (conflict < nextIndex item.progress)) = true then { item with
          progress := none
          data := { item.data with
            allowLogReversion := false
            searchingEnd := conflict
            inflight := reverted } }
        else { item with data := { item.data with
          inflight := inflight
          searchingEnd := conflict } }) := by
    intro applied inflight reverted hinflight hreverted
    split
    · exact ⟨h.matching, hsearch, hinflight⟩
    split
    · exact ⟨h.matching, hsearch, hinflight⟩
    rename_i hconflict
    have hend : conflict ≤ H.length := by omega
    split
    · exact ⟨InLogOpt.none, hend, fun prev hprev => hinflight prev (hreverted prev hprev)⟩
    · exact ⟨h.matching, hend, hinflight⟩
  cases inflightId with
  | none =>
    refine key true item.data.inflight _ h.inflight fun prev hprev => ?_
    dsimp only at hprev
    split at hprev
    · cases hprev
    · exact hprev
  | some id =>
    refine key (item.data.inflight.conflict id).1 (item.data.inflight.conflict id).2 _
      (fun prev hprev => h.inflight prev (start_conflict hprev)) fun prev hprev => ?_
    dsimp only at hprev
    split at hprev
    · cases hprev
    · exact hprev

/-- A log id is looked up right before the index of a range. -/
theorem prevLogId_spec {s : RaftState NID N} (hH : FullLog H) (htail : s.logIds.TailOf H) {i : Nat}
    (hfirst : s.logIds.firstIndex ≤ i) (hi : i ≤ H.length) :
    InLogOpt H (s.prevLogId i) ∧ nextIndex (s.prevLogId i) = i := by
  unfold RaftState.prevLogId
  by_cases hzero : i = 0
  · rw [if_pos hzero]
    exact ⟨InLogOpt.none, hzero.symm⟩
  · rw [if_neg hzero]
    have hlast := htail.nextIndex_last hH
    obtain ⟨x, hx, hxi⟩ := (htail.ordered hH).exists_has (i := i - 1) (by omega) (by omega)
    have hget : s.getLogId (i - 1) = some x := by
      rw [← hxi]
      exact hx
    rw [hget]
    refine ⟨((htail.has_iff hH).1 hx).1.opt, ?_⟩
    rw [nextIndex_some]
    omega

omit [LinearOrder NID] in
theorem calcMid_le {matchingNext searchingEnd : Nat} (h : matchingNext ≤ searchingEnd) :
    ProgressEntry.calcMid matchingNext searchingEnd ≤ searchingEnd := by
  unfold ProgressEntry.calcMid
  omega

/-- A new range starts at or behind what is scheduled to be purged. -/
theorem nextSend {s : RaftState NID N} (h : ItemOK H s.logIds.firstIndex item) (hH : FullLog H)
    (htail : s.logIds.TailOf H) (hc : s.Cursors) (maxEntries : Nat) :
    ItemOK H s.logIds.firstIndex (item.nextSend s maxEntries).1 ∧
      (item.nextSend s maxEntries).2.1 =
        { s with lastInflightId := (item.nextSend s maxEntries).2.1.lastInflightId } := by
  have hupto : nextIndex s.purgeUpto ≤ H.length := (htail.inLogOpt hH hc.purgeUpto).nextIndex_le
  have hfirst : s.logIds.firstIndex ≤ nextIndex s.purgeUpto := hc.purged_le
  have hsearch := h.searching
  unfold ProgressEntry.nextSend
  split
  · exact ⟨h, rfl⟩
  dsimp only
  refine ⟨⟨h.matching, hsearch, fun prev hprev => ?_⟩, rfl⟩
  dsimp only at hprev
  split at hprev
  · cases hprev
  rename_i hend
  split at hprev
  · rename_i hsearching
    have hmid := calcMid_le hsearching.le
    split at hprev
    · cases hprev
    · rw [start_newLogs hprev]
      obtain ⟨hin, hnext⟩ := prevLogId_spec hH htail
        (i := max (ProgressEntry.calcMid (nextIndex item.progress) item.data.searchingEnd)
          (nextIndex s.purgeUpto)) (by omega) (by omega)
      exact ⟨hin, by omega⟩
  · rename_i hmatched
    obtain rfl := Option.some.inj hprev
    exact ⟨h.matching, by omega⟩

end ItemOK

end ZenohRaft
