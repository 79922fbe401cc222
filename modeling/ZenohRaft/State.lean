/-
  The state of one node: `raft_state/*`, `utime.rs`, `engine/log_id_list.rs`.

  * `IOId` names an IO on the log store by the vote it was accepted under and the last log id
    it covers; `IOProgress` has the three cursors `accepted`, `submitted` and `flushed`.
  * `LogIds` is the list of log ids a node has, with the last purged one. The source keeps the
    last id of each leader only (`LogIdList`); here every id is listed.
  * `MembershipState`, `IOState` and `RaftState` follow the source field by field. Left out are
    `server_state`, which is computed from the other fields and only reported, and the text
    labels of the cursors.

  Instants and durations are natural numbers, and the current time is an argument `now`.
-/
import ZenohRaft.Membership
import ZenohRaft.Vote

namespace ZenohRaft

open Lib

/-! ## Entries -/

/-- `EntryPayload`. -/
inductive Payload (NID N D : Type) where
  | blank
  | normal (data : D)
  | membership (m : Membership NID N)

/-- `Entry`. -/
structure Entry (NID N D : Type) where
  logId : LogId NID
  payload : Payload NID N D

variable {NID N D : Type}

/-- `RaftPayload::get_membership`. -/
def Payload.getMembership : Payload NID N D → Option (Membership NID N)
  | .membership m => some m
  | _ => none

instance [DecidableEq NID] [DecidableEq D] [DecidableEq (Membership NID N)] :
    DecidableEq (Payload NID N D)
  | .blank, .blank => isTrue rfl
  | .blank, .normal _ => isFalse nofun
  | .blank, .membership _ => isFalse nofun
  | .normal _, .blank => isFalse nofun
  | .normal a, .normal b => decidable_of_iff (a = b) (by simp)
  | .normal _, .membership _ => isFalse nofun
  | .membership _, .blank => isFalse nofun
  | .membership _, .normal _ => isFalse nofun
  | .membership a, .membership b => decidable_of_iff (a = b) (by simp)

variable [LinearOrder NID]

instance [DecidableEq (Payload NID N D)] : DecidableEq (Entry NID N D)
  | ⟨l, p⟩, ⟨l', p'⟩ => decidable_of_iff (l = l' ∧ p = p') (by simp)

/-! ## IO ids and progress cursors -/

/-- `LogIOId`: a log id appended under a committed vote. -/
structure LogIOId (NID : Type) where
  committedVote : LeaderId NID
  logId : Option (LogId NID)
  deriving DecidableEq

/-- `IOId`. `vote` holds the leader id of an uncommitted vote. -/
inductive IOId (NID : Type) where
  | vote (leaderId : LeaderId NID)
  | log (io : LogIOId NID)
  deriving DecidableEq

namespace IOId

/-- `IOId::to_app_vote`. -/
def toVote : IOId NID → Vote NID
  | .vote l => ⟨l, false⟩
  | .log io => ⟨io.committedVote, true⟩

/-- `IOId::last_log_id`. -/
def lastLogId : IOId NID → Option (LogId NID)
  | .vote _ => none
  | .log io => io.logId

/-- `IOId::new`. -/
def new (v : Vote NID) : IOId NID :=
  if v.committed then .log ⟨v.leaderId, none⟩ else .vote v.leaderId

/-- `IOId::new_log_io`. -/
def newLogIo (committedVote : LeaderId NID) (lastLogId : Option (LogId NID)) : IOId NID :=
  .log ⟨committedVote, lastLogId⟩

/-- `PartialOrd for IOId`. -/
def partialCmp (mode : LeaderIdMode) (a b : IOId NID) : Option Ordering :=
  match a.toVote.partialCmp mode b.toVote with
  | some .eq => some (compareOfLessAndEq a.lastLogId b.lastLogId)
  | o => o

/-- `a >= b`. -/
def ge (mode : LeaderIdMode) (a b : IOId NID) : Bool :=
  match a.partialCmp mode b with
  | some .gt => true
  | some .eq => true
  | _ => false

/-- `a > b`. -/
def gt (mode : LeaderIdMode) (a b : IOId NID) : Bool :=
  match a.partialCmp mode b with
  | some .gt => true
  | _ => false

section

omit [LinearOrder NID]

@[simp] theorem toVote_new (v : Vote NID) : (new v).toVote = v := by
  obtain ⟨l, c⟩ := v
  cases c <;> rfl

@[simp] theorem lastLogId_new (v : Vote NID) : (new v).lastLogId = none := by
  obtain ⟨l, c⟩ := v
  cases c <;> rfl

theorem eq_of_toVote_of_lastLogId {a b : IOId NID} (hv : a.toVote = b.toVote)
    (hl : a.lastLogId = b.lastLogId) : a = b := by
  cases a with
  | vote l =>
    cases b with
    | vote l' =>
      cases hv
      rfl
    | log io => cases hv
  | log io =>
    cases b with
    | vote l => cases hv
    | log io' =>
      obtain ⟨l, x⟩ := io
      obtain ⟨l', x'⟩ := io'
      cases hv
      cases hl
      rfl

end

theorem partialCmp_eq (mode : LeaderIdMode) (a b : IOId NID) :
    a.partialCmp mode b = thenCmp (a.toVote.partialCmp mode b.toVote)
      (compareOfLessAndEq a.lastLogId b.lastLogId) := by
  unfold partialCmp thenCmp
  cases a.toVote.partialCmp mode b.toVote with
  | none => rfl
  | some o => cases o <;> rfl

theorem strictCmp (mode : LeaderIdMode) : StrictCmp (@partialCmp NID _ mode) :=
  (Vote.strictCmp mode).lex toVote lastLogId (fun _ _ => eq_of_toVote_of_lastLogId)
    (fun a b => compareOfLessAndEq_cases a.lastLogId b.lastLogId) (partialCmp_eq mode)

/-- Votes and IO ids are strictly and partially ordered, in a way that agrees with equality, and
    IO ids compare as soon as their votes do. -/
theorem orders_strict (mode : LeaderIdMode) :
    StrictCmp (@Vote.partialCmp NID _ mode) ∧ StrictCmp (@partialCmp NID _ mode) ∧
      ∀ a b : IOId NID, a.toVote.partialCmp mode b.toVote ≠ none →
        a.partialCmp mode b ≠ none := by
  refine ⟨Vote.strictCmp mode, strictCmp mode, fun a b hvote => ?_⟩
  obtain ⟨o, ho⟩ := Option.ne_none_iff_exists'.1 hvote
  rw [partialCmp_eq, ho]
  -- a tie between the votes is broken by the log ids, which always compare
  cases o <;> simp [thenCmp]

theorem ge_iff {mode : LeaderIdMode} {a b : IOId NID} :
    a.ge mode b = true ↔ b.toVote.rank mode < a.toVote.rank mode ∨
      a.toVote = b.toVote ∧ b.lastLogId ≤ a.lastLogId := by
  unfold ge partialCmp
  rw [Vote.partialCmp_eq]
  by_cases hv : a.toVote = b.toVote
  · rcases lt_trichotomy a.lastLogId b.lastLogId with h | h | h
    · simp [hv, compareOfLessAndEq, h]
    · simp [hv, compareOfLessAndEq, h]
    · simp [hv, compareOfLessAndEq, h.le, h.ne', not_lt.2 h.le]
  · rcases lt_trichotomy (a.toVote.rank mode) (b.toVote.rank mode) with h | h | h
    · simp [hv, h, not_lt.2 h.le]
    · simp [hv, h]
    · simp [hv, h, not_lt.2 h.le]

theorem gt_iff {mode : LeaderIdMode} {a b : IOId NID} :
    a.gt mode b = true ↔ b.toVote.rank mode < a.toVote.rank mode ∨
      a.toVote = b.toVote ∧ b.lastLogId < a.lastLogId := by
  unfold gt partialCmp
  rw [Vote.partialCmp_eq]
  by_cases hv : a.toVote = b.toVote
  · rcases lt_trichotomy a.lastLogId b.lastLogId with h | h | h
    · simp [hv, compareOfLessAndEq, h, h.le]
    · simp [hv, compareOfLessAndEq, h]
    · simp [hv, compareOfLessAndEq, h, h.ne', not_lt.2 h.le]
  · rcases lt_trichotomy (a.toVote.rank mode) (b.toVote.rank mode) with h | h | h
    · simp [hv, h, not_lt.2 h.le]
    · simp [hv, h]
    · simp [hv, h, not_lt.2 h.le]

end IOId

/-- `IOProgress`. -/
structure IOProgress (T : Type) where
  accepted : Option T
  submitted : Option T
  flushed : Option T

namespace IOProgress

variable {T : Type}

/-- `IOProgress::new_synchronized`. -/
def newSynchronized (v : Option T) : IOProgress T := ⟨v, v, v⟩

/-- `IOProgress::accept`. -/
def accept (p : IOProgress T) (v : T) : IOProgress T := { p with accepted := some v }

/-- `IOProgress::submit`. -/
def submit (p : IOProgress T) (v : T) : IOProgress T := { p with submitted := some v }

/-- `Some(new) > cursor`, for the order `gt` of `T`. -/
def exceeds (gt : T → T → Bool) (new : T) (cursor : Option T) : Bool :=
  match cursor with
  | none => true
  | some current => gt new current

/-- `a >= b` for optional values, for the order `ge` of `T`. -/
def optGe (ge : T → T → Bool) : Option T → Option T → Bool
  | _, none => true
  | some a, some b => ge a b
  | none, some _ => false

/-- `IOProgress::validate`. -/
def validate (ge : T → T → Bool) (p : IOProgress T) : Bool :=
  optGe ge p.submitted p.flushed && optGe ge p.accepted p.submitted

/-- `IOProgress::try_flush`. -/
def tryFlush (gt : T → T → Bool) (p : IOProgress T) (v : T) : IOProgress T :=
  if exceeds gt v p.flushed then { p with flushed := some v } else p

omit [LinearOrder NID] in
theorem tryFlush_accepted (gt : T → T → Bool) (p : IOProgress T) (v : T) :
    (p.tryFlush gt v).accepted = p.accepted := by
  unfold tryFlush
  split <;> rfl

/-- `IOProgress::try_update_all`. -/
def tryUpdateAll (gt : T → T → Bool) (p : IOProgress T) (v : T) : IOProgress T :=
  { accepted := if exceeds gt v p.accepted then some v else p.accepted
    submitted := if exceeds gt v p.submitted then some v else p.submitted
    flushed := if exceeds gt v p.flushed then some v else p.flushed }

end IOProgress

/-- `a > b` for log ids. -/
def LogId.gt (a b : LogId NID) : Bool := decide (b < a)

/-- `a >= b` for log ids. -/
def LogId.ge (a b : LogId NID) : Bool := decide (b ≤ a)

theorem IOId.ge_refl (mode : LeaderIdMode) (a : IOId NID) : a.ge mode a = true :=
  IOId.ge_iff.2 (Or.inr ⟨rfl, le_rfl⟩)

theorem IOId.ge_trans {mode : LeaderIdMode} {a b c : IOId NID} (h : a.ge mode b = true)
    (h' : b.ge mode c = true) : a.ge mode c = true := by
  rw [IOId.ge_iff] at *
  rcases h with h | ⟨hv, h⟩
  · rcases h' with h' | ⟨hv', -⟩
    · exact Or.inl (h'.trans h)
    · rw [hv'] at h
      exact Or.inl h
  · rcases h' with h' | ⟨hv', h'⟩
    · rw [hv]
      exact Or.inl h'
    · exact Or.inr ⟨hv.trans hv', h'.trans h⟩

theorem IOId.ge_of_gt {mode : LeaderIdMode} {a b : IOId NID} (h : a.gt mode b = true) :
    a.ge mode b = true :=
  IOId.ge_iff.2 ((IOId.gt_iff.1 h).imp id fun hlt => ⟨hlt.1, hlt.2.le⟩)

theorem optGe_refl (mode : LeaderIdMode) (a : Option (IOId NID)) :
    IOProgress.optGe (IOId.ge mode) a a = true := by
  cases a with
  | none => rfl
  | some a => exact IOId.ge_refl mode a

theorem optGe_trans {mode : LeaderIdMode} {a b c : Option (IOId NID)}
    (h : IOProgress.optGe (IOId.ge mode) a b = true)
    (h' : IOProgress.optGe (IOId.ge mode) b c = true) :
    IOProgress.optGe (IOId.ge mode) a c = true := by
  cases c with
  | none => cases a <;> rfl
  | some c =>
    cases b with
    | none => cases h'
    | some b =>
      cases a with
      | none => cases h
      | some a => exact IOId.ge_trans h h'

theorem LogId.optGe_iff {a b : Option (LogId NID)} :
    IOProgress.optGe LogId.ge a b = true ↔ b ≤ a := by
  cases a <;> cases b <;> simp [IOProgress.optGe, LogId.ge]

/-- `a > b` for `LogIOId`. -/
def LogIOId.gt (mode : LeaderIdMode) (a b : LogIOId NID) : Bool :=
  IOId.gt mode (.log a) (.log b)

/-! ## Log ids -/

/-- The log ids of a node: the last purged one, and all after it. -/
structure LogIds (NID : Type) where
  purged : Option (LogId NID)
  ids : List (LogId NID)

/-- `LeaderLogIds`: the consecutive log ids of one leader. -/
structure LeaderLogIds (NID : Type) where
  leaderId : CommittedLeaderId NID
  first : Nat
  last : Nat

namespace LeaderLogIds

/-- The log ids, in order. -/
def toList (l : LeaderLogIds NID) : List (LogId NID) :=
  (List.range' l.first (l.last + 1 - l.first)).map fun i => ⟨l.leaderId, i⟩

/-- `LeaderLogIds::new_single`. -/
def newSingle (x : LogId NID) : LeaderLogIds NID := ⟨x.leaderId, x.index, x.index⟩

end LeaderLogIds

namespace LogIds

/-- `LogIdList::first_index`. -/
def firstIndex (l : LogIds NID) : Nat := nextIndex l.purged

/-- `LogIdList::last`. -/
def last (l : LogIds NID) : Option (LogId NID) := l.ids.getLast?.or l.purged

/-- `LogIdList::ref_at`. -/
def refAt (l : LogIds NID) (index : Nat) : Option (LogId NID) :=
  if index < l.firstIndex then l.purged.filter (fun p => decide (p.index = index))
  else l.ids.find? fun x => decide (x.index = index)

/-- `LogIdList::extend`. -/
def extend (l : LogIds NID) (new : List (LogId NID)) : LogIds NID :=
  { l with ids := l.ids ++ new }

/-- `LogIdList::truncate`: drop the ids from index `since` on. -/
def truncate (l : LogIds NID) (since : Nat) : LogIds NID :=
  { l with ids := l.ids.filter fun x => decide (x.index < since) }

/-- `LogIdList::purge`. -/
def purge (l : LogIds NID) (upto : LogId NID) : LogIds NID :=
  if nextIndex l.last ≤ upto.index then ⟨some upto, []⟩
  else if upto.index < l.firstIndex then l
  else ⟨some upto, l.ids.filter fun x => decide (upto.index < x.index)⟩

/-- `LogIdList::by_last_leader`: the ids at the end of the list that have the leader of the
    last one. -/
def byLastLeader (l : LogIds NID) : Option (LeaderLogIds NID) :=
  l.last.map fun last =>
    let run := l.ids.reverse.takeWhile fun x => decide (x.leaderId = last.leaderId)
    ⟨last.leaderId, if l.ids = [] then last.index else last.index + 1 - run.length, last.index⟩

section Lemmas

variable {l : LogIds NID} {i since : Nat} {x : LogId NID}

/-- The indexes count up from the first one. -/
def Consecutive (l : LogIds NID) : Prop := ∀ i x, l.ids[i]? = some x → x.index = l.firstIndex + i

section

omit [LinearOrder NID]

theorem Consecutive.nextIndex_last (h : l.Consecutive) :
    nextIndex l.last = l.firstIndex + l.ids.length := by
  unfold last
  cases hl : l.ids.getLast? with
  | none =>
    rw [List.getLast?_eq_none_iff.1 hl]
    rfl
  | some x =>
    rw [List.getLast?_eq_getElem?] at hl
    have hlt := (List.getElem?_eq_some_iff.1 hl).1
    have hx := h _ x hl
    show x.index + 1 = _
    omega

theorem refAt_index (h : l.refAt i = some x) : x.index = i := by
  unfold refAt at h
  split at h
  · exact of_decide_eq_true (Option.filter_eq_some_iff.1 h).2
  · have hx := List.find?_some h
    exact of_decide_eq_true hx

theorem refAt_extend (h : l.refAt i = some x) (new : List (LogId NID)) :
    (l.extend new).refAt i = some x := by
  unfold refAt at *
  have hfirst : (l.extend new).firstIndex = l.firstIndex := rfl
  rw [hfirst]
  by_cases hi : i < l.firstIndex
  · rw [if_pos hi] at h ⊢
    exact h
  · rw [if_neg hi] at h ⊢
    rw [extend, List.find?_append, h]
    rfl

theorem find?_filter_index {p : LogId NID → Bool} {i : Nat} (ids : List (LogId NID))
    (hp : ∀ x : LogId NID, x.index = i → p x = true) :
    (ids.filter p).find? (fun x => decide (x.index = i)) =
      ids.find? fun x => decide (x.index = i) := by
  rw [List.find?_filter]
  refine congrArg (fun q => ids.find? q) (funext fun x => ?_)
  by_cases hx : x.index = i
  · simp [hx, hp x hx]
  · simp [hx]

theorem refAt_truncate (hi : i < since) : (l.truncate since).refAt i = l.refAt i := by
  unfold refAt
  have hfirst : (l.truncate since).firstIndex = l.firstIndex := rfl
  rw [hfirst]
  by_cases h : i < l.firstIndex
  · rw [if_pos h, if_pos h]
    rfl
  · rw [if_neg h, if_neg h]
    refine find?_filter_index l.ids fun x hx => ?_
    rw [hx]
    exact decide_eq_true hi

theorem refAt_purge (upto : LogId NID) (h : l.refAt i = some x) (hi : upto.index < i) :
    (l.purge upto).refAt i = some x ∨ nextIndex l.last ≤ upto.index := by
  unfold purge
  split
  · rename_i hlast
    exact Or.inr hlast
  split
  · exact Or.inl h
  · left
    rename_i hfirst
    have hx : x.index = i := refAt_index h
    unfold refAt at h ⊢
    rw [if_neg (by omega)] at h
    have hnot : ¬ i < (⟨some upto, l.ids.filter fun x => decide (upto.index < x.index)⟩ :
        LogIds NID).firstIndex := by
      show ¬ i < upto.index + 1
      omega
    rw [if_neg hnot, ← h]
    refine find?_filter_index l.ids fun y hy => ?_
    rw [hy]
    exact decide_eq_true hi

theorem Consecutive.lt_nextIndex (h : l.Consecutive) (hx : l.refAt i = some x) :
    i < nextIndex l.last := by
  rw [h.nextIndex_last]
  have hi : x.index = i := refAt_index hx
  unfold refAt at hx
  split at hx
  · omega
  · obtain ⟨k, hk⟩ := List.mem_iff_getElem?.1 (List.mem_of_find?_eq_some hx)
    have hlt := (List.getElem?_eq_some_iff.1 hk).1
    have := h k x hk
    omega

theorem Consecutive.exists_refAt (h : l.Consecutive) (hfirst : l.firstIndex ≤ i)
    (hi : i < nextIndex l.last) : ∃ x, l.refAt i = some x := by
  rw [h.nextIndex_last] at hi
  have hlt : i - l.firstIndex < l.ids.length := by omega
  have hx := h _ _ (List.getElem?_eq_getElem hlt)
  have hfind : (l.ids.find? fun x => decide (x.index = i)).isSome = true := by
    rw [List.find?_isSome]
    refine ⟨l.ids[i - l.firstIndex], List.getElem_mem hlt, ?_⟩
    rw [hx]
    simp only [decide_eq_true_eq]
    omega
  unfold refAt
  rw [if_neg (by omega)]
  exact Option.isSome_iff_exists.1 hfind

theorem filter_index_lt {b : Nat} {ids : List (LogId NID)}
    (h : ∀ i x, ids[i]? = some x → x.index = b + i) (since : Nat) :
    ids.filter (fun x => decide (x.index < since)) = ids.take (since - b) := by
  induction ids generalizing b with
  | nil => simp
  | cons a ids ih =>
    have ha : a.index = b := h 0 a rfl
    have hrest : ∀ i x, ids[i]? = some x → x.index = b + 1 + i := by
      intro i x hx
      have := h (i + 1) x hx
      omega
    by_cases hs : b < since
    · have hsub : since - b = (since - (b + 1)) + 1 := by omega
      rw [List.filter_cons_of_pos (by simp [ha, hs]), ih hrest, hsub, List.take_succ_cons]
    · have hsub : since - b = 0 := by omega
      have hsub' : since - (b + 1) = 0 := by omega
      rw [List.filter_cons_of_neg (by simp [ha, hs]), ih hrest, hsub, hsub', List.take_zero,
        List.take_zero]

theorem Consecutive.truncate (h : l.Consecutive) (since : Nat) :
    (l.truncate since).Consecutive := by
  intro i x hx
  show x.index = l.firstIndex + i
  rw [LogIds.truncate, filter_index_lt h, List.getElem?_take] at hx
  split at hx
  · exact h i x hx
  · cases hx

theorem Consecutive.append (h : l.Consecutive) (k : CommittedLeaderId NID) :
    (l.extend [⟨k, nextIndex l.last⟩]).Consecutive := by
  intro i x hx
  show x.index = l.firstIndex + i
  rcases Nat.lt_or_ge i l.ids.length with hlt | hge
  · rw [extend, List.getElem?_append_left hlt] at hx
    exact h i x hx
  · rw [extend, List.getElem?_append_right hge, List.getElem?_singleton] at hx
    split at hx
    · obtain rfl := Option.some.inj hx
      show nextIndex l.last = _
      rw [h.nextIndex_last]
      omega
    · cases hx

end

end Lemmas

end LogIds

/-! ## Membership state -/

/-- `StoredMembership`. -/
structure StoredMembership (NID N : Type) where
  logId : Option (LogId NID)
  membership : Membership NID N

/-- `StoredMembership::default`. -/
def StoredMembership.default : StoredMembership NID N := ⟨none, Membership.default⟩

/-- `MembershipState`. -/
structure MembershipState (NID N : Type) where
  committed : StoredMembership NID N
  effective : StoredMembership NID N

/-- `ChangeMembershipError`. -/
inductive ChangeMembershipError (NID N : Type) where
  | inProgress (committed membershipLogId : Option (LogId NID))
  | membership (e : MembershipError NID)
  | nodeMetadataChanged (nodeId : NID)
  | unsupportedMembershipTransition (previous proposed : List (Finset NID))
  | uncommittedLeaderLog (committed : Option (LogId NID)) (leaderLogId : LogId NID)

namespace MembershipState

/-- `MembershipState::ensure_committed`. -/
def ensureCommitted (s : MembershipState NID N) : Except (ChangeMembershipError NID N) Unit :=
  if s.effective.logId = s.committed.logId then .ok ()
  else .error (.inProgress s.committed.logId s.effective.logId)

/-- `MembershipState::next_membership`. The outer `none` is the panic of `Membership::change`
    on a membership without voter sets. -/
def nextMembership (s : MembershipState NID N) (ch : ChangeMembers NID N) (retain : Bool) :
    Option (Except (ChangeMembershipError NID N) (Membership NID N)) :=
  match s.ensureCommitted with
  | .error e => some (.error e)
  | .ok () => (s.effective.membership.change ch retain).map (·.mapError .membership)

/-- `MembershipState::validate_append_membership`. -/
def validateAppendMembership [DecidableEq N] (s : MembershipState NID N)
    (proposed : Membership NID N) : Except (ChangeMembershipError NID N) Unit :=
  match s.ensureCommitted with
  | .error e => .error e
  | .ok () =>
    match proposed.ensureValid with
    | .error e => .error (.membership e)
    | .ok () =>
      match proposed.ensureQuorumDefined with
      | .error e => .error (.membership e)
      | .ok () =>
        let effective := s.effective.membership
        match effective.findChangedNodeMetadata proposed with
        | some id => .error (.nodeMetadataChanged id)
        | none =>
          if effective.isDirectAppendCompatibleWith proposed then .ok ()
          else .error
            (.unsupportedMembershipTransition effective.configs proposed.configs)

/-- `MembershipState::commit`. -/
def commit (s : MembershipState NID N) (committedLogId : Option (LogId NID)) :
    MembershipState NID N :=
  if s.effective.logId ≤ committedLogId ∧ s.committed.logId < s.effective.logId then
    { s with committed := s.effective }
  else s

/-- `MembershipState::install_membership_snapshot`. -/
def installMembershipSnapshot (s : MembershipState NID N) (m : StoredMembership NID N)
    (snapshotLastLogIndex : Nat) : MembershipState NID N :=
  if optIndex s.effective.logId ≤ some snapshotLastLogIndex then ⟨m, m⟩
  else
    let effective :=
      if optIndex s.effective.logId ≤ optIndex m.logId then m else s.effective
    let committed := if s.committed.logId < m.logId then m else s.committed
    ⟨committed, effective⟩

/-- `MembershipState::append`. -/
def append (s : MembershipState NID N) (m : StoredMembership NID N) : MembershipState NID N :=
  ⟨s.effective, m⟩

/-- `MembershipState::validate`. -/
def validate (s : MembershipState NID N) : Bool :=
  decide (s.committed.logId ≤ s.effective.logId) &&
    decide (optIndex s.committed.logId ≤ optIndex s.effective.logId)

/-- `MembershipState::truncate`. -/
def truncate (s : MembershipState NID N) (since : Nat) : MembershipState NID N :=
  if some since ≤ optIndex s.effective.logId then { s with effective := s.committed } else s

end MembershipState

/-! ## Leases -/

/-- `Leased`. -/
structure Leased (T : Type) where
  data : T
  lastUpdate : Option Nat
  lease : Nat
  leaseEnabled : Bool

namespace Leased

variable {T : Type}

/-- `Leased::new`. -/
def new (now lease : Nat) (data : T) : Leased T := ⟨data, some now, lease, true⟩

/-- `Leased::update`. -/
def update (_ : Leased T) (now lease : Nat) (data : T) : Leased T := ⟨data, some now, lease, true⟩

/-- `Leased::touch`. -/
def touch (l : Leased T) (now lease : Nat) : Leased T :=
  { l with lastUpdate := some now, lease := if l.leaseEnabled then lease else l.lease }

/-- `Leased::disable_lease`. -/
def disableLease (l : Leased T) : Leased T := { l with lease := 0, leaseEnabled := false }

/-- `Leased::is_expired`. -/
def isExpired (l : Leased T) (now timeout : Nat) : Bool :=
  match l.lastUpdate with
  | some utime => decide (utime + l.lease + timeout < now)
  | none => true

end Leased

/-! ## IO state -/

/-- `IOState`. -/
structure IOState (NID : Type) where
  buildingSnapshot : Bool
  logProgress : IOProgress (IOId NID)
  applyProgress : IOProgress (LogId NID)
  snapshot : IOProgress (LogId NID)
  clusterCommitted : Option (LogIOId NID)
  purged : Option (LogId NID)

namespace IOState

/-- `IOState::new`. -/
def new (vote : Vote NID) (applied snapshot purged : Option (LogId NID)) : IOState NID :=
  { buildingSnapshot := false
    logProgress := .newSynchronized (some (IOId.new vote))
    applyProgress := .newSynchronized applied
    snapshot := .newSynchronized snapshot
    clusterCommitted := none
    purged := purged }

/-- `IOState::validate`. -/
def validate (mode : LeaderIdMode) (s : IOState NID) : Bool :=
  s.logProgress.validate (IOId.ge mode) && s.applyProgress.validate LogId.ge &&
    s.snapshot.validate LogId.ge &&
    decide (s.snapshot.submitted ≤ s.applyProgress.submitted) &&
    decide (s.purged ≤ s.snapshot.flushed)

/-- `MonotonicIncrease::try_update` on `cluster_committed`. -/
def tryUpdateClusterCommitted (mode : LeaderIdMode) (s : IOState NID) (new : LogIOId NID) :
    IOState NID :=
  if IOProgress.exceeds (LogIOId.gt mode) new s.clusterCommitted then
    { s with clusterCommitted := some new }
  else s

/-- `IOState::calculate_local_committed`: the committed log id of the cluster, as far as this
    node has accepted the log of a leader that is not older than the one that committed it. -/
def calculateLocalCommitted (mode : LeaderIdMode) (s : IOState NID) : Option (LogId NID) :=
  match s.clusterCommitted, s.logProgress.accepted with
  | some cc, some (.log accepted) =>
    if (⟨accepted.committedVote, true⟩ : Vote NID).ge mode ⟨cc.committedVote, true⟩ then
      min accepted.logId cc.logId
    else none
  | _, _ => none

end IOState

/-! ## Raft state -/

/-- `SnapshotMeta`. -/
structure SnapshotMeta (NID N : Type) where
  lastLogId : Option (LogId NID)
  lastMembership : StoredMembership NID N

/-- `RaftState`. -/
structure RaftState (NID N : Type) where
  vote : Leased (Vote NID)
  logIds : LogIds NID
  membershipState : MembershipState NID N
  snapshotMeta : SnapshotMeta NID N
  lastInflightId : Nat
  ioState : IOState NID
  purgeUpto : Option (LogId NID)
  progressIdGen : Nat

namespace RaftState

/-- `RaftState::vote_ref`. -/
def voteRef (s : RaftState NID N) : Vote NID := s.vote.data

/-- `LogStateReader::last_log_id`. -/
def lastLogId (s : RaftState NID N) : Option (LogId NID) := s.logIds.last

/-- `LogStateReader::get_log_id`. -/
def getLogId (s : RaftState NID N) (index : Nat) : Option (LogId NID) := s.logIds.refAt index

/-- `LogStateReader::prev_log_id`. -/
def prevLogId (s : RaftState NID N) (index : Nat) : Option (LogId NID) :=
  if index = 0 then none else s.getLogId (index - 1)

/-- `RaftState::local_committed`. -/
def localCommitted (s : RaftState NID N) : Option (LogId NID) := s.ioState.applyProgress.accepted

/-- `RaftState::cluster_committed`. -/
def clusterCommitted (s : RaftState NID N) : Option (LogId NID) :=
  s.ioState.clusterCommitted.bind (·.logId)

/-- `LogStateReader::has_log_id`. Everything up to the committed index is taken as present. -/
def hasLogId (s : RaftState NID N) (x : LogId NID) : Bool :=
  if x.index < nextIndex s.localCommitted then true
  else decide (s.getLogId x.index = some x)

/-- `RaftState::accepted_log_io`. -/
def acceptedLogIo (s : RaftState NID N) : Option (IOId NID) := s.ioState.logProgress.accepted

/-- `RaftState::accept_log_io`. The previous cursor is returned in the source; callers here
    read it before the call. -/
def acceptLogIo (mode : LeaderIdMode) (s : RaftState NID N) (accepted : IOId NID) :
    RaftState NID N :=
  if IOProgress.exceeds (IOId.gt mode) accepted s.acceptedLogIo then
    { s with ioState := { s.ioState with
        logProgress := s.ioState.logProgress.accept accepted } }
  else s

/-- The accepted cursor after `accept_log_io`. -/
def nextAccepted (mode : LeaderIdMode) (s : RaftState NID N) (io : IOId NID) :
    Option (IOId NID) :=
  if IOProgress.exceeds (IOId.gt mode) io s.acceptedLogIo then some io else s.acceptedLogIo

/-- `accept_log_io` moves one cursor and nothing else. -/
theorem acceptLogIo_eq (mode : LeaderIdMode) (s : RaftState NID N) (io : IOId NID) :
    s.acceptLogIo mode io = { s with ioState := { s.ioState with
      logProgress := { s.ioState.logProgress with accepted := s.nextAccepted mode io } } } := by
  unfold acceptLogIo nextAccepted
  split <;> rfl

theorem nextAccepted_ge (mode : LeaderIdMode) (s : RaftState NID N) (io : IOId NID) :
    IOProgress.optGe (IOId.ge mode) (s.nextAccepted mode io) s.acceptedLogIo = true := by
  unfold nextAccepted
  split
  · rename_i hex
    cases ha : s.acceptedLogIo with
    | none => rfl
    | some a =>
      rw [ha] at hex
      exact IOId.ge_of_gt hex
  · exact optGe_refl mode _

/-- `RaftState::update_local_committed`. -/
def updateLocalCommitted (s : RaftState NID N) (committed : Option (LogId NID)) :
    RaftState NID N :=
  match committed with
  | none => s
  | some c =>
    if s.localCommitted < some c then
      { s with
        ioState := { s.ioState with applyProgress := s.ioState.applyProgress.accept c }
        membershipState := s.membershipState.commit (some c) }
    else s

/-- `RaftState::update_committed`. -/
def updateCommitted (mode : LeaderIdMode) (s : RaftState NID N) (clusterCommitted : LogIOId NID) :
    RaftState NID N :=
  let s := { s with ioState := s.ioState.tryUpdateClusterCommitted mode clusterCommitted }
  s.updateLocalCommitted (s.ioState.calculateLocalCommitted mode)

/-- `RaftState::first_conflicting_index`: how many leading entries are present already. -/
def firstConflictingIndex (s : RaftState NID N) : List (Entry NID N D) → Nat
  | [] => 0
  | e :: es => if s.hasLogId e.logId then s.firstConflictingIndex es + 1 else 0

/-- `RaftState::validate`. -/
def validate (mode : LeaderIdMode) (s : RaftState NID N) : Bool :=
  (s.logIds.purged.isSome || decide (optIndex s.logIds.ids.head? ≤ some 0)) &&
    decide (s.logIds.purged ≤ s.purgeUpto) &&
    (if s.snapshotMeta.lastLogId = none then decide (s.purgeUpto ≤ s.localCommitted)
      else decide (s.purgeUpto ≤ s.snapshotMeta.lastLogId)) &&
    decide (s.snapshotMeta.lastLogId ≤ s.localCommitted) &&
    decide (s.localCommitted ≤ s.lastLogId) &&
    s.membershipState.validate && s.ioState.validate mode

/-- `RaftState::is_leading`. -/
def isLeading (s : RaftState NID N) (id : NID) : Bool :=
  s.membershipState.effective.membership.contains id && decide (s.voteRef.leaderId.nodeId = id)

/-- `RaftState::is_initialized`: there are logs, or a vote of another term than the first. -/
def isInitialized (s : RaftState NID N) : Bool :=
  s.lastLogId.isSome || decide (s.voteRef.leaderId.term ≠ 0)

/-- `RaftState::is_leader`. -/
def isLeader (s : RaftState NID N) (id : NID) : Bool := s.isLeading id && s.voteRef.committed

end RaftState

end ZenohRaft
