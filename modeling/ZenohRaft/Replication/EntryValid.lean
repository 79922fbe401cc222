/-
  `ProgressEntry::validate` over the life of an entry.

  An entry is changed by `next_send`, by acknowledgements and by conflicts. The last two come with
  the id of what was in flight or, from a heartbeat or a request that only carries the commit
  index, without one; then they move the matching log id and the end of the search and leave what
  is in flight alone.

  * `validate_step_iff`: which steps keep a valid entry valid.
  * `validate_of_ops`: a run of such steps.

  Not every step does. A conflict of a heartbeat that is below the start of a range in flight
  leaves this range behind the end of the search, also when log reversion is allowed
  (`heartbeat_conflict_invalid`).
-/
import ZenohRaft.Lib.WriteBehind
import ZenohRaft.Replication.Probing

namespace ZenohRaft

open Lib

variable {NID N : Type} [LinearOrder NID]

/-! ## Validity -/

/-- `LogIdRange::validate`. -/
def LogIdRange.validate (range : LogIdRange NID) : Bool := decide (range.prev ≤ range.last)

/-- `Inflight::validate`. -/
def Inflight.validate : Inflight NID → Bool
  | .logs range _ => range.validate
  | .none | .logsSince _ _ | .snapshot _ => true

namespace ProgressEntry

/-- `ProgressEntry::validate`. -/
def validate (e : ProgressEntry NID) : Bool :=
  decide (nextIndex e.progress ≤ e.data.searchingEnd) && e.data.inflight.validate &&
    match e.data.inflight with
    | .logs range _ =>
      decide (e.progress ≤ range.prev) && decide (nextIndex range.prev ≤ e.data.searchingEnd)
    | .none | .logsSince _ _ | .snapshot _ => true

/-- A fixed range of logs is in flight. -/
def Sends (e : ProgressEntry NID) (range : LogIdRange NID) : Prop :=
  ∃ id, e.data.inflight = .logs range id

theorem validate_iff (e : ProgressEntry NID) : e.validate = true ↔
    nextIndex e.progress ≤ e.data.searchingEnd ∧ ∀ range, e.Sends range →
      range.prev ≤ range.last ∧ e.progress ≤ range.prev ∧
        nextIndex range.prev ≤ e.data.searchingEnd := by
  unfold validate Sends
  cases e.data.inflight with
  | logs range id =>
    simp [Inflight.validate, LogIdRange.validate, and_assoc]
  | none | logsSince _ _ | snapshot _ => simp [Inflight.validate]

end ProgressEntry

/-! ## Steps -/

/-- What happens to an entry. -/
inductive EntryOp (NID N : Type) where
  | nextSend (leader : RaftState NID N) (maxEntries : Nat)
  | ack (matching : Option (LogId NID)) (inflightId : Option Nat)
  | conflict (index : Nat) (inflightId : Option Nat)

namespace ProgressEntry

/-- The entry after a step. -/
def applyOp (allow : Bool) (e : ProgressEntry NID) : EntryOp NID N → ProgressEntry NID
  | .nextSend leader maxEntries => (e.nextSend leader maxEntries).1
  | .ack matching inflightId => e.updateMatching matching inflightId
  | .conflict index inflightId => e.updateConflicting allow index inflightId

/-- `next_send` is called with a leader that has had the matching log id, and the search does not
    go behind the end of its log. -/
def Fits (e : ProgressEntry NID) : EntryOp NID N → Prop
  | .nextSend leader _ => ∃ H, LeaderLog H leader ∧ InLogOpt H e.progress ∧
      e.data.searchingEnd ≤ nextIndex leader.lastLogId
  | .ack _ _ | .conflict _ _ => True

/-- Which steps keep an entry valid. Without an in-flight id, an acknowledgement must not go
    behind the start of a range in flight, and a conflict must not be before it. A conflict below
    the matching log id is only allowed with log reversion. -/
def Keeps (allow : Bool) (e : ProgressEntry NID) : EntryOp NID N → Prop
  | .nextSend _ _ | .ack _ (some _) => True
  | .ack matching none => e.progress < matching → ∀ range, e.Sends range → matching ≤ range.prev
  | .conflict index none => index < e.data.searchingEnd →
      (∀ range, e.Sends range → nextIndex range.prev ≤ index) ∧
        ((e.data.allowLogReversion || allow) = true ∨ nextIndex e.progress ≤ index)
  | .conflict index (some id) => (e.data.inflight.conflict id).1 = true →
      index < e.data.searchingEnd →
        (e.data.allowLogReversion || allow) = true ∨ nextIndex e.progress ≤ index

section Step

variable {allow : Bool} {e : ProgressEntry NID}

/-- `next_send` puts a range in flight that fits the search. -/
theorem validate_nextSend {H : List (LogId NID)} {s : RaftState NID N} (hlog : LeaderLog H s)
    (hmatching : InLogOpt H e.progress) (hend : e.data.searchingEnd ≤ nextIndex s.lastLogId)
    (hvalid : e.validate = true) (maxEntries : Nat) :
    (e.nextSend s maxEntries).1.validate = true := by
  by_cases hidle : e.data.inflight = .none
  · have hv := (validate_iff e).1 hvalid
    obtain ⟨action, hsend, hcases⟩ := nextSend_cases hlog ⟨hmatching, hv.1, hend⟩ hidle maxEntries
    rw [hsend, validate_iff]
    refine ⟨hv.1, ?_⟩
    rintro range ⟨id, hsends⟩
    obtain rfl : action = .logs range id := hsends
    rcases hcases with ⟨-, h⟩ | ⟨-, -, -, h⟩ | ⟨-, range', hprobe, h⟩ | ⟨-, -, h⟩ |
      ⟨-, h⟩ <;> cases h
    refine ⟨?_, ?_, hprobe.searching⟩
    · exact (hlog.full.le_iff hprobe.prev hprobe.last).2 hprobe.nonempty.le
    · exact (hlog.full.le_iff hmatching hprobe.prev).2 hprobe.matching_le
  · unfold nextSend
    rw [if_pos hidle]
    exact hvalid

/-- An acknowledgement of what is in flight: it is stale, or it moves the matching log id and the
    start of the range to the same place. -/
theorem updateMatching_payload (e : ProgressEntry NID) (matching : Option (LogId NID)) (id : Nat) :
    e.updateMatching matching (some id) = e ∨
      (e.updateMatching matching (some id)).progress = matching ∧
      (e.updateMatching matching (some id)).data.searchingEnd =
        max e.data.searchingEnd (nextIndex matching) ∧
      ∀ range, (e.updateMatching matching (some id)).Sends range →
        range.prev = matching ∧ matching ≤ range.last := by
  obtain ⟨node, progress, ⟨stream, inflight, searchingEnd, reversion⟩⟩ := e
  unfold updateMatching Inflight.ack
  cases inflight with
  | none => exact Or.inl rfl
  | logs range i =>
    dsimp only
    by_cases hid : i = id
    · rw [if_pos hid]
      refine Or.inr ⟨rfl, rfl, ?_⟩
      rintro range' ⟨i', hsends⟩
      have hsends : Inflight.newLogs matching range.last i = .logs range' i' := hsends
      unfold Inflight.newLogs at hsends
      by_cases hle : range.last ≤ matching
      · rw [if_pos hle] at hsends
        cases hsends
      · rw [if_neg hle] at hsends
        cases hsends
        exact ⟨rfl, (not_le.1 hle).le⟩
    · rw [if_neg hid]
      exact Or.inl rfl
  | logsSince prev i =>
    dsimp only
    by_cases hid : i = id
    · rw [if_pos hid]
      refine Or.inr ⟨rfl, rfl, ?_⟩
      rintro range' ⟨i', hsends⟩
      cases hsends
    · rw [if_neg hid]
      exact Or.inl rfl
  | snapshot i =>
    dsimp only
    by_cases hid : i = id
    · rw [if_pos hid]
      refine Or.inr ⟨rfl, rfl, ?_⟩
      rintro range' ⟨i', hsends⟩
      cases hsends
    · rw [if_neg hid]
      exact Or.inl rfl

theorem validate_ack_payload (hvalid : e.validate = true) (matching : Option (LogId NID))
    (id : Nat) : (e.updateMatching matching (some id)).validate = true := by
  rcases updateMatching_payload e matching id with hsame | ⟨hprogress, hend, hrange⟩
  · rw [hsame]
    exact hvalid
  · rw [validate_iff, hprogress, hend]
    refine ⟨le_max_right _ _, fun range hsends => ?_⟩
    obtain ⟨hprev, hle⟩ := hrange range hsends
    rw [hprev]
    exact ⟨hle, le_rfl, le_max_right _ _⟩

/-- An acknowledgement without in-flight id leaves what is in flight alone. -/
theorem validate_ack_iff (hvalid : e.validate = true) (matching : Option (LogId NID)) :
    (e.updateMatching matching none).validate = true ↔
      (e.progress < matching → ∀ range, e.Sends range → matching ≤ range.prev) := by
  obtain ⟨hend, hrange⟩ := (validate_iff e).1 hvalid
  unfold updateMatching
  dsimp only
  by_cases hlt : e.progress < matching
  · rw [if_pos (decide_eq_true hlt), validate_iff]
    constructor
    · intro h _ range hsends
      exact (h.2 range hsends).2.1
    · intro h
      refine ⟨le_max_right _ _, fun range hsends => ?_⟩
      obtain ⟨hle, -, hsearch⟩ := hrange range hsends
      exact ⟨hle, h hlt range hsends, hsearch.trans (le_max_left _ _)⟩
  · rw [if_neg (by simpa using hlt)]
    exact ⟨fun _ h => absurd h hlt, fun _ => hvalid⟩

/-- The end of `update_conflicting`, for an index below the end of the search. -/
def lowerEnd (allow : Bool) (e : ProgressEntry NID) (index : Nat) : ProgressEntry NID :=
  let e := { e with data := { e.data with searchingEnd := index } }
  if (e.data.allowLogReversion || allow) && decide (index < nextIndex e.progress) then
    let inflight :=
      match e.data.inflight with
      | .logsSince _ _ => .none
      | i => i
    { e with
      progress := none
      data := { e.data with allowLogReversion := false, inflight := inflight } }
  else e

omit [LinearOrder NID] in
theorem updateConflicting_none (allow : Bool) (e : ProgressEntry NID) (index : Nat) :
    e.updateConflicting allow index none =
      if e.data.searchingEnd ≤ index then e else lowerEnd allow e index := rfl

omit [LinearOrder NID] in
/-- A conflict of what is in flight: it is stale, or it ends what is in flight. -/
theorem updateConflicting_some (allow : Bool) (e : ProgressEntry NID) (index id : Nat) :
    e.updateConflicting allow index (some id) =
      if (e.data.inflight.conflict id).1 then
        updateConflicting allow { e with data := { e.data with inflight := .none } } index none
      else e := by
  obtain ⟨node, progress, ⟨stream, inflight, searchingEnd, reversion⟩⟩ := e
  cases inflight with
  | none => rfl
  | snapshot i => rfl
  | logs range i =>
    by_cases hid : i = id
    · simp only [updateConflicting, Inflight.conflict, if_pos hid]
      rfl
    · simp only [updateConflicting, Inflight.conflict, if_neg hid]
      rfl
  | logsSince prev i =>
    by_cases hid : i = id
    · simp only [updateConflicting, Inflight.conflict, if_pos hid]
      rfl
    · simp only [updateConflicting, Inflight.conflict, if_neg hid]
      rfl

theorem validate_lowerEnd_iff (hvalid : e.validate = true) (index : Nat) :
    (lowerEnd allow e index).validate = true ↔
      (∀ range, e.Sends range → nextIndex range.prev ≤ index) ∧
        ((e.data.allowLogReversion || allow) = true ∨ nextIndex e.progress ≤ index) := by
  obtain ⟨hend, hrange⟩ := (validate_iff e).1 hvalid
  rw [validate_iff]
  unfold lowerEnd
  dsimp only
  by_cases hreset : (e.data.allowLogReversion || allow) = true ∧ index < nextIndex e.progress
  · rw [if_pos (by simpa using hreset)]
    have hsame : ∀ range, (∃ id, (match e.data.inflight with
        | .logsSince _ _ => Inflight.none
        | i => i) = .logs range id) ↔ e.Sends range := by
      intro range
      unfold Sends
      cases e.data.inflight <;> simp
    constructor
    · intro h
      exact ⟨fun range hsends => (h.2 range ((hsame range).2 hsends)).2.2, Or.inl hreset.1⟩
    · intro h
      refine ⟨Nat.zero_le _, fun range hsends => ?_⟩
      have hsends := (hsame range).1 hsends
      exact ⟨(hrange range hsends).1, Option.none_le, h.1 range hsends⟩
  · rw [if_neg (by simpa using hreset)]
    constructor
    · intro h
      exact ⟨fun range hsends => (h.2 range hsends).2.2, Or.inr h.1⟩
    · intro h
      refine ⟨?_, fun range hsends => ?_⟩
      · show nextIndex e.progress ≤ index
        rcases h.2 with hallow | hle
        · exact not_lt.1 fun hlt => hreset ⟨hallow, hlt⟩
        · exact hle
      · obtain ⟨hle, hmatching, -⟩ := hrange range hsends
        exact ⟨hle, hmatching, h.1 range hsends⟩

theorem validate_conflict_iff (hvalid : e.validate = true) (index : Nat) :
    (e.updateConflicting allow index none).validate = true ↔ (index < e.data.searchingEnd →
      (∀ range, e.Sends range → nextIndex range.prev ≤ index) ∧
        ((e.data.allowLogReversion || allow) = true ∨ nextIndex e.progress ≤ index)) := by
  rw [updateConflicting_none]
  by_cases hend : e.data.searchingEnd ≤ index
  · rw [if_pos hend]
    exact ⟨fun _ h => absurd hend (not_le.2 h), fun _ => hvalid⟩
  · rw [if_neg hend, validate_lowerEnd_iff hvalid]
    exact ⟨fun h _ => h, fun h => h (not_le.1 hend)⟩

theorem validate_conflict_payload_iff (hvalid : e.validate = true) (index id : Nat) :
    (e.updateConflicting allow index (some id)).validate = true ↔
      ((e.data.inflight.conflict id).1 = true → index < e.data.searchingEnd →
        (e.data.allowLogReversion || allow) = true ∨ nextIndex e.progress ≤ index) := by
  rw [updateConflicting_some]
  by_cases happlied : (e.data.inflight.conflict id).1 = true
  · rw [if_pos happlied]
    obtain ⟨hend, -⟩ := (validate_iff e).1 hvalid
    have hidle : validate { e with data := { e.data with inflight := .none } } = true := by
      rw [validate_iff]
      refine ⟨hend, ?_⟩
      rintro range ⟨i, hsends⟩
      cases hsends
    rw [validate_conflict_iff hidle]
    constructor
    · exact fun h _ hlt => (h hlt).2
    · intro h hlt
      refine ⟨?_, h happlied hlt⟩
      rintro range ⟨i, hsends⟩
      cases hsends
  · rw [if_neg happlied]
    exact ⟨fun _ h => absurd h happlied, fun _ => hvalid⟩

/-- The step lemma. -/
theorem validate_step_iff (hvalid : e.validate = true) {op : EntryOp NID N} (hfits : e.Fits op) :
    (e.applyOp allow op).validate = true ↔ e.Keeps allow op := by
  cases op with
  | nextSend leader maxEntries =>
    obtain ⟨H, hlog, hmatching, hend⟩ := hfits
    exact ⟨fun _ => trivial, fun _ => validate_nextSend hlog hmatching hend hvalid maxEntries⟩
  | ack matching inflightId =>
    cases inflightId with
    | none => exact validate_ack_iff hvalid matching
    | some id => exact ⟨fun _ => trivial, fun _ => validate_ack_payload hvalid matching id⟩
  | conflict index inflightId =>
    cases inflightId with
    | none => exact validate_conflict_iff hvalid index
    | some id => exact validate_conflict_payload_iff hvalid index id

/-- In every run whose steps all keep to the condition, every entry that is reached is valid; and
    from each of them the next step leaves a valid entry exactly if it keeps to the condition. -/
theorem validate_of_ops (hvalid : e.validate = true) {ops : List (EntryOp NID N)}
    (hfits : AllSteps (applyOp allow) Fits e ops)
    (hkeeps : AllSteps (applyOp allow) (Keeps allow) e ops) :
    (runOps (applyOp allow) e ops).validate = true ∧
      ∀ op : EntryOp NID N, (runOps (applyOp allow) e ops).Fits op →
        (((runOps (applyOp allow) e ops).applyOp allow op).validate = true ↔
          (runOps (applyOp allow) e ops).Keeps allow op) := by
  have hlast : (runOps (applyOp allow) e ops).validate = true :=
    (hfits.and hkeeps).runOps hvalid fun e op hop hvalid =>
      (validate_step_iff hvalid hop.1).2 hop.2
  exact ⟨hlast, fun op hop => validate_step_iff hlast hop⟩

end Step

end ProgressEntry

namespace Probing

open ProgressEntry

/-- The leader with 17 log ids. -/
def leader : RaftState Nat Unit := node none (idsTo 17) none

theorem leader_log : LeaderLog (idsTo 17) leader :=
  ⟨by decide, ⟨rfl, InLogOpt.none⟩, InLogOpt.none, le_rfl⟩

/-- A probe behind index 7, its conflict, and a probe that sends all. -/
def probes : List (EntryOp Nat Unit) :=
  [.nextSend leader 100, .conflict 7 (some 1), .nextSend leader 100,
    .ack (some ⟨⟨2, none⟩, 16⟩) (some 1)]

theorem validate_of_ops_probes :
    (runOps (applyOp false) start probes).validate = true ∧
      (runOps (applyOp false) start probes).progress = some ⟨⟨2, none⟩, 16⟩ := by
  have hsend : ∀ e : ProgressEntry Nat, e.progress = none → e.data.searchingEnd ≤ 17 →
      e.Fits (.nextSend leader 100) := by
    intro e hprogress hend
    exact ⟨idsTo 17, leader_log, hprogress ▸ InLogOpt.none, hend⟩
  have hfits : AllSteps (applyOp false) Fits start probes :=
    ⟨hsend _ rfl (by decide), trivial, hsend _ rfl (by decide), trivial, trivial⟩
  have hkeeps : AllSteps (applyOp false) (Keeps false) start probes :=
    ⟨trivial, fun _ _ => Or.inr (by decide), trivial, trivial, trivial⟩
  exact ⟨(validate_of_ops (by decide) hfits hkeeps).1, rfl⟩

/-- A target that is known to have index 0. -/
def known : ProgressEntry Nat := ⟨1, some ⟨⟨2, none⟩, 0⟩, ⟨0, .none, 17, false⟩⟩

/-- With log reversion allowed: while the range behind index 8 is in flight, a heartbeat finds that
    the target has lost index 0. The search starts again and ends at index 0, and the range stays
    in flight. The other run: a late answer of a heartbeat raises the matching log id above the
    start of the range. -/
theorem heartbeat_conflict_invalid :
    (known.validate = true ∧ known.Fits (.nextSend leader 100) ∧
      (runOps (applyOp true) known
        [.nextSend leader 100, .conflict 0 none] : ProgressEntry Nat).validate = false) ∧
    (start.validate = true ∧ start.Fits (.nextSend leader 100) ∧
      (runOps (applyOp true) start
        [.nextSend leader 100, .ack (some ⟨⟨2, none⟩, 9⟩) none] : ProgressEntry Nat).validate =
        false) := by
  refine ⟨⟨by decide, ⟨idsTo 17, leader_log, by decide, by decide⟩, by decide⟩,
    ⟨by decide, ⟨idsTo 17, leader_log, by decide, by decide⟩, by decide⟩⟩

end Probing

end ZenohRaft
