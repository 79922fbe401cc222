/-
  Replication progress of one target: `progress/entry/*` and `progress/inflight/*`.

  An entry of the leader's `VecProgress` is a target: its progress is the matching log id, and
  the data that goes along is what is in flight to it and how far the search for the matching
  log id has come.
-/
import ZenohRaft.State
import ZenohRaft.VecProgress

namespace ZenohRaft

open Lib

variable {NID N : Type} [LinearOrder NID]

/-! ## Replication progress of one target -/

/-- `LogIdRange`: left open, right closed. -/
structure LogIdRange (NID : Type) where
  prev : Option (LogId NID)
  last : Option (LogId NID)
  deriving DecidableEq

/-- `Inflight`. -/
inductive Inflight (NID : Type) where
  | none
  | logs (range : LogIdRange NID) (inflightId : Nat)
  | logsSince (prev : Option (LogId NID)) (inflightId : Nat)
  | snapshot (inflightId : Nat)
  deriving DecidableEq

namespace Inflight

/-- `Inflight::logs`. -/
def newLogs (prev last : Option (LogId NID)) (inflightId : Nat) : Inflight NID :=
  if last ≤ prev then .none else .logs ⟨prev, last⟩ inflightId

/-- The id of what is in flight. -/
def id : Inflight NID → Option Nat
  | .logs _ id | .logsSince _ id | .snapshot id => some id
  | .none => Option.none

/-- `Inflight::ack`. The flag says whether the acknowledgement is for this inflight id. -/
def ack (i : Inflight NID) (upto : Option (LogId NID)) (fromId : Nat) : Bool × Inflight NID :=
  match i with
  | .none => (false, .none)
  | .logs range id => if id = fromId then (true, newLogs upto range.last id) else (false, i)
  | .snapshot id => if id = fromId then (true, .none) else (false, i)
  | .logsSince _ id => if id = fromId then (true, .logsSince upto id) else (false, i)

/-- `Inflight::conflict`. A conflict on a snapshot is `unreachable!` in the source. -/
def conflict (i : Inflight NID) (fromId : Nat) : Bool × Inflight NID :=
  match i with
  | .none => (false, .none)
  | .logs _ id => if id = fromId then (true, .none) else (false, i)
  | .snapshot _ => (false, i)
  | .logsSince _ id => if id = fromId then (true, .none) else (false, i)

end Inflight

/-- `ProgressData`. -/
structure ProgressData (NID : Type) where
  streamId : Nat
  inflight : Inflight NID
  searchingEnd : Nat
  allowLogReversion : Bool

/-- `ProgressEntry`; its progress is the matching log id. -/
abbrev ProgressEntry (NID : Type) := ProgressItem NID (Option (LogId NID)) (ProgressData NID)

namespace ProgressEntry

/-- `ProgressEntry::empty`. -/
def empty (id : NID) (streamId searchingEnd : Nat) : ProgressEntry NID :=
  ⟨id, none, ⟨streamId, .none, searchingEnd, false⟩⟩

/-- `Updater::update_conflicting`. -/
def updateConflicting (allowLogReversion : Bool) (e : ProgressEntry NID) (conflict : Nat)
    (inflightId : Option Nat) : ProgressEntry NID :=
  let (applied, inflight) :=
    match inflightId with
    | none => (true, e.data.inflight)
    | some id => e.data.inflight.conflict id
  let e := { e with data := { e.data with inflight := inflight } }
  if !applied then e
  else if e.data.searchingEnd ≤ conflict then e
  else
    let e := { e with data := { e.data with searchingEnd := conflict } }
    if (e.data.allowLogReversion || allowLogReversion) && decide (conflict < nextIndex e.progress)
    then
      let inflight :=
        match e.data.inflight with
        | .logsSince _ _ => .none
        | i => i
      { e with
        progress := none
        data := { e.data with allowLogReversion := false, inflight := inflight } }
    else e

/-- `Updater::update_matching`. -/
def updateMatching (e : ProgressEntry NID) (matching : Option (LogId NID))
    (inflightId : Option Nat) : ProgressEntry NID :=
  let (applied, inflight) :=
    match inflightId with
    | none => (decide (e.progress < matching), e.data.inflight)
    | some id => e.data.inflight.ack matching id
  let e := { e with data := { e.data with inflight := inflight } }
  if applied then
    { e with
      progress := matching
      data := { e.data with searchingEnd := max e.data.searchingEnd (nextIndex matching) } }
  else e

omit [LinearOrder NID] in
theorem updateConflicting_spec (allow : Bool) (e : ProgressEntry NID) (conflict : Nat)
    (inflightId : Option Nat) : (updateConflicting allow e conflict inflightId).id = e.id ∧
      ((updateConflicting allow e conflict inflightId).progress = none ∨
        (updateConflicting allow e conflict inflightId).progress = e.progress) := by
  simp only [updateConflicting]
  repeat' split
  all_goals first | exact ⟨rfl, Or.inr rfl⟩ | exact ⟨rfl, Or.inl rfl⟩

theorem updateMatching_spec (e : ProgressEntry NID) (matching : Option (LogId NID))
    (inflightId : Option Nat) : (updateMatching e matching inflightId).id = e.id ∧
      ((updateMatching e matching inflightId).progress = matching ∨
        (updateMatching e matching inflightId).progress = e.progress) := by
  simp only [updateMatching]
  repeat' split
  all_goals first | exact ⟨rfl, Or.inl rfl⟩ | exact ⟨rfl, Or.inr rfl⟩

/-- `ProgressEntry::is_log_range_inflight`. -/
def isLogRangeInflight (e : ProgressEntry NID) (upto : LogId NID) : Bool :=
  match e.data.inflight with
  | .none => false
  | .logs range _ => decide (range.prev < some upto)
  | .snapshot _ => false
  | .logsSince prev _ => decide (prev < some upto)

/-- `ProgressEntry::calc_mid`. -/
def calcMid (matchingNext searchingEnd : Nat) : Nat :=
  matchingNext + (searchingEnd - matchingNext) / 16 * 8

/-- `ProgressEntry::next_send`, on the entry and the state that numbers inflight data. The
    last component is what is to be sent, `none` if something is in flight already. The sum with
    `max_entries`, which may be any `u64`, is one of `u64`: a release build wraps it. -/
def nextSend (e : ProgressEntry NID) (st : RaftState NID N) (maxEntries : Nat) :
    ProgressEntry NID × RaftState NID N × Option (Inflight NID) :=
  if e.data.inflight ≠ .none then (e, st, none)
  else
    let lastNext := nextIndex st.lastLogId
    let purgeUptoNext := nextIndex st.purgeUpto
    let inflightId := st.lastInflightId + 1
    let st' := { st with lastInflightId := inflightId }
    let inflight : Inflight NID :=
      if e.data.searchingEnd < purgeUptoNext then .snapshot inflightId
      else
        let matchingNext := nextIndex e.progress
        if matchingNext < e.data.searchingEnd then
          let start := max (calcMid matchingNext e.data.searchingEnd) purgeUptoNext
          let stop := min ((start + maxEntries) % 2 ^ 64) lastNext
          if start = stop then .snapshot inflightId
          else .newLogs (st.prevLogId start) (st.prevLogId stop) inflightId
        else .logsSince e.progress inflightId
    ({ e with data := { e.data with inflight := inflight } }, st', some inflight)

end ProgressEntry

end ZenohRaft
