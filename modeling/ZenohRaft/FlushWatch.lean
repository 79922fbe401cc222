/-
  The watch on which writes of log entries report that they are done: `IOFlushed` of
  `storage/callback.rs`.

  The log store may complete its writes in any order, from tasks of its own. Each callback
  updates the watch under its lock, so what happens to the watch is the list of the callbacks in
  the order of their updates. RaftCore reads the latest value only.

  * `Watched.after_completions`: where the IO ids can be compared with each other, the watch
    shows the greatest IO id completed so far, and from the first error on that error.

  The watch starts with an uncommitted vote of term 0 for the node itself. An IO id below it would
  leave no trace on the watch; `IOId.SubmittedBy` says why there is none.
-/
import ZenohRaft.Lib.WriteBehind
import ZenohRaft.State

namespace ZenohRaft

open Lib

variable {NID E : Type} [LinearOrder NID]

/-! ## Errors -/

/-- `ErrorSubject`, those of an IO id. -/
inductive ErrorSubject (NID : Type) where
  | vote
  | logs
  | log (logId : LogId NID)
  deriving DecidableEq

/-- `ErrorVerb`. -/
inductive ErrorVerb where
  | read
  | write
  | seek
  | delete
  deriving DecidableEq

/-- `StorageError`. -/
structure StorageError (NID E : Type) where
  subject : ErrorSubject NID
  verb : ErrorVerb
  source : E
  deriving DecidableEq

namespace IOId

/-- `IOId::subject`. -/
def subject : IOId NID → ErrorSubject NID
  | .vote _ => .vote
  | .log io =>
    match io.logId with
    | some logId => .log logId
    | none => .logs

/-- `IOId::verb`. -/
def verb (_ : IOId NID) : ErrorVerb := .write

/-- `a <= b`. -/
def le (mode : LeaderIdMode) (a b : IOId NID) : Bool :=
  match a.partialCmp mode b with
  | some .lt => true
  | some .eq => true
  | _ => false

theorem le_iff {mode : LeaderIdMode} {a b : IOId NID} :
    a.le mode b = true ↔ a = b ∨ a.partialCmp mode b = some .lt := by
  rw [← (strictCmp mode).eq_iff a b]
  unfold le
  cases a.partialCmp mode b with
  | none => simp
  | some o => cases o <;> simp

end IOId

/-! ## The callback -/

/-- The value of the watch. -/
abbrev Watched (NID E : Type) := Except (StorageError NID E) (IOId NID)

/-- `watch::Sender::send_if_modified`: the new value, and whether it was modified. -/
def sendIfModified {T : Type} (value : T) (modify : T → Option T) : T × Bool :=
  match modify value with
  | some value => (value, true)
  | none => (value, false)

/-- `IOFlushed`. -/
inductive IOFlushed (NID : Type) where
  | noop
  | signal
  | notify (ioId : IOId NID)

namespace IOFlushed

/-- `IOFlushed::make_storage_error`. -/
def makeStorageError (ioId : IOId NID) (e : E) : StorageError NID E := ⟨ioId.subject, ioId.verb, e⟩

/-- What a callback reports of the IO `ioId`. -/
def newValue (ioId : IOId NID) (result : Except E Unit) : Watched NID E :=
  match result with
  | .error e => .error (makeStorageError ioId e)
  | .ok _ => .ok ioId

/-- The update of the watch, `none` where the value stays. -/
def modify (mode : LeaderIdMode) (newValue current : Watched NID E) : Option (Watched NID E) :=
  match current with
  | .error _ => none
  | .ok currentIoId =>
    match newValue with
    | .ok newIoId => if newIoId.le mode currentIoId then none else some newValue
    | .error _ => some newValue

/-- `IOFlushed::io_completed`: the watch, and what is sent on the channel of a `signal`. -/
def ioCompleted (mode : LeaderIdMode) (callback : IOFlushed NID) (result : Except E Unit)
    (watched : Watched NID E) : Watched NID E × Option (Except E Unit) :=
  match callback with
  | .noop => (watched, none)
  | .signal => (watched, some result)
  | .notify ioId => ((sendIfModified watched (modify mode (newValue ioId result))).1, none)

end IOFlushed

/-! ## Completions -/

/-- The IO id that the watch of the node `id` starts with. -/
def dummyIoId (id : NID) : IOId NID := .vote ⟨0, id⟩

/-- The IO ids that the node `id` submits. Elections are of a term above 0; what is written under
    term 0 is the first entry of a cluster, which the node writes under its own leader id. -/
def IOId.SubmittedBy (id : NID) (io : IOId NID) : Prop :=
  0 < io.toVote.leaderId.term ∨ io.toVote.leaderId.nodeId = id

instance (id : NID) (io : IOId NID) : Decidable (io.SubmittedBy id) :=
  inferInstanceAs (Decidable (_ ∨ _))

theorem IOId.SubmittedBy.not_lt_dummy {id : NID} {io : IOId NID} (h : io.SubmittedBy id)
    (mode : LeaderIdMode) : io.partialCmp mode (dummyIoId id) ≠ some .lt := by
  intro hlt
  have hgt : (dummyIoId id).gt mode io = true := by
    unfold IOId.gt
    rw [((IOId.strictCmp mode).gt_iff _ _).2 hlt]
  rcases IOId.gt_iff.1 hgt with hrank | ⟨-, hlast⟩
  · -- no vote of a later term, or for the node itself, is of a lower rank
    have hcases := Vote.rank_lt_iff.1 hrank
    rw [CommittedLeaderId.lt_iff, LeaderId.toCommitted_term, LeaderId.toCommitted_term] at hcases
    have hzero : (dummyIoId id).toVote.leaderId.term = 0 := rfl
    have hcom : (dummyIoId id).toVote.committed = false := rfl
    rw [hzero, hcom] at hcases
    rcases hcases with (hterm | ⟨hterm, hnode⟩) | ⟨-, hcom⟩
    · omega
    · rcases h with hpos | hid
      · omega
      · have hsame : (io.toVote.leaderId.toCommitted mode).nodeId =
            ((dummyIoId id).toVote.leaderId.toCommitted mode).nodeId := by
          cases mode with
          | std => rfl
          | adv => exact congrArg some hid
        rw [hsame] at hnode
        exact lt_irrefl _ hnode
    · exact absurd hcom (not_lt.2 (Bool.false_le _))
  · exact absurd hlast (not_lt.2 Option.none_le)

namespace Watched

/-- The callback of the IO `done.1` runs with the result `done.2`. -/
def complete (mode : LeaderIdMode) (watched : Watched NID E) (done : IOId NID × Except E Unit) :
    Watched NID E :=
  ((IOFlushed.notify done.1).ioCompleted mode done.2 watched).1

theorem complete_failed (mode : LeaderIdMode) (current io : IOId NID) (e : E) :
    complete mode (.ok current) (io, .error e) = .error (IOFlushed.makeStorageError io e) := rfl

theorem complete_ok (mode : LeaderIdMode) (current io : IOId NID) :
    complete mode (.ok current : Watched NID E) (io, .ok ()) =
      .ok (if io.le mode current then current else io) := by
  unfold complete IOFlushed.ioCompleted sendIfModified IOFlushed.modify
  dsimp only [IOFlushed.newValue]
  cases io.le mode current <;> rfl

/-- What the watch shows once the callbacks `done` have run, in this order. -/
structure Shows (mode : LeaderIdMode) (done : List (IOId NID × Except E Unit))
    (watched : Watched NID E) : Prop where
  greatest : done ≠ [] → (∀ d ∈ done, d.2 = .ok ()) →
    ∃ g, watched = .ok g ∧ GreatestOf (IOId.partialCmp mode) g (done.map Prod.fst)
  firstError : ∀ before io e after, done = before ++ (io, .error e) :: after →
    (∀ d ∈ before, d.2 = .ok ()) → watched = .error (IOFlushed.makeStorageError io e)

/-- Completions without an error leave an IO id: the first one, or the greatest of them. -/
theorem run_ok {mode : LeaderIdMode} {start : IOId NID} {done : List (IOId NID × Except E Unit)}
    (hcomp : ∀ a ∈ done, ∀ b ∈ done, a.1.partialCmp mode b.1 ≠ none)
    (hstart : ∀ a ∈ done, a.1.partialCmp mode start ≠ some .lt)
    (hok : ∀ d ∈ done, d.2 = .ok ()) :
    ∃ g, runOps (complete mode) (.ok start) done = .ok g ∧
      (done = [] ∧ g = start ∨ GreatestOf (IOId.partialCmp mode) g (done.map Prod.fst)) := by
  induction done using List.reverseRecOn with
  | nil => exact ⟨start, rfl, Or.inl ⟨rfl, rfl⟩⟩
  | append_singleton done d ih =>
    have hin : ∀ a ∈ done, a ∈ done ++ [d] := fun a ha => List.mem_append_left _ ha
    have hlast : d ∈ done ++ [d] := by simp
    obtain ⟨io, result⟩ := d
    obtain rfl : result = .ok () := hok _ hlast
    obtain ⟨g, hrun, hg⟩ := ih (fun a ha b hb => hcomp a (hin a ha) b (hin b hb))
      (fun a ha => hstart a (hin a ha)) fun a ha => hok a (hin a ha)
    refine ⟨if io.le mode g then g else io, ?_, Or.inr ?_⟩
    · rw [runOps_append, hrun]
      exact complete_ok mode g io
    · rw [List.map_append]
      rcases hg with ⟨rfl, rfl⟩ | hg
      · -- the first completion replaces what the watch started with
        have hone : (if io.le mode g then g else io) = io := by
          split
          · rename_i hle
            exact ((IOId.le_iff.1 hle).resolve_right (hstart _ hlast)).symm
          · rfl
        rw [hone]
        exact ⟨by simp, fun x hx => Or.inl (by simpa using hx)⟩
      · split
        · rename_i hle
          exact hg.keep (IOId.le_iff.1 hle)
        · rename_i hle
          obtain ⟨y, hy, hyg⟩ := List.mem_map.1 hg.mem
          refine (IOId.strictCmp mode).greatestOf_replace hg (fun h => hle (IOId.le_iff.2 h)) ?_
          rw [← hyg]
          exact hcomp _ hlast y (hin y hy)

theorem run_error (mode : LeaderIdMode) (err : StorageError NID E)
    (done : List (IOId NID × Except E Unit)) :
    runOps (complete mode) (.error err) done = .error err := by
  induction done with
  | nil => rfl
  | cons d done ih => exact ih

/-- Whatever the order in which the callbacks run, the watch shows the greatest IO id completed
    so far while all results are good, and the first error from then on. -/
theorem after_completions (mode : LeaderIdMode) (id : NID)
    (done : List (IOId NID × Except E Unit)) (hid : ∀ d ∈ done, d.1.SubmittedBy id)
    (hcomp : ∀ a ∈ done, ∀ b ∈ done, a.1.partialCmp mode b.1 ≠ none) :
    Shows mode done (runOps (complete mode) (.ok (dummyIoId id)) done) := by
  refine ⟨fun hne hok => ?_, ?_⟩
  · obtain ⟨g, hrun, hg⟩ := run_ok hcomp (fun a ha => (hid a ha).not_lt_dummy mode) hok
    exact ⟨g, hrun, hg.resolve_left fun h => hne h.1⟩
  · rintro before io e after rfl hok
    have hin : ∀ a ∈ before, a ∈ before ++ (io, .error e) :: after := fun a ha =>
      List.mem_append_left _ ha
    obtain ⟨g, hrun, -⟩ := run_ok (fun a ha b hb => hcomp a (hin a ha) b (hin b hb))
      (fun a ha => (hid a (hin a ha)).not_lt_dummy mode) hok
    rw [runOps_append, hrun, runOps_cons, complete_failed, run_error]

/-- The write of entry `i` by the leader of term 1. -/
def write (i : Nat) : IOId Nat := .newLogIo ⟨1, 0⟩ (some ⟨⟨1, none⟩, i⟩)

/-- The later write completes first; the third one fails. -/
theorem after_completions_reversed :
    (∃ g, runOps (complete .std) (.ok (dummyIoId 0)) [(write 2, .ok ()), (write 1, .ok ())] =
        (.ok g : Watched Nat Nat) ∧
      GreatestOf (IOId.partialCmp .std) g [write 2, write 1]) ∧
    runOps (complete .std) (.ok (dummyIoId 0))
        [(write 2, .ok ()), (write 1, .ok ()), (write 3, .error 28), (write 4, .ok ())] =
      .error ⟨.log ⟨⟨1, none⟩, 3⟩, .write, 28⟩ :=
  ⟨(after_completions .std 0 [(write 2, .ok ()), (write 1, .ok ())] (by decide)
      (by decide)).greatest (by simp) (by simp),
    (after_completions .std 0
      [(write 2, .ok ()), (write 1, .ok ()), (write 3, .error 28), (write 4, .ok ())] (by decide)
      (by decide)).firstError [(write 2, .ok ()), (write 1, .ok ())] (write 3) 28
      [(write 4, .ok ())] rfl (by simp)⟩

end Watched

end ZenohRaft
