/-
  Late answers of a follower whose log was reverted.

  With log reversion allowed, a conflict at or below the matching log id of a follower resets the
  matching log id to none: the follower has lost entries that it acknowledged. A `Tracking` is a
  leader together with the requests to one follower that are still to be answered, in any order.
  Each request remembers how many resets there were when it was sent, so that a request is stale
  once a later reset has happened.

  An answer with an in-flight id is dropped when the id is not the one in flight
  (`updateMatching_stale`). Two kinds of answers get past that check:

  * a commit-only request has no in-flight id, so its answer raises whatever is lower;
  * a heartbeat conflict has no in-flight id either. It resets the matching log id and leaves a
    range of logs or a snapshot in flight, whose answer is then still the awaited one.

  `Tracking.stale_answer_raises_nothing` is the statement for runs in which no reset happens in
  one of these two situations. The requests are those of one replication stream: a change of
  membership that replaces the stream is not a step here.
-/
import ZenohRaft.Cluster
import ZenohRaft.Frame

namespace ZenohRaft

open Lib

variable {NID N D : Type} [LinearOrder NID]

/-! ## In-flight ids -/

/-- Whether a reset without in-flight id leaves this in flight. -/
def Inflight.survivesReset : Inflight NID → Bool
  | .logs _ _ => true
  | .snapshot _ => true
  | _ => false

theorem Inflight.ack_of_ne {i : Inflight NID} {id : Nat} (h : i.id ≠ some id)
    (upto : Option (LogId NID)) : i.ack upto id = (false, i) := by
  cases i with
  | none => rfl
  | logs range j => exact if_neg fun hj => h (congrArg some hj)
  | logsSince prev j => exact if_neg fun hj => h (congrArg some hj)
  | snapshot j => exact if_neg fun hj => h (congrArg some hj)

theorem Inflight.ack_id {i : Inflight NID} {upto : Option (LogId NID)} {id j : Nat}
    (h : (i.ack upto id).2.id = some j) : i.id = some j := by
  unfold Inflight.ack at h
  split at h
  · exact h
  · split at h
    · unfold Inflight.newLogs at h
      split at h
      · cases h
      · exact h
    · exact h
  · split at h
    · cases h
    · exact h
  · split at h
    · exact h
    · exact h

omit [LinearOrder NID] in
theorem Inflight.conflict_id {i : Inflight NID} {id j : Nat}
    (h : (i.conflict id).2.id = some j) : i.id = some j := by
  unfold Inflight.conflict at h
  repeat' split at h
  all_goals first
    | exact h
    | cases h

omit [LinearOrder NID] in
theorem Inflight.conflict_applied {i : Inflight NID} {id : Nat} (h : (i.conflict id).1 = true) :
    (i.conflict id).2 = .none := by
  cases i with
  | none => cases h
  | snapshot j => cases h
  | logs range j =>
    by_cases hj : j = id
    · simp [Inflight.conflict, hj]
    · simp [Inflight.conflict, hj] at h
  | logsSince prev j =>
    by_cases hj : j = id
    · simp [Inflight.conflict, hj]
    · simp [Inflight.conflict, hj] at h

namespace ProgressEntry

/-- What the answer of a request does to the entry of its target. -/
def applyResult (allowLogReversion : Bool) (x : ProgressEntry NID)
    (result : Engine.ReplicationResult NID) (inflightId : Option Nat) : ProgressEntry NID :=
  match result with
  | .matching logId => updateMatching x logId inflightId
  | .conflict logId => updateConflicting allowLogReversion x logId.index inflightId
  | .error => { x with data := { x.data with inflight := .none } }

theorem updateMatching_stale {x : ProgressEntry NID} {id : Nat}
    (h : x.data.inflight.id ≠ some id) (m : Option (LogId NID)) :
    updateMatching x m (some id) = x := by
  unfold updateMatching
  simp only [Inflight.ack_of_ne h]
  rfl

theorem updateMatching_inflight {x : ProgressEntry NID} {m : Option (LogId NID)}
    {inflightId : Option Nat} {j : Nat}
    (h : (updateMatching x m inflightId).data.inflight.id = some j) :
    x.data.inflight.id = some j := by
  unfold updateMatching at h
  cases inflightId with
  | none =>
    dsimp only at h
    split at h
    · exact h
    · exact h
  | some id =>
    dsimp only at h
    split at h
    · exact Inflight.ack_id h
    · exact Inflight.ack_id h

omit [LinearOrder NID] in
/-- A conflict keeps what is in flight or drops it. -/
theorem updateConflicting_inflight {allow : Bool} {x : ProgressEntry NID} {c : Nat}
    {inflightId : Option Nat} {j : Nat}
    (h : (updateConflicting allow x c inflightId).data.inflight.id = some j) :
    x.data.inflight.id = some j := by
  unfold updateConflicting at h
  cases inflightId with
  | none =>
    dsimp only at h
    repeat' split at h
    all_goals first
      | exact h
      | cases h
  | some id =>
    have hkeep : (x.data.inflight.conflict id).2.id = some j →
        x.data.inflight.id = some j := Inflight.conflict_id
    apply hkeep
    dsimp only at h
    repeat' split at h
    all_goals first
      | exact h
      | cases h

omit [LinearOrder NID] in
/-- A conflict that changes the matching log id resets it. It is below the matching log id, and
    nothing that can still be answered is left in flight, except by a conflict without
    in-flight id. -/
theorem updateConflicting_reset {allow : Bool} {x : ProgressEntry NID} {c : Nat}
    {inflightId : Option Nat}
    (h : (updateConflicting allow x c inflightId).progress ≠ x.progress) :
    c < nextIndex x.progress ∧
      ((inflightId = none → x.data.inflight.survivesReset = false) →
        (updateConflicting allow x c inflightId).data.inflight = .none) := by
  unfold updateConflicting at h ⊢
  cases inflightId with
  | none =>
    dsimp only at h ⊢
    rw [if_neg (by simp)] at h ⊢
    split at h
    · exact absurd rfl h
    split at h
    · rename_i hend hrev
      rw [if_neg hend, if_pos hrev]
      refine ⟨of_decide_eq_true (Bool.and_eq_true_iff.1 hrev).2, fun hs => ?_⟩
      have hsurv := hs rfl
      generalize x.data.inflight = i at hsurv ⊢
      cases i with
      | none => rfl
      | logs _ _ => cases hsurv
      | logsSince _ _ => rfl
      | snapshot _ => cases hsurv
    · exact absurd rfl h
  | some id =>
    dsimp only at h ⊢
    split at h
    · exact absurd rfl h
    split at h
    · exact absurd rfl h
    split at h
    · rename_i happ hend hrev
      rw [if_neg happ, if_neg hend, if_pos hrev]
      refine ⟨of_decide_eq_true (Bool.and_eq_true_iff.1 hrev).2, fun _ => ?_⟩
      dsimp only
      rw [Inflight.conflict_applied (by simpa using happ)]
    · exact absurd rfl h

@[simp] theorem applyResult_id (allow : Bool) (x : ProgressEntry NID)
    (result : Engine.ReplicationResult NID) (inflightId : Option Nat) :
    (applyResult allow x result inflightId).id = x.id := by
  cases result with
  | matching logId => exact (updateMatching_spec x logId inflightId).1
  | conflict logId => exact (updateConflicting_spec allow x logId.index inflightId).1
  | error => rfl

@[simp] theorem applyResult_streamId (allow : Bool) (x : ProgressEntry NID)
    (result : Engine.ReplicationResult NID) (inflightId : Option Nat) :
    (applyResult allow x result inflightId).data.streamId = x.data.streamId := by
  cases result with
  | matching logId =>
    simp only [applyResult, updateMatching]
    repeat' split
    all_goals rfl
  | conflict logId =>
    simp only [applyResult, updateConflicting]
    repeat' split
    all_goals rfl
  | error => rfl

theorem applyResult_inflight {allow : Bool} {x : ProgressEntry NID}
    {result : Engine.ReplicationResult NID} {inflightId : Option Nat} {j : Nat}
    (h : (applyResult allow x result inflightId).data.inflight.id = some j) :
    x.data.inflight.id = some j := by
  cases result with
  | matching logId => exact updateMatching_inflight h
  | conflict logId => exact updateConflicting_inflight h
  | error => cases h

/-- `next_send` keeps the matching log id and numbers what it sends with a fresh id. -/
theorem nextSend_spec (x : ProgressEntry NID) (st : RaftState NID N) (maxEntries : Nat) :
    let r := nextSend x st maxEntries
    r.1.id = x.id ∧ r.1.progress = x.progress ∧ r.1.data.streamId = x.data.streamId ∧
      st.lastInflightId ≤ r.2.1.lastInflightId ∧
      ∀ j, r.1.data.inflight.id = some j → x.data.inflight.id = some j ∨
        st.lastInflightId < j ∧ j ≤ r.2.1.lastInflightId := by
  unfold nextSend
  split
  · exact ⟨rfl, rfl, rfl, le_rfl, fun j hj => Or.inl hj⟩
  · refine ⟨rfl, rfl, rfl, Nat.le_succ _, ?_⟩
    intro j hj
    have hid : j = st.lastInflightId + 1 := by
      dsimp only at hj
      repeat' split at hj
      all_goals first
        | exact (Option.some.inj hj).symm
        | skip
      unfold Inflight.newLogs at hj
      split at hj
      · cases hj
      · exact (Option.some.inj hj).symm
    right
    dsimp only
    omega

end ProgressEntry

/-! ## What the engine does to the entry of one target -/

namespace Engine

variable {e e' : Engine NID N D} {l : Leader NID N}

/-- The entry of `t` is `x`, and the ids of the entries are distinct. -/
structure Tracks (e : Engine NID N D) (t : NID) (x : ProgressEntry NID) : Prop where
  exists_leader : ∃ l, e.leader = some l ∧ (l.progress.entries.map (·.id)).Nodup ∧
    l.progress.tryGet t = some x

/-- The progress is replaced by one in which the entry of `target` is changed by `f`. -/
theorem Tracks.of_perm {t target : NID} {x : ProgressEntry NID} (h : e.Tracks t x)
    (hl : e.leader = some l)
    {progress : VecProgress NID (Membership NID N) (Option (LogId NID)) (ProgressData NID)}
    (f : ProgressEntry NID → ProgressEntry NID) (hf : ∀ x, (f x).id = x.id)
    (hperm : progress.entries.Perm (VecProgress.mapEntry l.progress.entries target f))
    (he' : e'.leader = some { l with progress := progress }) :
    e'.Tracks t (if t = target then f x else x) := by
  obtain ⟨l0, hl0, hnd, hget⟩ := h.exists_leader
  obtain rfl : l0 = l := Option.some.inj (hl0.symm.trans hl)
  obtain ⟨hnd', hget'⟩ := VecProgress.tryGet_of_perm hnd hf hperm
  exact ⟨_, he', hnd', hget' t x hget⟩

theorem Tracks.updateMatching {t target : NID} {x : ProgressEntry NID} (h : e.Tracks t x)
    (hl : e.leader = some l) {logId : Option (LogId NID)} {inflightId : Option Nat}
    (hu : e.updateMatching l target logId inflightId = some e') :
    e'.Tracks t (if t = target then ProgressEntry.updateMatching x logId inflightId else x) ∧
      e'.state.lastInflightId = e.state.lastInflightId := by
  have hid : ∀ x : ProgressEntry NID,
      (ProgressEntry.updateMatching x logId inflightId).id = x.id :=
    fun x => (ProgressEntry.updateMatching_spec x logId inflightId).1
  have hnd : (l.progress.entries.map (·.id)).Nodup := by
    obtain ⟨l0, hl0, hnd, -⟩ := h.exists_leader
    obtain rfl : l0 = l := Option.some.inj (hl0.symm.trans hl)
    exact hnd
  unfold Engine.updateMatching at hu
  split at hu
  · cases hu
  · rename_i p' hp'
    obtain rfl := Option.some.inj hu
    have hperm := VecProgress.updateEntryWith_perm hnd hp'
    rw [VecProgress.updateEntryWith_not_found hp'] at hperm
    exact ⟨h.of_perm hl _ hid hperm hl, rfl⟩
  · rename_i progress hp'
    obtain rfl := Option.some.inj hu
    obtain ⟨hlead, hlast⟩ := tryCommitQuorumAccepted_leader
      ({ e with leader := some { l with progress := progress } } : Engine NID N D)
      progress.quorumAccepted
    exact ⟨h.of_perm hl _ hid (VecProgress.updateEntryWith_perm hnd hp') hlead, hlast⟩

/-- `update_progress` changes the entry of its target only, and only for an answer of the current
    stream. -/
theorem Tracks.updateProgress {t target : NID} {x : ProgressEntry NID} (h : e.Tracks t x)
    (hl : e.leader = some l) {streamId : Nat} {result : ReplicationResult NID}
    {inflightId : Option Nat}
    (hu : e.updateProgress l target streamId result inflightId = some e') :
    e'.Tracks t (if t = target ∧ x.data.streamId = streamId then
        ProgressEntry.applyResult e.config.allowLogReversion x result inflightId else x) ∧
      e'.state.lastInflightId = e.state.lastInflightId := by
  obtain ⟨l0, hl0, hnd, hget⟩ := h.exists_leader
  obtain rfl : l0 = l := Option.some.inj (hl0.symm.trans hl)
  have hvalid : t = target →
      (l0.isReplicationStreamValid target streamId = true ↔ x.data.streamId = streamId) := by
    intro ht
    subst ht
    simp [Leader.isReplicationStreamValid, hget]
  unfold Engine.updateProgress at hu
  split at hu
  · rename_i hs
    have hif : (if t = target ∧ x.data.streamId = streamId then
        ProgressEntry.applyResult e.config.allowLogReversion x result inflightId else x) =
        if t = target then
          ProgressEntry.applyResult e.config.allowLogReversion x result inflightId else x := by
      by_cases ht : t = target
      · rw [if_pos ⟨ht, (hvalid ht).1 hs⟩, if_pos ht]
      · rw [if_neg fun hc => ht hc.1, if_neg ht]
    rw [hif]
    obtain ⟨e1, hupd, rfl⟩ := Option.map_eq_some_iff.1 hu
    obtain ⟨hlead, hlast⟩ := tryPurgeLog_leader e1
    have h1 : e1.Tracks t (if t = target then
          ProgressEntry.applyResult e.config.allowLogReversion x result inflightId else x) ∧
        e1.state.lastInflightId = e.state.lastInflightId := by
      cases result with
      | matching logId => exact h.updateMatching hl hupd
      | conflict logId =>
        obtain rfl := Option.some.inj hupd
        refine ⟨h.of_perm hl (fun x => ProgressEntry.applyResult e.config.allowLogReversion x
          (.conflict logId) inflightId) (fun x => ?_) ?_ rfl, rfl⟩
        · exact ProgressEntry.applyResult_id _ x _ _
        · exact VecProgress.resetEntryWith_perm hnd _ _
      | error =>
        obtain rfl := Option.some.inj hupd
        refine ⟨h.of_perm hl (fun x => { x with data := { x.data with inflight := .none } })
          (fun x => rfl) ?_ rfl, rfl⟩
        exact VecProgress.updateDataWith_perm hnd target _
    obtain ⟨⟨l1, hl1, hrest⟩, hlast1⟩ := h1
    exact ⟨⟨l1, hlead.trans hl1, hrest⟩, hlast.trans hlast1⟩
  · rename_i hs
    obtain rfl := Option.some.inj hu
    rw [if_neg fun hc => hs ((hvalid hc.1).2 hc.2)]
    exact ⟨h, rfl⟩

theorem Tracks.allowNextRevert {t target : NID} {x : ProgressEntry NID} (h : e.Tracks t x)
    (hl : e.leader = some l) {allow : Bool} (hu : e.allowNextRevert l target allow = some e') :
    ∃ x', e'.Tracks t x' ∧ x'.progress = x.progress ∧ x'.data.streamId = x.data.streamId ∧
      x'.data.inflight = x.data.inflight ∧
      e'.state.lastInflightId = e.state.lastInflightId := by
  obtain ⟨l0, hl0, hnd, hget⟩ := h.exists_leader
  obtain rfl : l0 = l := Option.some.inj (hl0.symm.trans hl)
  obtain ⟨-, -, rfl⟩ := Option.map_eq_some_iff.1 hu
  have hperm := VecProgress.updateDataWith_perm hnd target
    fun d : ProgressData NID => { d with allowLogReversion := allow }
  refine ⟨_, h.of_perm hl _ (fun x => by rfl) hperm rfl, ?_⟩
  split
  · exact ⟨rfl, rfl, rfl, rfl⟩
  · exact ⟨rfl, rfl, rfl, rfl⟩

/-- The loop of `initiate_replication` keeps ids and matching log ids, and gives fresh in-flight
    ids. -/
theorem initiateReplicationLoop_entries (config : EngineConfig NID) (V : LeaderId NID)
    (items : List (ProgressEntry NID)) (st : RaftState NID N) :
    let r := initiateReplicationLoop (D := D) config V items st
    r.1.map (·.id) = items.map (·.id) ∧ st.lastInflightId ≤ r.2.1.lastInflightId ∧
      ∀ x ∈ items, ∃ y ∈ r.1, y.id = x.id ∧ y.progress = x.progress ∧
        y.data.streamId = x.data.streamId ∧
        ∀ j, y.data.inflight.id = some j → x.data.inflight.id = some j ∨
          st.lastInflightId < j ∧ j ≤ r.2.1.lastInflightId := by
  induction items generalizing st with
  | nil => exact ⟨rfl, le_rfl, by simp⟩
  | cons item items ih =>
    unfold initiateReplicationLoop
    split
    · obtain ⟨hids, hlast, hitems⟩ := ih st
      refine ⟨by simp [hids], hlast, ?_⟩
      intro x hx
      rcases List.mem_cons.1 hx with rfl | hx
      · exact ⟨x, List.mem_cons_self, rfl, rfl, rfl, fun j hj => Or.inl hj⟩
      · obtain ⟨y, hy, hrest⟩ := hitems x hx
        exact ⟨y, List.mem_cons_of_mem _ hy, hrest⟩
    · obtain ⟨hid, hprog, hstream, hle, hfresh⟩ :=
        ProgressEntry.nextSend_spec item st config.maxPayloadEntries
      obtain ⟨hids, hlast, hitems⟩ :=
        ih (ProgressEntry.nextSend item st config.maxPayloadEntries).2.1
      refine ⟨by simp [hids, hid], hle.trans hlast, ?_⟩
      intro x hx
      rcases List.mem_cons.1 hx with rfl | hx
      · refine ⟨_, List.mem_cons_self, hid, hprog, hstream, ?_⟩
        intro j hj
        rcases hfresh j hj with h | ⟨h1, h2⟩
        · exact Or.inl h
        · exact Or.inr ⟨h1, h2.trans hlast⟩
      · obtain ⟨y, hy, hyid, hyp, hys, hyf⟩ := hitems x hx
        refine ⟨y, List.mem_cons_of_mem _ hy, hyid, hyp, hys, ?_⟩
        intro j hj
        rcases hyf j hj with h | ⟨h1, h2⟩
        · exact Or.inl h
        · exact Or.inr ⟨hle.trans_lt h1, h2⟩

theorem Tracks.initiateReplication {t : NID} {x : ProgressEntry NID} (h : e.Tracks t x)
    (hl : e.leader = some l) : ∃ y, (e.initiateReplication l).Tracks t y ∧
      y.progress = x.progress ∧ y.data.streamId = x.data.streamId ∧
      e.state.lastInflightId ≤ (e.initiateReplication l).state.lastInflightId ∧
      ∀ j, y.data.inflight.id = some j → x.data.inflight.id = some j ∨
        e.state.lastInflightId < j ∧ j ≤ (e.initiateReplication l).state.lastInflightId := by
  obtain ⟨l0, hl0, hnd, hget⟩ := h.exists_leader
  obtain rfl : l0 = l := Option.some.inj (hl0.symm.trans hl)
  obtain ⟨hids, hlast, hitems⟩ := initiateReplicationLoop_entries (D := D) e.config
    l0.committedVote l0.progress.entries e.state
  obtain ⟨hmem, hxid⟩ := (VecProgress.tryGet_eq_some hnd).1 hget
  obtain ⟨y, hy, hyid, hyp, hys, hyf⟩ := hitems x hmem
  have hnd' : ((initiateReplicationLoop (D := D) e.config l0.committedVote l0.progress.entries
      e.state).1.map (·.id)).Nodup := by
    rw [hids]
    exact hnd
  exact ⟨y, ⟨_, rfl, hnd', (VecProgress.tryGet_eq_some hnd').2 ⟨hy, hyid.trans hxid⟩⟩, hyp, hys,
    hlast, hyf⟩

end Engine

/-! ## One target and the requests that are still to be answered -/

/-- A request to the target that has not been answered. A heartbeat has no in-flight id, and
    neither has a request that only carries the committed log id. -/
structure Request where
  heartbeat : Bool
  inflightId : Option Nat
  -- the number of resets when the request was sent
  resets : Nat

/-- A leader, the requests to the target of one replication stream, and the number of times that
    a conflict has lowered the matching log id of the target. -/
structure Tracking (NID N D : Type) where
  engine : Engine NID N D
  requests : List Request
  resets : Nat

/-- What can happen. Requests are answered in any order and an answer may be lost or come as an
    error; the rest of the engine may change the state of the node and hear from other targets. -/
inductive Tracking.Event (NID N : Type) where
  | initiateReplication
  | allowNextRevert (target : NID) (allow : Bool)
  | request (heartbeat : Bool) (inflightId : Option Nat)
  | answer (k : Nat) (result : Engine.ReplicationResult NID)
  | lost (k : Nat)
  | other (target : NID) (streamId : Nat) (result : Engine.ReplicationResult NID)
      (inflightId : Option Nat)
  | state (st : RaftState NID N)

/-- Whether an answer is reported to the engine: of a heartbeat, only a conflict is. -/
def Request.reports (r : Request) : Engine.ReplicationResult NID → Bool
  | .conflict _ => true
  | _ => !r.heartbeat

namespace Tracking

/-- The matching log id of the target. -/
def matching (s : Tracking NID N D) (t : NID) : Option (LogId NID) :=
  (s.engine.leader.bind fun l => l.progress.tryGet t).bind ProgressItem.progress

/-- Whether the answer is a conflict that has lowered the matching log id. -/
def resetsBy (s : Tracking NID N D) (t : NID) (s' : Tracking NID N D) :
    Engine.ReplicationResult NID → Nat
  | .conflict _ => if s'.matching t < s.matching t then 1 else 0
  | _ => 0

/-- One step of the stream `sid` to `t`; `none` means that it cannot happen. -/
def step (t : NID) (sid : Nat) (s : Tracking NID N D) : Event NID N → Option (Tracking NID N D)
  | .initiateReplication =>
    some { s with engine := s.engine.withLeader Engine.initiateReplication }
  | .allowNextRevert target allow => do
      let l ← s.engine.leader
      let e ← s.engine.allowNextRevert l target allow
      some { s with engine := e }
  | .request heartbeat inflightId =>
    -- a replication task only knows of ids that were given out
    if (heartbeat → inflightId = none) ∧
        ∀ id ∈ inflightId, id ≤ s.engine.state.lastInflightId then
      some { s with requests := s.requests ++ [⟨heartbeat, inflightId, s.resets⟩] }
    else none
  | .answer k result => do
      let r ← s.requests[k]?
      let l ← s.engine.leader
      if r.reports result then
        let e ← s.engine.updateProgress l t sid result r.inflightId
        let s' := { s with engine := e, requests := s.requests.eraseIdx k }
        some { s' with resets := s.resets + s.resetsBy t s' result }
      else some { s with requests := s.requests.eraseIdx k }
  | .lost k => some { s with requests := s.requests.eraseIdx k }
  | .other target streamId result inflightId => do
      let l ← s.engine.leader
      if target = t then none
      else
        let e ← s.engine.updateProgress l target streamId result inflightId
        some { s with engine := e }
  | .state st =>
    if s.engine.state.lastInflightId ≤ st.lastInflightId then
      some { s with engine := { s.engine with state := st } }
    else none

/-- The steps of a list, one after the other. -/
def run (t : NID) (sid : Nat) (s : Tracking NID N D) :
    List (Event NID N) → Option (Tracking NID N D)
  | [] => some s
  | ev :: evs => (s.step t sid ev).bind fun s' => s'.run t sid evs

/-- No request has been sent yet, and the target is replicated to by stream `sid`. -/
def Initial (t : NID) (sid : Nat) (s : Tracking NID N D) : Prop :=
  s.requests = [] ∧ ∃ x, s.engine.Tracks t x ∧ x.data.streamId = sid ∧
    ∀ j ∈ x.data.inflight.id, j ≤ s.engine.state.lastInflightId

/-- If the answer is a conflict below the matching log id, then nothing is left in flight by it and
    every other request that the engine hears of has an in-flight id. -/
def Guarded (t : NID) (s : Tracking NID N D) : Event NID N → Prop
  | .answer k (.conflict c) => c.index < nextIndex (s.matching t) →
      (∀ r ∈ s.requests[k]?, r.inflightId = none →
        ∀ l ∈ s.engine.leader, ∀ x ∈ l.progress.tryGet t, x.data.inflight.survivesReset = false) ∧
      ∀ r ∈ s.requests.eraseIdx k, r.heartbeat = false → r.inflightId.isSome
  | _ => True

/-- Every step of the run is guarded. -/
def GuardedRun (t : NID) (sid : Nat) (s : Tracking NID N D) : List (Event NID N) → Prop
  | [] => True
  | ev :: evs => s.Guarded t ev ∧ ∀ s' ∈ s.step t sid ev, s'.GuardedRun t sid evs

instance (t : NID) (s : Tracking NID N D) (ev : Event NID N) : Decidable (s.Guarded t ev) :=
  match ev with
  | .answer k (.conflict c) => inferInstanceAs (Decidable (c.index < nextIndex (s.matching t) →
      (∀ r ∈ s.requests[k]?, r.inflightId = none → ∀ l ∈ s.engine.leader,
        ∀ x ∈ l.progress.tryGet t, x.data.inflight.survivesReset = false) ∧
      ∀ r ∈ s.requests.eraseIdx k, r.heartbeat = false → r.inflightId.isSome))
  | .answer _ (.matching _) => isTrue trivial
  | .answer _ .error => isTrue trivial
  | .initiateReplication => isTrue trivial
  | .allowNextRevert _ _ => isTrue trivial
  | .request _ _ => isTrue trivial
  | .lost _ => isTrue trivial
  | .other _ _ _ _ => isTrue trivial
  | .state _ => isTrue trivial

instance decidableGuardedRun (t : NID) (sid : Nat) :
    (s : Tracking NID N D) → (evs : List (Event NID N)) → Decidable (s.GuardedRun t sid evs)
  | _, [] => isTrue trivial
  | s, ev :: evs =>
    have : ∀ s' : Tracking NID N D, Decidable (s'.GuardedRun t sid evs) :=
      fun s' => decidableGuardedRun t sid s' evs
    inferInstanceAs (Decidable (s.Guarded t ev ∧ ∀ s' ∈ s.step t sid ev, s'.GuardedRun t sid evs))

/-! ### The invariant -/

/-- In-flight ids were given out, and a stale request that the engine hears of has an id that is
    not the one in flight. -/
structure Inv (t : NID) (sid : Nat) (s : Tracking NID N D) (x : ProgressEntry NID) : Prop where
  tracks : s.engine.Tracks t x
  streamId : x.data.streamId = sid
  inflight : ∀ j, x.data.inflight.id = some j → j ≤ s.engine.state.lastInflightId
  requests : ∀ r ∈ s.requests, ∀ j, r.inflightId = some j → j ≤ s.engine.state.lastInflightId
  stale : ∀ r ∈ s.requests, r.resets < s.resets → r.heartbeat = false →
    ∃ j, r.inflightId = some j ∧ x.data.inflight.id ≠ some j

variable {t : NID} {sid : Nat} {s s' : Tracking NID N D} {x : ProgressEntry NID}

theorem matching_eq (h : s.engine.Tracks t x) : s.matching t = x.progress := by
  obtain ⟨l, hl, -, hget⟩ := h.exists_leader
  simp [matching, hl, hget]

theorem Initial.inv (h : s.Initial t sid) : ∃ x, s.Inv t sid x := by
  obtain ⟨hreq, x, htracks, hsid, hid⟩ := h
  refine ⟨x, htracks, hsid, fun j hj => hid j hj, ?_, ?_⟩
  · intro r hr
    rw [hreq] at hr
    cases hr
  · intro r hr
    rw [hreq] at hr
    cases hr

/-- Without a reset the invariant only needs that no old id comes back into flight. -/
theorem Inv.mono (h : s.Inv t sid x) {y : ProgressEntry NID} (htracks : s'.engine.Tracks t y)
    (hsid : y.data.streamId = x.data.streamId)
    (hlast : s.engine.state.lastInflightId ≤ s'.engine.state.lastInflightId)
    (hfresh : ∀ j, y.data.inflight.id = some j → x.data.inflight.id = some j ∨
      s.engine.state.lastInflightId < j ∧ j ≤ s'.engine.state.lastInflightId)
    (hreq : ∀ r ∈ s'.requests, r ∈ s.requests) (hres : s'.resets = s.resets) :
    s'.Inv t sid y := by
  refine ⟨htracks, hsid.trans h.streamId, ?_, ?_, ?_⟩
  · intro j hj
    rcases hfresh j hj with hj | hj
    · exact (h.inflight j hj).trans hlast
    · exact hj.2
  · intro r hr j hj
    exact (h.requests r (hreq r hr) j hj).trans hlast
  · intro r hr hstale hhb
    rw [hres] at hstale
    obtain ⟨j, hj, hne⟩ := h.stale r (hreq r hr) hstale hhb
    refine ⟨j, hj, fun hy => ?_⟩
    rcases hfresh j hy with hx | hnew
    · exact hne hx
    · have := h.requests r (hreq r hr) j hj
      omega

/-- After a guarded reset nothing is in flight and every request that the engine hears of has an
    id. -/
theorem Inv.reset (h : s.Inv t sid x) {k : Nat} {c : LogId NID} {r : Request}
    (hr : s.requests[k]? = some r) (hguard : s.Guarded t (.answer k (.conflict c)))
    {y : ProgressEntry NID}
    (hy : y = ProgressEntry.applyResult s.engine.config.allowLogReversion x (.conflict c)
      r.inflightId)
    (htracks : s'.engine.Tracks t y)
    (hlast : s'.engine.state.lastInflightId = s.engine.state.lastInflightId)
    (hreq : s'.requests = s.requests.eraseIdx k) (hdrop : s'.matching t < s.matching t) :
    s'.Inv t sid y := by
  have hne : y.progress ≠ x.progress := by
    rw [← matching_eq htracks, ← matching_eq h.tracks]
    exact hdrop.ne
  subst hy
  obtain ⟨hbelow, hnone⟩ := ProgressEntry.updateConflicting_reset hne
  rw [← matching_eq h.tracks] at hbelow
  obtain ⟨hsurv, hids⟩ := hguard hbelow
  obtain ⟨l, hl, -, hget⟩ := h.tracks.exists_leader
  have hin := hnone fun hid => hsurv r hr hid l hl x hget
  have hno : ∀ j, (ProgressEntry.applyResult s.engine.config.allowLogReversion x (.conflict c)
      r.inflightId).data.inflight.id ≠ some j := by
    intro j hj
    have hx : (Inflight.none : Inflight NID).id = some j := by
      rw [← hin]
      exact hj
    cases hx
  refine ⟨htracks, ?_, fun j hj => absurd hj (hno j), ?_, ?_⟩
  · rw [ProgressEntry.applyResult_streamId]
    exact h.streamId
  · intro r' hr' j hj
    rw [hreq] at hr'
    rw [hlast]
    exact h.requests r' (List.mem_of_mem_eraseIdx hr') j hj
  · intro r' hr' _ hhb
    rw [hreq] at hr'
    obtain ⟨j, hj⟩ := Option.isSome_iff_exists.1 (hids r' hr' hhb)
    exact ⟨j, hj, hno j⟩

/-- What an answer does: it is dropped, or it changes the entry of the target. -/
theorem Inv.answer_cases (h : s.Inv t sid x) {k : Nat} {result : Engine.ReplicationResult NID}
    (hs : s.step t sid (.answer k result) = some s') :
    ∃ r, s.requests[k]? = some r ∧ s'.requests = s.requests.eraseIdx k ∧
      (r.reports result = false ∧ s'.engine = s.engine ∧ s'.resets = s.resets ∨
        r.reports result = true ∧
          s'.engine.Tracks t (ProgressEntry.applyResult s.engine.config.allowLogReversion x result
            r.inflightId) ∧
          s'.engine.state.lastInflightId = s.engine.state.lastInflightId ∧
          s'.resets = s.resets + s.resetsBy t s' result) := by
  obtain ⟨r, hr, hs⟩ := Option.bind_eq_some_iff.1 hs
  obtain ⟨l, hl, hs⟩ := Option.bind_eq_some_iff.1 hs
  refine ⟨r, hr, ?_⟩
  split at hs
  · rename_i hrep
    obtain ⟨e, he, hs⟩ := Option.bind_eq_some_iff.1 hs
    obtain rfl := Option.some.inj hs
    obtain ⟨htracks, hlast⟩ := h.tracks.updateProgress hl he
    rw [if_pos ⟨rfl, h.streamId⟩] at htracks
    refine ⟨rfl, Or.inr ⟨hrep, htracks, hlast, ?_⟩⟩
    cases result with
    | matching m => rfl
    | conflict c => rfl
    | error => rfl
  · rename_i hrep
    obtain rfl := Option.some.inj hs
    exact ⟨rfl, Or.inl ⟨by simpa using hrep, rfl, rfl⟩⟩

theorem Inv.answer (h : s.Inv t sid x) {k : Nat} {result : Engine.ReplicationResult NID}
    (hguard : s.Guarded t (.answer k result))
    (hs : s.step t sid (.answer k result) = some s') : ∃ y, s'.Inv t sid y := by
  obtain ⟨r, hr, hreq, ⟨-, he, hres⟩ | ⟨-, htracks, hlast, hres⟩⟩ := h.answer_cases hs
  · refine ⟨x, h.mono (by rw [he]; exact h.tracks) rfl (by rw [he]) (fun j hj => Or.inl hj) ?_ hres⟩
    intro r' hr'
    rw [hreq] at hr'
    exact List.mem_of_mem_eraseIdx hr'
  · by_cases hno : s.resetsBy t s' result = 0
    · refine ⟨_, h.mono htracks (ProgressEntry.applyResult_streamId _ _ _ _) hlast.ge
        (fun j hj => Or.inl (ProgressEntry.applyResult_inflight hj)) ?_ (by omega)⟩
      intro r' hr'
      rw [hreq] at hr'
      exact List.mem_of_mem_eraseIdx hr'
    · cases result with
      | matching m => exact absurd rfl hno
      | error => exact absurd rfl hno
      | conflict c =>
        have hdrop : s'.matching t < s.matching t := by
          by_contra hnd
          exact hno (if_neg hnd)
        exact ⟨_, h.reset hr hguard rfl htracks hlast hreq hdrop⟩

theorem Inv.step (h : s.Inv t sid x) {ev : Event NID N} (hguard : s.Guarded t ev)
    (hs : s.step t sid ev = some s') : ∃ y, s'.Inv t sid y := by
  obtain ⟨l, hl, -, -⟩ := h.tracks.exists_leader
  cases ev with
  | initiateReplication =>
    obtain rfl := Option.some.inj hs
    have he : s.engine.withLeader Engine.initiateReplication =
        s.engine.initiateReplication l := by
      simp [Engine.withLeader, hl]
    obtain ⟨y, htracks, -, hsid, hlast, hfresh⟩ := h.tracks.initiateReplication hl
    rw [← he] at htracks hlast hfresh
    exact ⟨y, h.mono htracks hsid hlast hfresh (fun r hr => hr) rfl⟩
  | allowNextRevert target allow =>
    obtain ⟨l', hl', hs⟩ := Option.bind_eq_some_iff.1 hs
    obtain ⟨e, he, hs⟩ := Option.bind_eq_some_iff.1 hs
    obtain rfl := Option.some.inj hs
    obtain ⟨y, htracks, -, hsid, hin, hlast⟩ := h.tracks.allowNextRevert hl' he
    refine ⟨y, h.mono htracks hsid hlast.ge (fun j hj => Or.inl ?_) (fun r hr => hr) rfl⟩
    rw [← hin]
    exact hj
  | request heartbeat inflightId =>
    obtain ⟨⟨-, hold⟩, hs⟩ := Option.ite_none_right_eq_some.1 hs
    obtain rfl := Option.some.inj hs
    refine ⟨x, h.tracks, h.streamId, h.inflight, ?_, ?_⟩
    · intro r hr j hj
      rcases List.mem_append.1 hr with hr | hr
      · exact h.requests r hr j hj
      · obtain rfl := List.mem_singleton.1 hr
        exact hold j hj
    · intro r hr hstale
      rcases List.mem_append.1 hr with hr | hr
      · exact h.stale r hr hstale
      · obtain rfl := List.mem_singleton.1 hr
        exact absurd hstale (lt_irrefl _)
  | answer k result => exact h.answer hguard hs
  | lost k =>
    obtain rfl := Option.some.inj hs
    exact ⟨x, h.mono h.tracks rfl le_rfl (fun j hj => Or.inl hj)
      (fun r hr => List.mem_of_mem_eraseIdx hr) rfl⟩
  | other target streamId result inflightId =>
    obtain ⟨l', hl', hs⟩ := Option.bind_eq_some_iff.1 hs
    obtain ⟨hne, hs⟩ := Option.ite_none_left_eq_some.1 hs
    obtain ⟨e, he, hs⟩ := Option.bind_eq_some_iff.1 hs
    obtain rfl := Option.some.inj hs
    obtain ⟨htracks, hlast⟩ := h.tracks.updateProgress hl' he
    rw [if_neg fun hc => hne hc.1.symm] at htracks
    exact ⟨x, h.mono htracks rfl hlast.ge (fun j hj => Or.inl hj) (fun r hr => hr) rfl⟩
  | state st =>
    obtain ⟨hle, hs⟩ := Option.ite_none_right_eq_some.1 hs
    obtain rfl := Option.some.inj hs
    exact ⟨x, h.mono ⟨h.tracks.exists_leader⟩ rfl hle (fun j hj => Or.inl hj) (fun r hr => hr) rfl⟩

theorem Inv.run {evs : List (Event NID N)} (h : s.Inv t sid x) (hguard : s.GuardedRun t sid evs)
    (hs : s.run t sid evs = some s') : ∃ y, s'.Inv t sid y := by
  induction evs generalizing s x with
  | nil =>
    obtain rfl := Option.some.inj hs
    exact ⟨x, h⟩
  | cons ev evs ih =>
    obtain ⟨s1, hs1, hs⟩ := Option.bind_eq_some_iff.1 hs
    obtain ⟨y, hy⟩ := h.step hguard.1 hs1
    exact ih hy (hguard.2 s1 hs1) hs

/-- In every run whose resets are guarded, the acknowledgement of a request that was sent before
    the last reset does not change the matching log id. -/
theorem stale_answer_raises_nothing {s0 s s' : Tracking NID N D} {t : NID} {sid : Nat}
    {evs : List (Event NID N)} (hinit : s0.Initial t sid) (hguard : s0.GuardedRun t sid evs)
    (hrun : s0.run t sid evs = some s) {k : Nat} {r : Request} (hr : s.requests[k]? = some r)
    (hstale : r.resets < s.resets) {m : Option (LogId NID)}
    (hs : s.step t sid (.answer k (.matching m)) = some s') : s'.matching t = s.matching t := by
  obtain ⟨x0, h0⟩ := hinit.inv
  obtain ⟨x, h⟩ := h0.run hguard hrun
  obtain ⟨r', hr', -, ⟨-, he, -⟩ | ⟨hrep, htracks, -, -⟩⟩ := h.answer_cases hs
  · unfold matching
    rw [he]
  · obtain rfl : r' = r := Option.some.inj (hr'.symm.trans hr)
    have hhb : r'.heartbeat = false := by simpa [Request.reports] using hrep
    obtain ⟨j, hj, hne⟩ := h.stale r' (List.mem_of_getElem? hr) hstale hhb
    rw [matching_eq htracks, matching_eq h.tracks, hj]
    exact congrArg ProgressItem.progress (ProgressEntry.updateMatching_stale hne m)

/-! ### The leader of a cluster of three -/

/-- Node 0 has been elected in term 1 and may revert logs. Its log ends at `(1, 1)`, which is in
    flight to node 1 with id 1 on stream 2. -/
def newLeader : Option (Engine (Fin 3) Unit Nat) := do
  let n ← Node.start { Three.config false 0 with allowLogReversion := true } 0 [] 0
    (initialStore Three.firstEntry) ⟨[], none⟩
  let vote : Vote (Fin 3) := ⟨⟨1, 0⟩, false⟩
  let e ← (n.engine.doElect 0 false).handleVoteResp 0 0 ⟨vote, true, none⟩
  e.handleVoteResp 0 1 ⟨vote, true, none⟩

/-- No request has been sent. -/
def newTracking : Tracking (Fin 3) Unit Nat := ⟨newLeader.get (by decide +kernel), [], 0⟩

theorem newTracking_initial : newTracking.Initial 1 2 := by
  refine ⟨rfl, ?_⟩
  let l := newTracking.engine.leader.get (by decide +kernel)
  let x := (l.progress.tryGet 1).get (by decide +kernel)
  refine ⟨x, ⟨l, (Option.some_get _).symm, by decide +kernel, (Option.some_get _).symm⟩, ?_, ?_⟩
  · decide +kernel
  · decide +kernel

/-- The entries of the log. -/
def firstId : LogId (Fin 3) := ⟨⟨0, none⟩, 0⟩
def lastId : LogId (Fin 3) := ⟨⟨1, none⟩, 1⟩

/-- Three requests with id 1. The first answer acknowledges the first entry, the answer of the
    last request says that it is lost. -/
def conflictInFlight : List (Event (Fin 3) Unit) :=
  [.request false (some 1), .answer 0 (.matching (some firstId)), .request false (some 1),
    .request false (some 1), .answer 1 (.conflict firstId)]

def afterConflict : Tracking (Fin 3) Unit Nat :=
  (newTracking.run 1 2 conflictInFlight).get (by decide +kernel)

def afterLateAnswer : Tracking (Fin 3) Unit Nat :=
  (afterConflict.step 1 2 (.answer 0 (.matching (some lastId)))).get (by decide +kernel)

theorem stale_answer_raises_nothing_in_flight : newTracking.GuardedRun 1 2 conflictInFlight ∧
    afterConflict.requests[0]?.any (fun r => decide (r.resets < afterConflict.resets)) = true ∧
    afterLateAnswer.matching 1 = afterConflict.matching 1 := by
  have hguard : newTracking.GuardedRun 1 2 conflictInFlight := by decide +kernel
  have hany : afterConflict.requests[0]?.any
      (fun r => decide (r.resets < afterConflict.resets)) = true := by decide +kernel
  obtain ⟨hr, hstale⟩ := (Option.any_eq_true_iff_get _ _).1 hany
  refine ⟨hguard, hany, ?_⟩
  exact stale_answer_raises_nothing newTracking_initial hguard (Option.some_get _).symm
    (Option.some_get hr).symm (of_decide_eq_true hstale) (Option.some_get _).symm

/-- The follower acknowledges the whole log. A request that only carries the committed log id is
    under way when a heartbeat finds the log reverted. -/
def commitOnly : List (Event (Fin 3) Unit) :=
  [.request false (some 1), .answer 0 (.matching (some lastId)), .request false none,
    .request true none, .answer 1 (.conflict lastId)]

/-- The follower acknowledges the first entry. The rest is under way when a heartbeat finds the
    first entry lost. -/
def heartbeatConflict : List (Event (Fin 3) Unit) :=
  [.request false (some 1), .answer 0 (.matching (some firstId)), .request false (some 1),
    .request true none, .answer 1 (.conflict firstId)]

/-- In both runs the late acknowledgement raises the matching log id from none to the end of the
    log. -/
theorem stale_answer_raises : newTracking.Initial 1 2 ∧
    ∀ evs ∈ [commitOnly, heartbeatConflict], (newTracking.run 1 2 evs).any (fun s =>
      s.requests[0]?.any (fun r => decide (r.resets < s.resets)) &&
      decide (s.matching 1 = none) &&
      (s.step 1 2 (.answer 0 (.matching (some lastId)))).any fun s' =>
        decide (s'.matching 1 = some lastId)) = true :=
  ⟨newTracking_initial, by decide +kernel⟩

end Tracking

end ZenohRaft
