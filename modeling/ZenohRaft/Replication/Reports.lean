/-
  Stale reports: what `ReplicationHandler::update_progress` does with a report of a closed
  replication stream, or of something that is no longer in flight.

  The stream id is compared for every report. The in-flight id is compared by `Inflight::ack` and
  `Inflight::conflict`, for acknowledgements and conflicts; the report of an error is not compared
  with what is in flight and clears it.

  * `updateProgress_stale_iff`: a stale report leaves the entry of its target alone exactly if its
    stream is closed, it is no error, or nothing is in flight.
-/
import ZenohRaft.Reversion

namespace ZenohRaft

variable {NID N D : Type} [LinearOrder NID]

/-! ## Entries -/

namespace ProgressEntry

variable {e : ProgressEntry NID}

omit [LinearOrder NID] in
theorem updateConflicting_stale {id : Nat} (h : e.data.inflight.id ≠ some id) (allow : Bool)
    (index : Nat) : e.updateConflicting allow index (some id) = e := by
  obtain ⟨node, progress, ⟨stream, inflight, searchingEnd, reversion⟩⟩ := e
  cases inflight with
  | none => rfl
  | logs _ i | logsSince _ i | snapshot i =>
    have hid : i ≠ id := fun heq => h (congrArg some heq)
    simp [updateConflicting, Inflight.conflict, hid]

end ProgressEntry

namespace VecProgress

variable {QS P A : Type} [QuorumSet QS NID] [LinearOrder P] {p : VecProgress NID QS P A} {id : NID}
  {x : ProgressItem NID P A}

omit [QuorumSet QS NID] [LinearOrder P] in
/-- The entry that `try_get` returns, with the entries before and behind it. -/
theorem span_of_tryGet (hx : p.tryGet id = some x) : ∃ before behind,
    p.entries.span (fun item => decide (item.id ≠ id)) = (before, x :: behind) ∧
      p.entries = before ++ x :: behind := by
  rcases span_id p.entries id with ⟨-, -, hne⟩ | ⟨before, y, behind, hspan, he, -⟩
  · exact absurd (tryGet_id hx) (hne x (List.mem_of_find?_eq_some hx))
  · obtain ⟨-, hget⟩ := entries_of_span hspan
    obtain rfl := Option.some.inj (hx.symm.trans hget)
    exact ⟨before, behind, hspan, he⟩

/-- `update_entry_with` of an entry that stays the same. -/
theorem updateEntryWith_self (hx : p.tryGet id = some x)
    {f : ProgressItem NID P A → ProgressItem NID P A} (hf : f x = x) :
    p.updateEntryWith id f = some (true, p) := by
  obtain ⟨before, behind, hspan, he⟩ := span_of_tryGet hx
  unfold updateEntryWith
  rw [hspan]
  show (p.updateAt before (f x) behind x.progress).map _ = _
  unfold updateAt
  rw [hf, if_neg (lt_irrefl _), if_pos (Or.inl rfl), ← he]
  rfl

omit [QuorumSet QS NID] in
theorem resetEntryWith_self (hx : p.tryGet id = some x)
    {f : ProgressItem NID P A → ProgressItem NID P A} (hf : f x = x) :
    p.resetEntryWith id f = p := by
  obtain ⟨before, behind, hspan, he⟩ := span_of_tryGet hx
  unfold resetEntryWith
  rw [hspan]
  dsimp only
  rw [hf, if_neg (fun h => lt_irrefl _ h.2), ← he]

omit [QuorumSet QS NID] [LinearOrder P] in
theorem tryGet_updateDataWith (hx : p.tryGet id = some x) (f : A → A) :
    (p.updateDataWith id f).tryGet id = some { x with data := f x.data } := by
  obtain ⟨before, behind, hspan, he⟩ := span_of_tryGet hx
  have hbefore : ∀ y ∈ before, decide (y.id = id) = false := by
    intro y hy
    rw [List.span_eq_takeWhile_dropWhile] at hspan
    rw [← (Prod.mk.inj hspan).1] at hy
    simpa using List.mem_takeWhile_imp hy
  unfold updateDataWith
  rw [hspan]
  unfold tryGet
  dsimp only
  rw [List.find?_append, List.find?_eq_none.2 fun y hy => by simp [hbefore y hy], Option.none_or,
    List.find?_cons_of_pos (by simp [tryGet_id hx])]

end VecProgress

/-! ## Reports -/

namespace Engine

variable {e : Engine NID N D} {l : Leader NID N} {target : NID} {streamId : Nat}
  {inflightId : Option Nat}

/-- A report is stale if the stream of its target is another one, or if it carries an in-flight id
    and this is not the id of what is in flight. -/
def StaleReport (l : Leader NID N) (target : NID) (streamId : Nat) (inflightId : Option Nat) :
    Prop :=
  ∀ item ∈ l.progress.tryGet target, item.data.streamId ≠ streamId ∨
    inflightId ≠ none ∧ item.data.inflight.id ≠ inflightId

instance (l : Leader NID N) (target : NID) (streamId : Nat) (inflightId : Option Nat) :
    Decidable (StaleReport l target streamId inflightId) :=
  inferInstanceAs (Decidable (∀ item ∈ _, _))

/-- A report of a closed stream, or of a node that is no target. -/
theorem updateProgress_closed (h : l.isReplicationStreamValid target streamId = false)
    (result : ReplicationResult NID) :
    e.updateProgress l target streamId result inflightId = some e := by
  unfold updateProgress
  rw [h]
  rfl

/-- What a stale report does to the progress, before the purge is tried again. -/
theorem updateProgress_stale {item : ProgressEntry NID}
    (hitem : l.progress.tryGet target = some item) (hstream : item.data.streamId = streamId)
    {id : Nat} (hid : item.data.inflight.id ≠ some id) (result : ReplicationResult NID) :
    ∃ e', e.updateProgress l target streamId result (some id) = some e' ∧
      ((result ≠ .error ∧ e'.leader = some l) ∨
        result = .error ∧ e'.leader = some { l with
          progress := l.progress.updateDataWith target fun d =>
            { d with inflight := .none } }) := by
  have hvalid : l.isReplicationStreamValid target streamId = true := by
    unfold Leader.isReplicationStreamValid
    rw [hitem]
    exact decide_eq_true hstream
  unfold updateProgress
  rw [hvalid, if_pos rfl]
  cases result with
  | matching logId =>
    have hself : l.progress.updateEntryWith target
        (fun x => ProgressEntry.updateMatching x logId (some id)) = some (true, l.progress) :=
      VecProgress.updateEntryWith_self hitem (ProgressEntry.updateMatching_stale hid logId)
    dsimp only
    unfold updateMatching
    rw [hself]
    refine ⟨_, rfl, Or.inl ⟨nofun, ?_⟩⟩
    rw [(tryPurgeLog_leader _).1, (tryCommitQuorumAccepted_leader _ _).1]
  | conflict logId =>
    have hself : l.progress.resetEntryWith target (fun x =>
        ProgressEntry.updateConflicting e.config.allowLogReversion x logId.index (some id)) =
          l.progress :=
      VecProgress.resetEntryWith_self hitem
        (ProgressEntry.updateConflicting_stale hid e.config.allowLogReversion logId.index)
    refine ⟨_, rfl, Or.inl ⟨nofun, ?_⟩⟩
    rw [(tryPurgeLog_leader _).1]
    unfold updateConflicting
    rw [hself]
  | error =>
    refine ⟨_, rfl, Or.inr ⟨rfl, ?_⟩⟩
    rw [(tryPurgeLog_leader _).1]

/-- A stale report leaves the entry of its target as it is exactly if it is no error, or its stream
    is closed, or nothing is in flight. -/
theorem updateProgress_stale_iff (hl : e.leader = some l)
    (hstale : StaleReport l target streamId inflightId) (result : ReplicationResult NID) :
    ∃ e' l', e.updateProgress l target streamId result inflightId = some e' ∧
      e'.leader = some l' ∧
      (l'.progress.tryGet target = l.progress.tryGet target ↔ result ≠ .error ∨
        ∀ item, l.progress.tryGet target = some item →
          item.data.streamId ≠ streamId ∨ item.data.inflight = .none) := by
  cases hvalid : l.isReplicationStreamValid target streamId with
  | false =>
    refine ⟨e, l, updateProgress_closed hvalid result, hl, fun _ => Or.inr fun item hitem => ?_,
      fun _ => rfl⟩
    unfold Leader.isReplicationStreamValid at hvalid
    rw [hitem] at hvalid
    exact Or.inl (of_decide_eq_false hvalid)
  | true =>
    obtain ⟨item, hitem, hstream⟩ : ∃ item, l.progress.tryGet target = some item ∧
        item.data.streamId = streamId := by
      unfold Leader.isReplicationStreamValid at hvalid
      cases hitem : l.progress.tryGet target with
      | none =>
        rw [hitem] at hvalid
        cases hvalid
      | some item =>
        rw [hitem] at hvalid
        exact ⟨item, rfl, of_decide_eq_true hvalid⟩
    rcases hstale item hitem with hother | ⟨hsome, hid⟩
    · exact absurd hstream hother
    · obtain ⟨id, rfl⟩ := Option.ne_none_iff_exists'.1 hsome
      obtain ⟨e', he', ⟨hne, hsame⟩ | ⟨rfl, hcleared⟩⟩ :=
        updateProgress_stale hitem hstream hid result
      · exact ⟨e', l, he', hsame, fun _ => Or.inl hne, fun _ => rfl⟩
      · refine ⟨e', _, he', hcleared, ?_⟩
        dsimp only
        rw [VecProgress.tryGet_updateDataWith hitem, hitem]
        constructor
        · intro heq
          refine Or.inr fun item' hitem' => Or.inr ?_
          obtain rfl := Option.some.inj hitem'
          have hdata := congrArg (fun x : ProgressEntry NID => x.data.inflight)
            (Option.some.inj heq)
          exact hdata.symm
        · rintro (hne | hall)
          · exact absurd rfl hne
          · rcases hall item rfl with hother | hidle
            · exact absurd hstream hother
            · obtain ⟨node, progress, ⟨stream, inflight, searchingEnd, reversion⟩⟩ := item
              cases hidle
              rfl

end Engine

namespace Tracking

open Engine

/-- The leader of three: the probe of node 1 with id 1 on stream 2 failed, and it is sent again
    with id 3. -/
def retried : Engine (Fin 3) Unit Nat :=
  (do
    let e ← newLeader
    let e ← e.updateProgress (← e.leader) 1 2 .error (some 1)
    return e.initiateReplication (← e.leader) : Option (Engine (Fin 3) Unit Nat)).get
      (by decide +kernel)

def retriedLeader : Leader (Fin 3) Unit := retried.leader.get (by decide +kernel)

/-- A second acknowledgement of the first probe changes nothing. -/
theorem updateProgress_stale_iff_retried : StaleReport retriedLeader 1 2 (some 1) ∧
    ∃ e' l', retried.updateProgress retriedLeader 1 2 (.matching (some lastId)) (some 1) =
      some e' ∧ e'.leader = some l' ∧ l'.progress.tryGet 1 = retriedLeader.progress.tryGet 1 := by
  have hstale : StaleReport retriedLeader 1 2 (some 1) := by decide +kernel
  obtain ⟨e', l', he', hl', hiff⟩ := updateProgress_stale_iff (Option.some_get _).symm hstale
    (.matching (some lastId))
  exact ⟨hstale, e', l', he', hl', hiff.2 (Or.inl nofun)⟩

/-- A second error report of the first probe clears the second one, which is still in flight. -/
theorem stale_error_clears : StaleReport retriedLeader 1 2 (some 1) ∧
    (retriedLeader.progress.tryGet 1).map (·.data.inflight.id) = some (some 3) ∧
    (do
      let e ← retried.updateProgress retriedLeader 1 2 .error (some 1)
      let item ← (← e.leader).progress.tryGet 1
      return item.data.inflight : Option (Inflight (Fin 3))) = some .none := by
  decide +kernel

end Tracking

end ZenohRaft
