/-
  One session of a replication stream: `replication/stream_state.rs`,
  `replication/inflight_append_queue.rs` and `ReplicationCore::run_stream_session`.

  The transport polls the request stream whenever it likes, so that any number of requests can be
  on their way. `next_append_request` records each of them in the in-flight queue, and a response
  takes off the queue what it acknowledges. The sending time that `drain_acked` returns goes to
  `RaftCore` as a heartbeat and extends the lease of the leader.

  A response is matched to requests by log id only. In `LogsSince` mode a commit that no request
  has carried yet is sent in a request without entries, whose last log id is that of the request
  before it. So the response to the one takes both off the queue.

  * `drainAcked_spec`: what `drain_acked` takes off the queue and returns.
  * `Session.heartbeats_answered`: in a session in which requests without entries are generated
    only while no request is unanswered, every reported time is that of an answered request.
  * `Session.heartbeat_of_unanswered`: a session in which it is not.

  The log reader is a parameter of a poll. A response is the answer to the first unanswered
  request and acknowledges at most what that request carries. Errors end a session and do not
  touch the queue; they are left out, and so are the backoff and the cancellation.
-/
import ZenohRaft.Lib.WriteBehind
import ZenohRaft.Cluster

namespace ZenohRaft

open Lib

variable {NID N D : Type} [LinearOrder NID]

namespace Replication

/-! ## Payload and context -/

/-- `replication::payload::Payload`. -/
inductive Payload (NID : Type) where
  | logIdRange (range : LogIdRange NID)
  | logsSince (prev : Option (LogId NID))

namespace Payload

/-- `Payload::update_matching`. -/
def updateMatching (matching : Option (LogId NID)) : Payload NID → Payload NID
  | .logIdRange range => .logIdRange { range with prev := matching }
  | .logsSince _ => .logsSince matching

/-- `Payload::len`. -/
def len : Payload NID → Option Nat
  | .logIdRange range => some (nextIndex range.last - nextIndex range.prev)
  | .logsSince _ => none

/-- The log id after which the payload goes on. -/
def prev : Payload NID → Option (LogId NID)
  | .logIdRange range => range.prev
  | .logsSince prev => prev

end Payload

/-- `ReplicationContext`: the leader a task works for, and `Config::max_payload_entries`. -/
structure Context (NID : Type) where
  leaderVote : LeaderId NID
  maxPayloadEntries : Nat

/-- `ReplicationContext::leader_changed`. -/
def Context.leaderChanged (c : Context NID) (acceptedIo : IOId NID) : Bool :=
  decide (acceptedIo.toVote.leaderId ≠ c.leaderVote)

/-- `EventWatcher`: what the watch channels hold, and whether the commit has been seen. -/
structure EventWatcher (NID : Type) where
  ioAccepted : IOId NID
  ioSubmitted : IOId NID
  committed : Option (LogId NID)
  committedSeen : Bool

/-! ## The request generator -/

/-- `non_reversed_log_id_range`. -/
def nonReversedLogIdRange (prev last : Option (LogId NID)) : LogIdRange NID :=
  ⟨prev, max last prev⟩

/-- `StreamState::get_log_id_range`. It waits where there is nothing to send, which is `none`
    here, as is the end of the stream. -/
def getLogIdRange (payload : Option (Payload NID)) (w : EventWatcher NID) :
    Option (LogIdRange NID) :=
  match payload with
  | none => none
  | some (.logIdRange range) => some range
  | some (.logsSince prev) =>
    let lastLogId := w.ioSubmitted.lastLogId
    if prev < lastLogId then some (nonReversedLogIdRange prev lastLogId)
    else if w.committedSeen then none
    else some (nonReversedLogIdRange prev lastLogId)

/-- `StreamState::read_log_entries`; `reader` is `RaftLogReader::limited_get_log_entries`. The sum
    with `max_payload_entries`, which may be any `u64`, is one of `u64`: a release build wraps
    it. -/
def readLogEntries (c : Context NID) (reader : Nat → Nat → List (Entry NID N D))
    (range : LogIdRange NID) : List (Entry NID N D) × LogIdRange NID :=
  let start := nextIndex range.prev
  let stop := nextIndex range.last
  if stop ≤ start then ([], ⟨range.prev, range.prev⟩)
  else
    let logs := reader start (min stop ((start + c.maxPayloadEntries) % 2 ^ 64))
    match logs.getLast? with
    | none => ([], ⟨range.prev, range.prev⟩)
    | some last => (logs, ⟨range.prev, some last.logId⟩)

/-- `StreamState::update_log_id_range`. -/
def updateLogIdRange (payload : Option (Payload NID)) (matching : Option (LogId NID)) :
    Option (Payload NID) :=
  match payload with
  | none => none
  | some p => if (p.updateMatching matching).len = some 0 then none else p.updateMatching matching

/-- `StreamState::next_request`: the request, and what is left to send. -/
def nextRequest (c : Context NID) (reader : Nat → Nat → List (Entry NID N D))
    (w : EventWatcher NID) (payload : Option (Payload NID)) :
    Option (AppendEntriesRequest NID N D × Option (Payload NID)) :=
  match getLogIdRange payload w with
  | none => none
  | some range =>
    let (entries, sendingRange) := readLogEntries c reader range
    if c.leaderChanged w.ioAccepted then none
    else some (⟨⟨c.leaderVote, true⟩, sendingRange.prev, entries, w.committed⟩,
      updateLogIdRange payload sendingRange.last)

/-- `AppendEntriesRequest::last_log_id`. -/
def lastLogId (req : AppendEntriesRequest NID N D) : Option (LogId NID) :=
  (req.entries.getLast?.map Entry.logId).or req.prevLogId

/-! ## The in-flight queue -/

/-- `InflightAppend`. -/
structure InflightAppend (NID : Type) where
  sendingTime : Nat
  lastLogId : Option (LogId NID)

/-- The loop of `InflightAppendQueue::drain_acked`. -/
def drainAckedLoop (matching : Option (LogId NID)) :
    Option Nat → List (InflightAppend NID) → Option Nat × List (InflightAppend NID)
  | last, [] => (last, [])
  | last, first :: queue =>
    if first.lastLogId ≤ matching then drainAckedLoop matching (some first.sendingTime) queue
    else (last, first :: queue)

/-- `InflightAppendQueue::drain_acked`. -/
def drainAcked (matching : Option (LogId NID)) (queue : List (InflightAppend NID)) :
    Option Nat × List (InflightAppend NID) :=
  drainAckedLoop matching none queue

/-! ## A session -/

/-- A stream session. The transport keeps the requests in the order in which they were handed to
    it, with their sending times, and the number of those that have been answered. -/
structure Session (NID N D : Type) where
  context : Context NID
  watcher : EventWatcher NID
  payload : Option (Payload NID)
  queue : List (InflightAppend NID)
  sent : List (AppendEntriesRequest NID N D × Nat)
  answered : Nat
  /-- the sending times reported by `notify_heartbeat_progress` -/
  heartbeats : List Nat

/-- What happens to a session. -/
inductive SessionEvent (NID N D : Type) where
  /-- `RaftCore` publishes an accepted or submitted IO, or a commit -/
  | ioAccepted (io : IOId NID)
  | ioSubmitted (io : IOId NID)
  | committed (committed : Option (LogId NID))
  /-- the transport asks for the next request, which is ready at the time `now` -/
  | poll (reader : Nat → Nat → List (Entry NID N D)) (now : Nat)
  /-- the answer `Ok(matching)` to the first unanswered request arrives -/
  | response (matching : Option (LogId NID))

namespace Session

/-- `ReplicationCore::run_stream_session`, before the first request. -/
def start (context : Context NID) (watcher : EventWatcher NID) (payload : Payload NID) :
    Session NID N D :=
  ⟨context, watcher, some payload, [], [], 0, []⟩

/-- `ReplicationCore::next_append_request`. -/
def nextAppendRequest (s : Session NID N D) (reader : Nat → Nat → List (Entry NID N D))
    (now : Nat) : Session NID N D :=
  match nextRequest s.context reader s.watcher s.payload with
  | none => s
  | some (req, payload) =>
    { s with
      watcher := { s.watcher with committedSeen := true }
      payload := payload
      queue := s.queue ++ [⟨now, lastLogId req⟩]
      sent := s.sent ++ [(req, now)] }

/-- The case `Ok(matching)` of `ReplicationCore::handle_response_stream`. -/
def handleResponse (s : Session NID N D) (matching : Option (LogId NID)) : Session NID N D :=
  let (last, queue) := drainAcked matching s.queue
  { s with
    answered := s.answered + 1
    queue := queue
    heartbeats := s.heartbeats ++ last.toList }

/-- One event. -/
def step (s : Session NID N D) : SessionEvent NID N D → Session NID N D
  | .ioAccepted io => { s with watcher := { s.watcher with ioAccepted := io } }
  | .ioSubmitted io => { s with watcher := { s.watcher with ioSubmitted := io } }
  | .committed c => { s with watcher := { s.watcher with committed := c, committedSeen := false } }
  | .poll reader now => s.nextAppendRequest reader now
  | .response matching => s.handleResponse matching

/-- What the reader and the transport keep to: the entries read are behind the log id that was
    asked for, and a response is for the first unanswered request and acknowledges no more than
    it carries. -/
def Regular (s : Session NID N D) : SessionEvent NID N D → Prop
  | .poll reader _ => ∀ p ∈ s.payload, ∀ start stop, ∀ ent ∈ reader start stop,
      nextIndex p.prev = start → p.prev < some ent.logId
  | .response matching => ∃ req now, s.sent[s.answered]? = some (req, now) ∧
      matching ≤ lastLogId req
  | _ => True

/-- A request without entries is generated only while no request is unanswered. -/
def IdleWhenEmpty (s : Session NID N D) : SessionEvent NID N D → Prop
  | .poll reader _ => ∀ req payload,
      nextRequest s.context reader s.watcher s.payload = some (req, payload) →
        req.entries = [] → s.answered = s.sent.length
  | _ => True

end Session

/-! ## What the parts do -/

/-- The queue loses the run of requests at its front that are acknowledged, and the time of the
    last of them is returned. -/
theorem drainAckedLoop_spec (matching : Option (LogId NID)) (last : Option Nat)
    (queue : List (InflightAppend NID)) :
    ∃ acked, queue = acked ++ (drainAckedLoop matching last queue).2 ∧
      (∀ x ∈ acked, x.lastLogId ≤ matching) ∧
      (drainAckedLoop matching last queue).1 = (acked.getLast?.map (·.sendingTime)).or last := by
  induction queue generalizing last with
  | nil => exact ⟨[], rfl, by simp, rfl⟩
  | cons first queue ih =>
    unfold drainAckedLoop
    split
    · rename_i hle
      obtain ⟨acked, hqueue, hacked, hlast⟩ := ih (some first.sendingTime)
      refine ⟨first :: acked, ?_, ?_, ?_⟩
      · rw [List.cons_append, ← hqueue]
      · intro x hx
        rcases List.mem_cons.1 hx with rfl | hx
        · exact hle
        · exact hacked x hx
      · rw [hlast, List.getLast?_cons]
        cases acked.getLast? <;> rfl
    · exact ⟨[], rfl, by simp, rfl⟩

theorem drainAcked_spec (matching : Option (LogId NID)) (queue : List (InflightAppend NID)) :
    ∃ acked, queue = acked ++ (drainAcked matching queue).2 ∧
      (∀ x ∈ acked, x.lastLogId ≤ matching) ∧
      (drainAcked matching queue).1 = acked.getLast?.map (·.sendingTime) := by
  obtain ⟨acked, hqueue, hacked, hlast⟩ := drainAckedLoop_spec matching none queue
  exact ⟨acked, hqueue, hacked, by rw [drainAcked, hlast, Option.or_none]⟩

theorem getLogIdRange_prev {payload : Option (Payload NID)} {w : EventWatcher NID}
    {range : LogIdRange NID} (h : getLogIdRange payload w = some range) :
    ∃ p, payload = some p ∧ range.prev = p.prev := by
  unfold getLogIdRange at h
  split at h
  · cases h
  · obtain rfl := Option.some.inj h
    exact ⟨_, rfl, rfl⟩
  · dsimp only at h
    split at h
    · obtain rfl := Option.some.inj h
      exact ⟨_, rfl, rfl⟩
    split at h
    · cases h
    · obtain rfl := Option.some.inj h
      exact ⟨_, rfl, rfl⟩

omit [LinearOrder NID] in
/-- The range that is sent ends with the last entry read, or where it began. -/
theorem readLogEntries_spec (c : Context NID) (reader : Nat → Nat → List (Entry NID N D))
    (range : LogIdRange NID) :
    (readLogEntries c reader range).2.prev = range.prev ∧
      (readLogEntries c reader range).2.last =
        ((readLogEntries c reader range).1.getLast?.map Entry.logId).or range.prev ∧
      ∀ ent ∈ (readLogEntries c reader range).1,
        ∃ stop, ent ∈ reader (nextIndex range.prev) stop := by
  unfold readLogEntries
  dsimp only
  split
  · exact ⟨rfl, rfl, by simp⟩
  · split
    · exact ⟨rfl, rfl, by simp⟩
    · rename_i last hlast
      refine ⟨rfl, ?_, fun ent hent => ⟨_, hent⟩⟩
      rw [hlast]
      rfl

/-- A request goes on where the payload stands, and the payload goes on where the request ends. -/
theorem nextRequest_spec {c : Context NID} {reader : Nat → Nat → List (Entry NID N D)}
    {w : EventWatcher NID} {payload payload' : Option (Payload NID)}
    {req : AppendEntriesRequest NID N D}
    (h : nextRequest c reader w payload = some (req, payload')) :
    ∃ p, payload = some p ∧ req.prevLogId = p.prev ∧
      (∀ ent ∈ req.entries, ∃ stop, ent ∈ reader (nextIndex p.prev) stop) ∧
      ∀ p' ∈ payload', p'.prev = lastLogId req := by
  unfold nextRequest at h
  split at h
  · cases h
  rename_i range hrange
  obtain ⟨p, rfl, hprev⟩ := getLogIdRange_prev hrange
  obtain ⟨hsend, hlast, hread⟩ := readLogEntries_spec c reader range
  dsimp only at h
  split at h
  · cases h
  simp only [Option.some.injEq, Prod.mk.injEq] at h
  obtain ⟨rfl, rfl⟩ := h
  refine ⟨p, rfl, hsend.trans hprev, ?_, ?_⟩
  · intro ent hent
    rw [← hprev]
    exact hread ent hent
  · intro p' hp'
    have hp' : p' = p.updateMatching (readLogEntries c reader range).2.last := by
      unfold updateLogIdRange at hp'
      dsimp only at hp'
      split at hp'
      · cases hp'
      · exact (Option.some.inj hp').symm
    have hlast' : p'.prev = (readLogEntries c reader range).2.last := by
      rw [hp']
      cases p <;> rfl
    rw [hlast', hlast]
    unfold lastLogId
    dsimp only
    rw [hsend]

/-- A request with entries ends behind where it started. -/
theorem lt_lastLogId {req : AppendEntriesRequest NID N D} {prev : Option (LogId NID)}
    (hne : req.entries ≠ []) (hread : ∀ ent ∈ req.entries, prev < some ent.logId) :
    prev < lastLogId req := by
  unfold lastLogId
  rw [List.getLast?_eq_some_getLast hne]
  exact hread _ (List.getLast_mem hne)

namespace Session

/-! ## Sessions in which nothing unanswered is followed by an empty request -/

/-- The record of a request in the in-flight queue. -/
def inflight (r : AppendEntriesRequest NID N D × Nat) : InflightAppend NID := ⟨r.2, lastLogId r.1⟩

/-- The invariant of a session. The unanswered requests carry more and more, and at most the
    answered ones have been taken off the queue. -/
structure InOrder (s : Session NID N D) : Prop where
  queue : ∃ drained ≤ s.answered, s.queue = (s.sent.drop drained).map inflight
  answered : s.answered ≤ s.sent.length
  behind : ∀ r ∈ s.sent, ∀ p ∈ s.payload, lastLogId r.1 ≤ p.prev
  increasing : (s.sent.drop s.answered).Pairwise fun a b => lastLogId a.1 < lastLogId b.1
  heartbeats : ∀ t ∈ s.heartbeats, ∃ r ∈ s.sent.take s.answered, r.2 = t

theorem start_inOrder (context : Context NID) (watcher : EventWatcher NID) (payload : Payload NID) :
    (start context watcher payload : Session NID N D).InOrder :=
  ⟨⟨0, le_rfl, rfl⟩, le_rfl, by simp [start], by simp [start], by simp [start]⟩

theorem nextAppendRequest_inOrder {s : Session NID N D} (h : s.InOrder)
    {reader : Nat → Nat → List (Entry NID N D)} {now : Nat}
    (hreg : s.Regular (.poll reader now)) (hidle : s.IdleWhenEmpty (.poll reader now)) :
    (s.nextAppendRequest reader now).InOrder := by
  unfold nextAppendRequest
  split
  · exact h
  rename_i req payload hnext
  obtain ⟨p, hp, hprev, hread, hpayload⟩ := nextRequest_spec hnext
  have hbehind : ∀ r ∈ s.sent, lastLogId r.1 ≤ p.prev := fun r hr => h.behind r hr p hp
  have hprev_le : p.prev ≤ lastLogId req := by
    by_cases hne : req.entries = []
    · unfold lastLogId
      rw [hne, hprev]
      exact le_rfl
    · refine (lt_lastLogId hne ?_).le
      intro ent hent
      obtain ⟨stop, hmem⟩ := hread ent hent
      exact hreg p hp _ stop ent hmem rfl
  obtain ⟨drained, hdrained, hqueue⟩ := h.queue
  have hanswered := h.answered
  refine ⟨⟨drained, hdrained, ?_⟩, ?_, ?_, ?_, ?_⟩
  · show s.queue ++ [_] = ((s.sent ++ [(req, now)]).drop drained).map inflight
    rw [List.drop_append_of_le_length (by omega), List.map_append, hqueue]
    rfl
  · show s.answered ≤ (s.sent ++ [(req, now)]).length
    rw [List.length_append]
    omega
  · intro r hr p' hp'
    rw [hpayload p' hp']
    rcases List.mem_append.1 hr with hr | hr
    · exact (hbehind r hr).trans hprev_le
    · rw [List.mem_singleton.1 hr]
  · show ((s.sent ++ [(req, now)]).drop s.answered).Pairwise _
    rw [List.drop_append_of_le_length hanswered, List.pairwise_append]
    refine ⟨h.increasing, List.pairwise_singleton _ _, ?_⟩
    intro a ha b hb
    rw [List.mem_singleton.1 hb]
    by_cases hne : req.entries = []
    · -- nothing is unanswered
      rw [hidle req payload hnext hne, List.drop_length] at ha
      cases ha
    · refine (hbehind a (List.mem_of_mem_drop ha)).trans_lt (lt_lastLogId hne ?_)
      intro ent hent
      obtain ⟨stop, hmem⟩ := hread ent hent
      exact hreg p hp _ stop ent hmem rfl
  · intro t ht
    obtain ⟨r, hr, hrt⟩ := h.heartbeats t ht
    refine ⟨r, ?_, hrt⟩
    show r ∈ (s.sent ++ [(req, now)]).take s.answered
    rw [List.take_append_of_le_length hanswered]
    exact hr

/-- A response takes only answered requests off the queue. -/
theorem handleResponse_inOrder {s : Session NID N D} (h : s.InOrder)
    {matching : Option (LogId NID)} (hreg : s.Regular (.response matching)) :
    (s.handleResponse matching).InOrder := by
  obtain ⟨req, now, hreq, hmatching⟩ := hreg
  obtain ⟨drained, hdrained, hqueue⟩ := h.queue
  obtain ⟨acked, hsplit, hacked, hlast⟩ := drainAcked_spec matching s.queue
  have hlen : s.answered < s.sent.length := (List.getElem?_eq_some_iff.1 hreq).1
  have hdrop : s.sent.drop s.answered = (req, now) :: s.sent.drop (s.answered + 1) := by
    rw [List.drop_eq_getElem_cons hlen, (List.getElem?_eq_some_iff.1 hreq).2]
  have hincreasing := h.increasing
  rw [hdrop, List.pairwise_cons] at hincreasing
  -- where the acknowledged requests stand among all of them
  have hget : ∀ i, i < acked.length → ∃ r, s.sent[drained + i]? = some r ∧
      acked[i]? = some (inflight r) := by
    intro i hi
    have hi' : s.queue[i]? = acked[i]? := by
      rw [hsplit, List.getElem?_append_left hi]
    rw [hqueue, List.getElem?_map, List.getElem?_drop, List.getElem?_eq_getElem hi] at hi'
    obtain ⟨r, hr, hri⟩ := Option.map_eq_some_iff.1 hi'
    exact ⟨r, hr, by rw [List.getElem?_eq_getElem hi, hri]⟩
  have hbound : drained + acked.length ≤ s.answered + 1 := by
    by_contra hgt
    obtain ⟨r, hr, hri⟩ := hget (s.answered + 1 - drained) (by omega)
    have hpos : drained + (s.answered + 1 - drained) = s.answered + 1 := by omega
    rw [hpos] at hr
    have hmem : r ∈ s.sent.drop (s.answered + 1) := by
      refine List.mem_of_getElem? (i := 0) ?_
      rw [List.getElem?_drop]
      exact hr
    have hle : lastLogId r.1 ≤ matching := hacked _ (List.mem_of_getElem? hri)
    exact absurd (hle.trans hmatching) (not_le.2 (hincreasing.1 r hmem))
  unfold handleResponse
  dsimp only
  refine ⟨⟨drained + acked.length, hbound, ?_⟩, hlen, h.behind, hincreasing.2, ?_⟩
  · show (drainAcked matching s.queue).2 = _
    have hrest : (drainAcked matching s.queue).2 = s.queue.drop acked.length := by
      conv_rhs => rw [hsplit, List.drop_left]
    rw [hrest, hqueue, ← List.map_drop, List.drop_drop]
  · intro t ht
    rcases List.mem_append.1 ht with ht | ht
    · obtain ⟨r, hr, hrt⟩ := h.heartbeats t ht
      exact ⟨r, List.take_subset_take_left s.sent (Nat.le_succ s.answered) hr, hrt⟩
    · rw [hlast, Option.mem_toList, Option.map_eq_some_iff] at ht
      obtain ⟨x, hx, rfl⟩ := ht
      rw [List.getLast?_eq_getElem?] at hx
      have hpos : acked.length - 1 < acked.length := (List.getElem?_eq_some_iff.1 hx).1
      obtain ⟨r, hr, hri⟩ := hget _ hpos
      obtain rfl : x = inflight r := Option.some.inj (hx.symm.trans hri)
      refine ⟨r, ?_, rfl⟩
      refine List.mem_of_getElem? (i := drained + (acked.length - 1)) ?_
      rw [List.getElem?_take_of_lt (by show _ < s.answered + 1; omega)]
      exact hr

theorem step_inOrder {s : Session NID N D} (h : s.InOrder) {ev : SessionEvent NID N D}
    (hreg : s.Regular ev) (hidle : s.IdleWhenEmpty ev) : (s.step ev).InOrder := by
  cases ev with
  | ioAccepted io => exact ⟨h.queue, h.answered, h.behind, h.increasing, h.heartbeats⟩
  | ioSubmitted io => exact ⟨h.queue, h.answered, h.behind, h.increasing, h.heartbeats⟩
  | committed c => exact ⟨h.queue, h.answered, h.behind, h.increasing, h.heartbeats⟩
  | poll reader now => exact nextAppendRequest_inOrder h hreg hidle
  | response matching => exact handleResponse_inOrder h hreg

/-- Every sending time reported in a session is that of a request answered before, if requests
    without entries are generated only while no request is unanswered. -/
theorem heartbeats_answered (context : Context NID) (watcher : EventWatcher NID)
    (payload : Payload NID) (events : List (SessionEvent NID N D))
    (hregular : AllSteps step Regular (start context watcher payload) events)
    (hidle : AllSteps step IdleWhenEmpty (start context watcher payload) events) :
    ∀ t ∈ (runOps step (start context watcher payload) events).heartbeats,
      ∃ r ∈ (runOps step (start context watcher payload) events).sent.take
        (runOps step (start context watcher payload) events).answered, r.2 = t := by
  have hboth : AllSteps step (fun s ev => Regular s ev ∧ IdleWhenEmpty s ev)
      (start context watcher payload) events := hregular.and hidle
  exact (hboth.runOps (start_inOrder context watcher payload)
    fun s ev hok h => step_inOrder h hok.1 hok.2).heartbeats

/-! ### A session with one log entry and its commit -/

/-- The entry at index 1 of the leader at term 1. -/
def oneEntry : Entry (Fin 3) Unit Nat := ⟨⟨⟨1, some 0⟩, 1⟩, .normal 7⟩

/-- A reader of a log that holds this entry. -/
def oneReader (start stop : Nat) : List (Entry (Fin 3) Unit Nat) :=
  [oneEntry].filter fun ent => decide (start ≤ ent.logId.index) && decide (ent.logId.index < stop)

/-- The leader has submitted the entry, and streams to a follower that has nothing. -/
def oneSession : Session (Fin 3) Unit Nat :=
  start ⟨⟨1, 0⟩, 100⟩ ⟨.log ⟨⟨1, 0⟩, some oneEntry.logId⟩, .log ⟨⟨1, 0⟩, some oneEntry.logId⟩,
  none, true⟩
    (.logsSince none)

/-- The entry is sent at time 10. It is committed by the others, and the commit is sent at time
    20. Then the first request is answered. -/
def commitBeforeResponse : List (SessionEvent (Fin 3) Unit Nat) :=
  [.poll oneReader 10, .committed (some oneEntry.logId), .poll oneReader 20,
   .response (some oneEntry.logId)]

/-- The same, with the first request answered before the commit is sent. -/
def responseBeforeCommit : List (SessionEvent (Fin 3) Unit Nat) :=
  [.poll oneReader 10, .committed (some oneEntry.logId), .response (some oneEntry.logId),
   .poll oneReader 20, .response (some oneEntry.logId)]

/-- The reader returns nothing to a stream that has sent the entry. -/
theorem oneReader_above {prev : Option (LogId (Fin 3))}
    (h : prev = none ∨ prev = some oneEntry.logId)
    {start stop : Nat} {ent : Entry (Fin 3) Unit Nat} (hent : ent ∈ oneReader start stop)
    (hstart : nextIndex prev = start) : prev < some ent.logId := by
  rcases h with rfl | rfl
  · exact Option.none_lt_some
  · subst hstart
    simp [oneReader, oneEntry, nextIndex] at hent

theorem heartbeats_answered_responseBeforeCommit :
    (runOps step oneSession responseBeforeCommit).heartbeats = [10, 20] ∧
    ∀ t ∈ (runOps step oneSession responseBeforeCommit).heartbeats,
      ∃ r ∈ (runOps step oneSession responseBeforeCommit).sent.take
        (runOps step oneSession responseBeforeCommit).answered, r.2 = t := by
  refine ⟨by decide, heartbeats_answered _ _ _ responseBeforeCommit ?_ ?_⟩
  · refine ⟨?_, trivial, ⟨_, _, rfl, le_rfl⟩, ?_, ⟨_, _, rfl, le_rfl⟩, trivial⟩
    · intro p hp start stop ent hent hstart
      obtain rfl := Option.some.inj hp
      exact oneReader_above (Or.inl rfl) hent hstart
    · intro p hp start stop ent hent hstart
      obtain rfl := Option.some.inj hp
      exact oneReader_above (Or.inr rfl) hent hstart
  · refine ⟨?_, trivial, trivial, ?_, trivial, trivial⟩
    · intro req payload hreq hnil
      obtain ⟨rfl, -⟩ := Prod.mk.inj (Option.some.inj hreq)
      cases hnil
    · intro req payload hreq hnil
      rfl

/-- The response to the request of time 10 reports the time of the request that carries the
    commit, which is not answered. -/
theorem heartbeat_of_unanswered :
    AllSteps step Regular oneSession commitBeforeResponse ∧
      (runOps step oneSession commitBeforeResponse).heartbeats = [20] ∧
      ((runOps step oneSession commitBeforeResponse).sent.map (·.2)) = [10, 20] ∧
      (runOps step oneSession commitBeforeResponse).answered = 1 ∧
      ¬ ∀ t ∈ (runOps step oneSession commitBeforeResponse).heartbeats,
        ∃ r ∈ (runOps step oneSession commitBeforeResponse).sent.take
          (runOps step oneSession commitBeforeResponse).answered, r.2 = t := by
  have hbeats : (runOps step oneSession commitBeforeResponse).heartbeats = [20] := by decide
  have htimes : ((runOps step oneSession commitBeforeResponse).sent.take
      (runOps step oneSession commitBeforeResponse).answered).map (·.2) = [10] := by decide
  refine ⟨⟨?_, trivial, ?_, ⟨_, _, rfl, le_rfl⟩, trivial⟩, hbeats, by decide, by decide, ?_⟩
  · intro p hp start stop ent hent hstart
    obtain rfl := Option.some.inj hp
    exact oneReader_above (Or.inl rfl) hent hstart
  · intro p hp start stop ent hent hstart
    obtain rfl := Option.some.inj hp
    exact oneReader_above (Or.inr rfl) hent hstart
  · intro hall
    obtain ⟨r, hr, hr20⟩ := hall 20 (by rw [hbeats]; simp)
    have hmem : r.2 ∈ ((runOps step oneSession commitBeforeResponse).sent.take
        (runOps step oneSession commitBeforeResponse).answered).map (·.2) :=
      List.mem_map.2 ⟨r, hr, rfl⟩
    rw [htimes, hr20] at hmem
    exact absurd hmem (by decide)

end Session

end Replication

end ZenohRaft
