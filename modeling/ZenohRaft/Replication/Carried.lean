/-
  What the requests of one stream session carry: `StreamState::next_request`,
  `StreamState::read_log_entries` and `Payload::update_matching`.

  `H` is the log of the leader, with all entries that it has had by the end of the session, from
  index 0 on. While the leader stays, its log only grows, so that what the reader returns for a
  range are entries of `H` (`ReadsPrefix`), and what the watch of submitted IO shows is a log id of
  `H`. The reader may return less than was asked for, but not nothing.

  * `Session.carries`: the requests are contiguous. Those of a fixed range carry its entries, each
    once, and then the stream ends; those of an open range carry the submitted entries behind
    `prev`, each once, and every entry that has been submitted is carried after as many polls.
  * `OneByOne.largest_limit_carries_nothing`: where the `u64` sum of the first index to read and
    `max_payload_entries` wraps, the requests are empty and the stream does not end.

  The induction is on the events of the session. Its invariant (`Carrying`) says that the entries
  carried so far are those of `H` between the start of the payload and where the requests end.
-/
import ZenohRaft.Replication.Stream
import ZenohRaft.Purge.Inflight

namespace ZenohRaft

open Lib

variable {NID N D : Type} [LinearOrder NID]

namespace Replication

/-! ## Sequences of requests -/

/-- Each request goes on where the one before it ends, the first at `prev`. -/
def Contiguous : Option (LogId NID) → List (AppendEntriesRequest NID N D) → Prop
  | _, [] => True
  | prev, req :: reqs =>
    req.prevLogId = prev ∧ (∀ ent ∈ req.entries.head?, ent.logId.index = nextIndex prev) ∧
      Contiguous (lastLogId req) reqs

/-- Where the requests end that start at `prev`. -/
def endOf : Option (LogId NID) → List (AppendEntriesRequest NID N D) → Option (LogId NID)
  | prev, [] => prev
  | _, req :: reqs => endOf (lastLogId req) reqs

section Sequences

variable {prev : Option (LogId NID)} {reqs : List (AppendEntriesRequest NID N D)}
  {req : AppendEntriesRequest NID N D}

omit [LinearOrder NID] in
@[simp] theorem endOf_snoc : endOf prev (reqs ++ [req]) = lastLogId req := by
  induction reqs generalizing prev with
  | nil => rfl
  | cons r reqs ih => exact ih

omit [LinearOrder NID] in
theorem contiguous_snoc : Contiguous prev (reqs ++ [req]) ↔
    Contiguous prev reqs ∧ req.prevLogId = endOf prev reqs ∧
      ∀ ent ∈ req.entries.head?, ent.logId.index = nextIndex (endOf prev reqs) := by
  induction reqs generalizing prev with
  | nil =>
    simp only [List.nil_append, Contiguous, endOf, true_and, and_true]
  | cons r reqs ih =>
    simp only [List.cons_append, Contiguous, endOf, ih, and_assoc]

end Sequences

/-! ## Reading a part of the log -/

/-- What the reader returns for `[start, stop)` is a non-empty prefix of these entries of the
    log. -/
def ReadsPrefix (H : List (Entry NID N D)) (reader : Nat → Nat → List (Entry NID N D))
    (start stop : Nat) : Prop :=
  start < stop → reader start stop ≠ [] ∧ reader start stop <+: (H.drop start).take (stop - start)

/-- The log id of the last of some entries, in the log of which they are a part. -/
theorem inLog_of_getElem? {H : List (Entry NID N D)} (hH : FullLog (H.map Entry.logId)) {i : Nat}
    {ent : Entry NID N D} (h : H[i]? = some ent) :
    InLog (H.map Entry.logId) ent.logId ∧ ent.logId.index = i := by
  have hid : (H.map Entry.logId)[i]? = some ent.logId := by
    rw [List.getElem?_map, h]
    rfl
  have hindex := hH.indexed i _ hid
  refine ⟨?_, hindex⟩
  unfold InLog
  rw [hindex]
  exact hid

/-- The request for a range: it starts at `range.prev`, carries entries of the log, some if there
    are any in the range, and ends with the last of them. -/
theorem nextRequest_reads {H : List (Entry NID N D)} (hH : FullLog (H.map Entry.logId))
    {c : Context NID} (hmax : 1 ≤ c.maxPayloadEntries) {w : EventWatcher NID}
    (hleader : c.leaderChanged w.ioAccepted = false) {payload : Option (Payload NID)}
    {range : LogIdRange NID} (hlimit : nextIndex range.prev + c.maxPayloadEntries < 2 ^ 64)
    (hrange : getLogIdRange payload w = some range)
    {reader : Nat → Nat → List (Entry NID N D)}
    (hread : ReadsPrefix H reader (nextIndex range.prev)
      (min (nextIndex range.last) (nextIndex range.prev + c.maxPayloadEntries))) :
    ∃ req, nextRequest c reader w payload =
        some (req, updateLogIdRange payload (lastLogId req)) ∧
      req.prevLogId = range.prev ∧
      req.entries <+: H.drop (nextIndex range.prev) ∧
      (∀ ent ∈ req.entries.head?, ent.logId.index = nextIndex range.prev) ∧
      nextIndex (lastLogId req) = nextIndex range.prev + req.entries.length ∧
      req.entries.length ≤ nextIndex range.last - nextIndex range.prev ∧
      (nextIndex range.prev < nextIndex range.last → 0 < req.entries.length) ∧
      (InLogOpt (H.map Entry.logId) range.prev →
        InLogOpt (H.map Entry.logId) (lastLogId req)) := by
  unfold nextRequest
  rw [hrange]
  dsimp only
  rw [hleader]
  unfold readLogEntries
  dsimp only
  by_cases hempty : nextIndex range.last ≤ nextIndex range.prev
  · rw [if_pos hempty]
    exact ⟨_, rfl, rfl, List.nil_prefix, by simp, rfl, Nat.zero_le _, by omega, fun h => h⟩
  · obtain ⟨hne, hprefix⟩ := hread (by omega)
    rw [if_neg hempty, Nat.mod_eq_of_lt hlimit]
    obtain ⟨logs, hlogs⟩ : ∃ logs, logs = reader (nextIndex range.prev)
        (min (nextIndex range.last) (nextIndex range.prev + c.maxPayloadEntries)) := ⟨_, rfl⟩
    rw [← hlogs] at hne hprefix ⊢
    have hlast := List.getLast?_eq_some_getLast hne
    have hpos := List.length_pos_iff.2 hne
    have hlen : logs.length ≤ nextIndex range.last - nextIndex range.prev := by
      have := hprefix.length_le
      rw [List.length_take] at this
      omega
    have hsub : logs <+: H.drop (nextIndex range.prev) := hprefix.trans (List.take_prefix _ _)
    -- where the entries stand in the log
    have hget : ∀ i ent, logs[i]? = some ent → H[nextIndex range.prev + i]? = some ent := by
      intro i ent hent
      rw [← List.getElem?_drop]
      obtain ⟨rest, hrest⟩ := hsub
      rw [← hrest, List.getElem?_append_left (List.getElem?_eq_some_iff.1 hent).1]
      exact hent
    obtain ⟨hin, hindex⟩ := inLog_of_getElem? hH (hget _ _ (List.getLast?_eq_getElem? ▸ hlast))
    obtain ⟨req, hreq⟩ : ∃ req : AppendEntriesRequest NID N D,
        req = ⟨⟨c.leaderVote, true⟩, range.prev, logs, w.committed⟩ := ⟨_, rfl⟩
    have hlastId : lastLogId req = some (logs.getLast hne).logId := by
      rw [hreq]
      unfold lastLogId
      dsimp only
      rw [hlast]
      rfl
    have hentries : req.entries = logs := by rw [hreq]
    refine ⟨req, ?_⟩
    rw [hentries, hlastId]
    refine ⟨?_, by rw [hreq], hsub, ?_, ?_, hlen, fun _ => hpos, ?_⟩
    · rw [hlast, hreq]
      rfl
    · intro ent hent
      rw [List.head?_eq_getElem?] at hent
      exact (inLog_of_getElem? hH (hget 0 ent hent)).2
    · rw [nextIndex_some]
      omega
    · exact fun _ => hin.opt

/-! ## A session with one leader -/

/-- What is left of a payload behind the log id `e`. -/
def Payload.behind (e : Option (LogId NID)) : Payload NID → Option (Payload NID)
  | .logIdRange range =>
    if nextIndex range.last - nextIndex e = 0 then none
    else some (.logIdRange ⟨e, range.last⟩)
  | .logsSince _ => some (.logsSince e)

/-- The payload is a range of the log: a fixed one is not reversed, an open one starts at a log id
    of the log. -/
def Payload.On (H : List (Entry NID N D)) : Payload NID → Prop
  | .logIdRange range => nextIndex range.prev ≤ nextIndex range.last
  | .logsSince prev => InLogOpt (H.map Entry.logId) prev

instance (H : List (Entry NID N D)) (payload : Payload NID) : Decidable (payload.On H) :=
  match payload with
  | .logIdRange range => inferInstanceAs (Decidable (nextIndex range.prev ≤ nextIndex range.last))
  | .logsSince prev => inferInstanceAs (Decidable (InLogOpt (H.map Entry.logId) prev))

/-- The number of requests that an event asks for. -/
def SessionEvent.polls : SessionEvent NID N D → Nat
  | .poll _ _ => 1
  | _ => 0

/-- The number of requests that some events ask for. -/
def pollCount : List (SessionEvent NID N D) → Nat
  | [] => 0
  | ev :: events => ev.polls + pollCount events

namespace Session

/-- The requests of a session, in the order in which they were generated. -/
def requests (s : Session NID N D) : List (AppendEntriesRequest NID N D) := s.sent.map Prod.fst

/-- All entries that the requests carry. -/
def carried (s : Session NID N D) : List (Entry NID N D) :=
  s.requests.flatMap AppendEntriesRequest.entries

/-- The leader stays: IO is accepted under its vote, and what is submitted are entries of its log.
    In a poll the first index to read and `max_payload_entries` have a sum in `u64`, and the reader
    returns entries of the log. -/
def Undisturbed (H : List (Entry NID N D)) (s : Session NID N D) : SessionEvent NID N D → Prop
  | .ioAccepted io => s.context.leaderChanged io = false
  | .ioSubmitted io => InLogOpt (H.map Entry.logId) io.lastLogId ∧
      s.watcher.ioSubmitted.lastLogId ≤ io.lastLogId
  | .poll reader _ => ∀ range, getLogIdRange s.payload s.watcher = some range →
      nextIndex range.prev + s.context.maxPayloadEntries < 2 ^ 64 ∧
        ReadsPrefix H reader (nextIndex range.prev)
          (min (nextIndex range.last) (nextIndex range.prev + s.context.maxPayloadEntries))
  | _ => True

/-- Where the requests of a session for `payload` end. -/
def endsAt (payload : Payload NID) (s : Session NID N D) : Option (LogId NID) :=
  endOf payload.prev s.requests

/-- The index up to which a session for `payload` has something to send. -/
def goal (payload : Payload NID) (s : Session NID N D) : Nat :=
  match payload with
  | .logIdRange range => nextIndex range.last
  | .logsSince _ => nextIndex s.watcher.ioSubmitted.lastLogId

/-- What is left of the payload. -/
def Left (H : List (Entry NID N D)) (s : Session NID N D) : Payload NID → Prop
  | .logIdRange range =>
    nextIndex (s.endsAt (.logIdRange range)) ≤ nextIndex range.last ∧
      (s.sent ≠ [] ∧ s.payload = none ∧
          nextIndex (s.endsAt (.logIdRange range)) = nextIndex range.last ∨
        s.payload = some (.logIdRange ⟨s.endsAt (.logIdRange range), range.last⟩) ∧
          (s.sent = [] ∨ nextIndex (s.endsAt (.logIdRange range)) < nextIndex range.last))
  | .logsSince prev =>
    s.payload = some (.logsSince (s.endsAt (.logsSince prev))) ∧
      InLogOpt (H.map Entry.logId) (s.endsAt (.logsSince prev)) ∧
      nextIndex (s.endsAt (.logsSince prev)) ≤
        max (nextIndex prev) (nextIndex s.watcher.ioSubmitted.lastLogId)

/-- The invariant: the entries carried are those of the log from the start of the payload to where
    the requests end. -/
structure Carrying (H : List (Entry NID N D)) (payload : Payload NID) (s : Session NID N D) :
    Prop where
  entriesAllowed : 1 ≤ s.context.maxPayloadEntries
  leading : s.context.leaderChanged s.watcher.ioAccepted = false
  submitted : InLogOpt (H.map Entry.logId) s.watcher.ioSubmitted.lastLogId
  contiguous : Contiguous payload.prev s.requests
  carried : s.carried <+: H.drop (nextIndex payload.prev)
  count : nextIndex (s.endsAt payload) = nextIndex payload.prev + s.carried.length
  left : s.Left H payload

section Carrying

variable {H : List (Entry NID N D)} {payload : Payload NID} {s : Session NID N D}

theorem start_carrying {context : Context NID} {watcher : EventWatcher NID}
    (hmax : 1 ≤ context.maxPayloadEntries)
    (hleader : context.leaderChanged watcher.ioAccepted = false)
    (hsubmitted : InLogOpt (H.map Entry.logId) watcher.ioSubmitted.lastLogId)
    (hpayload : payload.On H) :
    (start context watcher payload : Session NID N D).Carrying H payload := by
  refine ⟨hmax, hleader, hsubmitted, trivial, List.nil_prefix, rfl, ?_⟩
  cases payload with
  | logIdRange range => exact ⟨hpayload, Or.inr ⟨rfl, Or.inl rfl⟩⟩
  | logsSince prev => exact ⟨rfl, hpayload, Nat.le_max_left _ _⟩

/-- What a poll asks for: from where the requests end to the goal. It asks for nothing only at the
    goal. -/
theorem Carrying.getLogIdRange (h : s.Carrying H payload) (hH : FullLog (H.map Entry.logId)) :
    Replication.getLogIdRange s.payload s.watcher = none ∧
        s.goal payload ≤ nextIndex (s.endsAt payload) ∨
      ∃ range, Replication.getLogIdRange s.payload s.watcher = some range ∧
        range.prev = s.endsAt payload ∧
        nextIndex range.last = max (s.goal payload) (nextIndex (s.endsAt payload)) := by
  have hleft := h.left
  cases payload with
  | logIdRange range =>
    obtain ⟨hle, ⟨-, hp, hend⟩ | ⟨hp, -⟩⟩ := hleft
    · rw [hp]
      exact Or.inl ⟨rfl, hend.ge⟩
    · rw [hp]
      exact Or.inr ⟨_, rfl, rfl, (max_eq_left hle).symm⟩
  | logsSince prev =>
    obtain ⟨hp, hin, -⟩ := hleft
    rw [hp]
    obtain ⟨e, he⟩ : ∃ e, e = s.endsAt (.logsSince prev) := ⟨_, rfl⟩
    rw [← he] at hin ⊢
    have hsome : nextIndex (max s.watcher.ioSubmitted.lastLogId e) =
        max (nextIndex s.watcher.ioSubmitted.lastLogId) (nextIndex e) := by
      rcases le_total s.watcher.ioSubmitted.lastLogId e with hle | hle
      · rw [max_eq_right hle, max_eq_right ((hH.le_iff h.submitted hin).1 hle)]
      · rw [max_eq_left hle, max_eq_left ((hH.le_iff hin h.submitted).1 hle)]
    unfold Replication.getLogIdRange
    dsimp only
    split
    · exact Or.inr ⟨_, rfl, rfl, hsome⟩
    · rename_i hlt
      split
      · exact Or.inl ⟨rfl, (hH.le_iff h.submitted hin).1 (not_lt.1 hlt)⟩
      · exact Or.inr ⟨_, rfl, rfl, hsome⟩

/-- What the payload is after a request that ends at `e`. -/
theorem Carrying.updateLogIdRange (h : s.Carrying H payload)
    {range : LogIdRange NID} (hrange : Replication.getLogIdRange s.payload s.watcher = some range)
    (e : Option (LogId NID)) :
    Replication.updateLogIdRange s.payload e = payload.behind e := by
  have hleft := h.left
  cases payload with
  | logIdRange fixed =>
    obtain ⟨-, ⟨-, hp, -⟩ | ⟨hp, -⟩⟩ := hleft
    · rw [hp] at hrange
      cases hrange
    · rw [hp]
      unfold Replication.updateLogIdRange
      simp only [Payload.updateMatching, Payload.len, Option.some.injEq, Payload.behind]
  | logsSince prev =>
    rw [hleft.1]
    rfl

/-- One poll: a request that goes on where the requests end, with an entry if the goal is not
    reached. -/
theorem Carrying.poll (h : s.Carrying H payload) (hH : FullLog (H.map Entry.logId))
    {reader : Nat → Nat → List (Entry NID N D)} {now : Nat}
    (hread : s.Undisturbed H (.poll reader now)) :
    (s.nextAppendRequest reader now).Carrying H payload ∧
      min (s.goal payload) (nextIndex (s.endsAt payload) + 1) ≤
        nextIndex ((s.nextAppendRequest reader now).endsAt payload) := by
  rcases h.getLogIdRange hH with ⟨hnone, hgoal⟩ | ⟨range, hrange, hprev, hlast⟩
  · have hsame : s.nextAppendRequest reader now = s := by
      unfold nextAppendRequest nextRequest
      rw [hnone]
    rw [hsame]
    exact ⟨h, by omega⟩
  · obtain ⟨req, hnext, hreqPrev, hentries, hhead, hend, hn, hpos, hin⟩ :=
      nextRequest_reads hH h.entriesAllowed h.leading (hread range hrange).1 hrange
        (hread range hrange).2
    have hupdate := h.updateLogIdRange hrange (lastLogId req)
    have hcount := h.count
    rw [hprev] at hreqPrev hentries hhead hend hn hpos hin
    rw [hlast] at hn hpos
    obtain ⟨s', hs'⟩ : ∃ s', s' = s.nextAppendRequest reader now := ⟨_, rfl⟩
    rw [← hs']
    unfold nextAppendRequest at hs'
    rw [hnext] at hs'
    dsimp only at hs'
    have hreqs : s'.requests = s.requests ++ [req] := by
      rw [hs']
      exact List.map_append
    have hends : s'.endsAt payload = lastLogId req := by
      unfold endsAt
      rw [hreqs, endOf_snoc]
    have hcarried : s'.carried = s.carried ++ req.entries := by
      unfold Session.carried
      rw [hreqs, List.flatMap_append, List.flatMap_singleton]
    refine ⟨⟨?_, ?_, ?_, ?_, ?_, ?_, ?_⟩, ?_⟩
    · rw [hs']
      exact h.entriesAllowed
    · rw [hs']
      exact h.leading
    · rw [hs']
      exact h.submitted
    · rw [hreqs, contiguous_snoc]
      exact ⟨h.contiguous, hreqPrev, hhead⟩
    · -- the entries of the request follow those carried before
      rw [hcarried]
      obtain ⟨rest, hrest⟩ := h.carried
      rw [hcount, ← List.drop_drop, ← hrest, List.drop_left] at hentries
      rw [← hrest]
      exact (List.prefix_append_right_inj _).2 hentries
    · rw [hends, hend, hcarried, List.length_append]
      omega
    · have hleft := h.left
      cases payload with
      | logIdRange fixed =>
        have hgoal : s.goal (.logIdRange fixed) = nextIndex fixed.last := rfl
        have hle := hleft.1
        have hsent : s'.sent ≠ [] := by
          rw [hs']
          exact List.append_ne_nil_of_right_ne_nil _ (List.cons_ne_nil _ _)
        have hpayload : s'.payload = Replication.updateLogIdRange s.payload (lastLogId req) := by
          rw [hs']
        unfold Left
        dsimp only
        rw [hends, hpayload, hupdate]
        unfold Payload.behind
        dsimp only
        refine ⟨by omega, ?_⟩
        split
        · exact Or.inl ⟨hsent, rfl, by omega⟩
        · exact Or.inr ⟨rfl, Or.inr (by omega)⟩
      | logsSince prev =>
        have hgoal : s.goal (.logsSince prev) = nextIndex s.watcher.ioSubmitted.lastLogId := rfl
        obtain ⟨-, hin', hle⟩ := hleft
        unfold Left
        dsimp only
        rw [hends, hend]
        refine ⟨?_, hin hin', ?_⟩
        · rw [hs']
          exact hupdate
        · rw [hs']
          dsimp only
          omega
    · rw [hends, hend]
      omega

/-- One event: nothing is lost, and the goal does not go back. A poll brings the requests one entry
    nearer to it. -/
theorem Carrying.step (h : s.Carrying H payload) (hH : FullLog (H.map Entry.logId))
    {ev : SessionEvent NID N D} (hev : s.Undisturbed H ev) :
    (s.step ev).Carrying H payload ∧ s.goal payload ≤ (s.step ev).goal payload ∧
      min (s.goal payload) (nextIndex (s.endsAt payload) + ev.polls) ≤
        nextIndex ((s.step ev).endsAt payload) := by
  cases ev with
  | ioAccepted io =>
    exact ⟨⟨h.entriesAllowed, hev, h.submitted, h.contiguous, h.carried, h.count, h.left⟩,
      le_rfl, Nat.min_le_right _ _⟩
  | ioSubmitted io =>
    have hmono := (hH.le_iff h.submitted hev.1).1 hev.2
    refine ⟨⟨h.entriesAllowed, h.leading, hev.1, h.contiguous, h.carried, h.count, ?_⟩, ?_,
      Nat.min_le_right _ _⟩
    · have hleft := h.left
      cases payload with
      | logIdRange range => exact hleft
      | logsSince prev =>
        exact ⟨hleft.1, hleft.2.1, hleft.2.2.trans (max_le_max le_rfl hmono)⟩
    · cases payload with
      | logIdRange range => exact le_rfl
      | logsSince prev => exact hmono
  | committed c =>
    exact ⟨⟨h.entriesAllowed, h.leading, h.submitted, h.contiguous, h.carried, h.count, h.left⟩,
      le_rfl, Nat.min_le_right _ _⟩
  | poll reader now =>
    obtain ⟨hcarry, hadvance⟩ := h.poll hH hev
    refine ⟨hcarry, ?_, hadvance⟩
    have hwatch : (s.nextAppendRequest reader now).watcher.ioSubmitted = s.watcher.ioSubmitted := by
      unfold nextAppendRequest
      split <;> rfl
    cases payload with
    | logIdRange range => exact le_rfl
    | logsSince prev => exact (congrArg (fun io => nextIndex io.lastLogId) hwatch).ge
  | response matching =>
    exact ⟨⟨h.entriesAllowed, h.leading, h.submitted, h.contiguous, h.carried, h.count, h.left⟩,
      le_rfl, Nat.min_le_right _ _⟩

/-- A run: the requests come as near to the goal as there are polls. -/
theorem Carrying.run (hH : FullLog (H.map Entry.logId)) {events : List (SessionEvent NID N D)}
    (h : s.Carrying H payload) (hevents : AllSteps Session.step (Undisturbed H) s events) :
    (runOps Session.step s events).Carrying H payload ∧
      min (s.goal payload) (nextIndex (s.endsAt payload) + pollCount events) ≤
        nextIndex ((runOps Session.step s events).endsAt payload) := by
  induction events generalizing s with
  | nil => exact ⟨h, Nat.min_le_right _ _⟩
  | cons ev events ih =>
    obtain ⟨hstep, hgoal, hadvance⟩ := h.step hH hevents.1
    obtain ⟨hrun, hreach⟩ := ih hstep hevents.2
    refine ⟨hrun, ?_⟩
    unfold pollCount
    rw [runOps_cons]
    omega

theorem sent_step (s : Session NID N D) (ev : SessionEvent NID N D) :
    s.sent <+: (s.step ev).sent := by
  cases ev with
  | poll reader now =>
    show s.sent <+: (s.nextAppendRequest reader now).sent
    unfold nextAppendRequest
    split
    · exact List.prefix_rfl
    · exact List.prefix_append _ _
  | _ => exact List.prefix_rfl

theorem sent_run (s : Session NID N D) (events : List (SessionEvent NID N D)) :
    s.sent <+: (runOps Session.step s events).sent := by
  induction events generalizing s with
  | nil => exact List.prefix_rfl
  | cons ev events ih => exact (sent_step s ev).trans (ih _)

/-- The first poll of a fixed range generates a request, also where the range is empty. -/
theorem Carrying.sent_ne_nil (hH : FullLog (H.map Entry.logId)) {range : LogIdRange NID}
    {events : List (SessionEvent NID N D)} (h : s.Carrying H (.logIdRange range))
    (hevents : AllSteps Session.step (Undisturbed H) s events)
    (hpolls : 0 < pollCount events) :
    (runOps Session.step s events).sent ≠ [] := by
  induction events generalizing s with
  | nil => exact absurd hpolls (lt_irrefl 0)
  | cons ev events ih =>
    have hstep := (h.step hH hevents.1).1
    unfold pollCount at hpolls
    cases ev with
    | poll reader now =>
      -- where the range is not at its end after this poll, something has been sent
      have hsent : (s.step (.poll reader now)).sent ≠ [] := by
        intro hnil
        have hs : s.sent = [] := List.prefix_nil.1 (hnil ▸ sent_step s (.poll reader now))
        obtain ⟨-, ⟨hne, -, -⟩ | ⟨hp, -⟩⟩ := h.left
        · exact hne hs
        · have hrange : Replication.getLogIdRange s.payload s.watcher =
              some ⟨s.endsAt (.logIdRange range), range.last⟩ := by
            rw [hp]
            rfl
          obtain ⟨hlimit, hread⟩ := hevents.1 _ hrange
          obtain ⟨req, hnext, -⟩ :=
            nextRequest_reads hH h.entriesAllowed h.leading hlimit hrange hread
          have happend : (s.nextAppendRequest reader now).sent = s.sent ++ [(req, now)] := by
            unfold nextAppendRequest
            rw [hnext]
          exact List.append_ne_nil_of_right_ne_nil _ (List.cons_ne_nil _ _)
            (happend.symm.trans hnil)
      intro hnil
      exact hsent (List.prefix_nil.1 (hnil ▸ sent_run _ events))
    | _ => exact ih hstep hevents.2 (by simpa [SessionEvent.polls] using hpolls)

end Carrying

/-- The session for `payload` after some events. -/
def after (context : Context NID) (watcher : EventWatcher NID) (payload : Payload NID)
    (events : List (SessionEvent NID N D)) : Session NID N D :=
  runOps step (start context watcher payload) events

/-- The requests of a session in which the leader stays: they are contiguous, and together carry a
    prefix of the log behind `payload.prev`. Of a fixed range they carry no more than it has; where
    the payload is used up they have carried all of it and no request follows, which is so after as
    many polls as it has entries, and one for an empty range. Of an open range they carry what is
    submitted, and all that was submitted before as many polls. -/
theorem carries (H : List (Entry NID N D)) (hH : FullLog (H.map Entry.logId))
    (context : Context NID) (watcher : EventWatcher NID) (payload : Payload NID)
    (hmax : 1 ≤ context.maxPayloadEntries) (hpayload : payload.On H)
    (hleader : context.leaderChanged watcher.ioAccepted = false)
    (hsubmitted : InLogOpt (H.map Entry.logId) watcher.ioSubmitted.lastLogId)
    (events : List (SessionEvent NID N D))
    (hevents : AllSteps step (Undisturbed H) (start context watcher payload) events) :
    Contiguous payload.prev (after context watcher payload events).requests ∧
    (after context watcher payload events).carried <+: H.drop (nextIndex payload.prev) ∧
    (∀ range, payload = .logIdRange range →
      (after context watcher payload events).carried.length ≤
        nextIndex range.last - nextIndex range.prev ∧
      ((after context watcher payload events).payload = none →
        (after context watcher payload events).carried.length =
          nextIndex range.last - nextIndex range.prev ∧
        ∀ reader now, (after context watcher payload events).nextAppendRequest reader now =
          after context watcher payload events) ∧
      (max 1 (nextIndex range.last - nextIndex range.prev) ≤ pollCount events →
        (after context watcher payload events).payload = none)) ∧
    (∀ prev, payload = .logsSince prev →
      nextIndex prev + (after context watcher payload events).carried.length ≤
        max (nextIndex prev)
          (nextIndex (after context watcher payload events).watcher.ioSubmitted.lastLogId) ∧
      ∀ first rest, events = first ++ rest →
        nextIndex (after context watcher payload first).watcher.ioSubmitted.lastLogId -
            nextIndex prev ≤ pollCount rest →
        nextIndex (after context watcher payload first).watcher.ioSubmitted.lastLogId ≤
          nextIndex prev + (after context watcher payload events).carried.length) := by
  have hstart := start_carrying (D := D) hmax hleader hsubmitted hpayload
  obtain ⟨hrun, hreach⟩ := hstart.run hH hevents
  have hcount := hrun.count
  have hleft := hrun.left
  refine ⟨hrun.contiguous, hrun.carried, ?_, ?_⟩
  · rintro range rfl
    obtain ⟨hle, hrest⟩ := hleft
    have hcount' : nextIndex ((runOps step (start context watcher (.logIdRange range))
        events).endsAt (.logIdRange range)) = nextIndex range.prev +
          (after context watcher (.logIdRange range) events).carried.length := hcount
    refine ⟨by omega, fun hnone => ⟨?_, fun reader now => ?_⟩, fun hpolls => ?_⟩
    · rcases hrest with ⟨-, -, hend⟩ | ⟨hp, -⟩
      · omega
      · exact absurd (hp.symm.trans hnone) (Option.some_ne_none _)
    · unfold nextAppendRequest nextRequest
      rw [hnone]
      rfl
    · rcases hrest with ⟨-, hp, -⟩ | ⟨-, hnil | hlt⟩
      · exact hp
      · exact absurd hnil (hstart.sent_ne_nil hH hevents (by omega))
      · have hreach' : min (nextIndex range.last) (nextIndex range.prev + pollCount events) ≤ _ :=
          hreach
        omega
  · rintro prev rfl
    refine ⟨?_, ?_⟩
    · have hle : _ ≤ max (nextIndex prev) _ := hleft.2.2
      rw [hcount] at hle
      exact hle
    · rintro first rest rfl hpolls
      rw [allSteps_append] at hevents
      obtain ⟨hfirst, -⟩ := hstart.run hH hevents.1
      have hreach' := (hfirst.run hH hevents.2).2
      rw [← runOps_append, hcount, hfirst.count] at hreach'
      have hmin : min (nextIndex (after context watcher (.logsSince prev)
          first).watcher.ioSubmitted.lastLogId) (nextIndex prev + _ + pollCount rest) ≤
          nextIndex prev + (after context watcher (.logsSince prev)
            (first ++ rest)).carried.length := hreach'
      omega

/-! ### A log of three entries, read one by one -/

namespace OneByOne

def entry (index : Nat) : Entry Nat Unit Nat := ⟨⟨⟨1, some 0⟩, index⟩, .normal index⟩

def log : List (Entry Nat Unit Nat) := [entry 0, entry 1, entry 2]

/-- A reader that returns one entry. -/
def reader (start stop : Nat) : List (Entry Nat Unit Nat) :=
  (log.drop start).take (min 1 (stop - start))

def context : Context Nat := ⟨⟨1, 0⟩, 2⟩

/-- The leader has submitted the whole log. -/
def watcher : EventWatcher Nat :=
  ⟨.log ⟨⟨1, 0⟩, some (entry 2).logId⟩, .log ⟨⟨1, 0⟩, some (entry 2).logId⟩, none, true⟩

def polls : List (SessionEvent Nat Unit Nat) := [.poll reader 10, .poll reader 20, .poll reader 30]

theorem reader_reads {start : Nat} (h : start < 3) (stop : Nat) :
    ReadsPrefix log reader start stop := by
  intro hlt
  refine ⟨?_, List.take_prefix_take_left (Nat.min_le_right _ _)⟩
  have hlen : (reader start stop).length = min (min 1 (stop - start)) (3 - start) := by
    unfold reader
    rw [List.length_take, List.length_drop]
    rfl
  intro hnil
  rw [hnil, List.length_nil] at hlen
  omega

theorem undisturbed (payload : Payload Nat)
    (h : ∀ events ∈ polls.inits, ∀ range ∈
      Replication.getLogIdRange (after context watcher payload events).payload
        (after context watcher payload events).watcher, nextIndex range.prev < 3 ∧
      nextIndex range.prev +
        (after context watcher payload events).context.maxPayloadEntries < 2 ^ 64) :
    AllSteps step (Undisturbed log) (start context watcher payload) polls := by
  have hpoll : ∀ events ∈ polls.inits, ∀ now,
      Undisturbed log (after context watcher payload events) (.poll reader now) :=
    fun events hin now range hrange =>
      ⟨(h events hin range hrange).2, reader_reads (h events hin range hrange).1 _⟩
  exact ⟨hpoll [] (by simp [polls]) 10, hpoll [.poll reader 10] (by simp [polls]) 20,
    hpoll [.poll reader 10, .poll reader 20] (by simp [polls]) 30, trivial⟩

/-- Three polls carry the fixed range up to index 2 and end the stream. An open range that starts at
    index 1 is carried by two. -/
theorem carries_oneByOne :
    ((after context watcher (.logIdRange ⟨none, some (entry 2).logId⟩) polls).payload = none ∧
      (after context watcher (.logIdRange ⟨none, some (entry 2).logId⟩) polls).carried.length = 3) ∧
    Contiguous (some (entry 0).logId)
      (after context watcher (.logsSince (some (entry 0).logId)) polls).requests ∧
    3 ≤ 1 + (after context watcher (.logsSince (some (entry 0).logId)) polls).carried.length := by
  have hfixed := carries log (by decide +kernel) context watcher
    (.logIdRange ⟨none, some (entry 2).logId⟩) (by decide) (by decide) (by decide)
    (by decide +kernel)
    polls (undisturbed _ (by decide +kernel))
  have hopen := carries log (by decide +kernel) context watcher (.logsSince (some (entry 0).logId))
    (by decide) (by decide +kernel) (by decide) (by decide +kernel)
    polls (undisturbed _ (by decide +kernel))
  have hended := (hfixed.2.2.1 _ rfl).2.2 (by decide)
  refine ⟨⟨hended, ((hfixed.2.2.1 _ rfl).2.1 hended).1⟩, hopen.1, ?_⟩
  exact (hopen.2.2.2 _ rfl).2 [] polls rfl (by decide)

/-- The entries behind index 0. -/
def range : LogIdRange Nat := ⟨some (entry 0).logId, some (entry 2).logId⟩

/-- With the largest limit a poll changes nothing but the list of requests. -/
theorem polls_largest_limit (n : Nat) {s : Session Nat Unit Nat}
    (hctx : s.context = ⟨⟨1, 0⟩, 2 ^ 64 - 1⟩) (hw : s.watcher = watcher)
    (hp : s.payload = some (.logIdRange range)) (hc : s.carried = []) :
    (runOps step s (List.replicate n (.poll reader 0))).carried = [] ∧
      (runOps step s (List.replicate n (.poll reader 0))).payload = some (.logIdRange range) := by
  induction n generalizing s with
  | zero => exact ⟨hc, hp⟩
  | succ n ih =>
    have hnext : nextRequest s.context reader s.watcher s.payload =
        some (⟨⟨⟨1, 0⟩, true⟩, range.prev, [], none⟩, some (.logIdRange range)) := by
      have hread : readLogEntries ⟨⟨1, 0⟩, 2 ^ 64 - 1⟩ reader range =
          ([], ⟨range.prev, range.prev⟩) := by decide +kernel
      rw [hctx, hw, hp]
      unfold nextRequest
      rw [show Replication.getLogIdRange (some (.logIdRange range)) watcher = some range from rfl]
      dsimp only
      rw [hread]
      rfl
    rw [List.replicate_succ, runOps_cons]
    have hs : s.step (.poll reader 0) = s.nextAppendRequest reader 0 := rfl
    unfold nextAppendRequest at hs
    rw [hnext] at hs
    rw [hs]
    have hseen : ({ s.watcher with committedSeen := true } : EventWatcher Nat) = watcher := by
      rw [hw]
      rfl
    refine ih hctx hseen rfl ?_
    unfold carried requests at hc ⊢
    rw [List.map_append, List.flatMap_append, hc]
    rfl

/-- The fixed range behind index 0, read with the largest limit. The reader is asked for the
    entries from index 1 to index 0: no request carries an entry, and the range is never used up. -/
theorem largest_limit_carries_nothing :
    (∀ stop, ReadsPrefix log reader (nextIndex range.prev) stop) ∧ ∀ n : Nat,
      let s := after ⟨⟨1, 0⟩, 2 ^ 64 - 1⟩ watcher (.logIdRange range)
        (List.replicate n (.poll reader 0))
      s.carried = [] ∧ s.payload = some (.logIdRange range) :=
  ⟨reader_reads (by decide), fun n => polls_largest_limit n rfl rfl rfl rfl⟩

end OneByOne

end Session

end Replication

end ZenohRaft
