/-
  A streaming task next to a RaftCore that steps down: `StreamState::get_log_id_range`,
  `non_reversed_log_id_range`, and the commands of `RaftCore` that the task can observe.

  The task learns the end of the log from the watch of submitted IO, and that its leader is gone
  from the watch of accepted IO. It takes a range from the first and looks at the second only after
  it has read the entries. The range is not reversed by log id. Log ids are ordered by leader first,
  so that it may still be reversed by index.

  `StreamRace` is RaftCore, as far as the task can observe it, together with the task. RaftCore runs
  any commands; the task wakes up and reads at any time between them. `H` is the log of the leader
  the task works for, with all entries that it has had.

  * `StreamRace.ranges_forward`: no range is reversed, if the task takes ranges only while the watch
    of submitted IO shows an IO of its leader.
  * `Overtaken.range_reversed`: the leader of term 1 has replicated up to index 3 when the leader of
    term 2 overwrites its log from index 1 on. The task that wakes up then takes the range from
    index 4 to index 2.

  Closing a stream drops the senders of the task and does not wait for it. What the task then picks
  among several changes is not determined, so that its end is no event here.
-/
import ZenohRaft.CommandMerge
import ZenohRaft.Log.Written
import ZenohRaft.Replication.Carried

namespace ZenohRaft

open Lib

variable {NID N D : Type} [LinearOrder NID]

/-- The IO id that `RaftCore` broadcasts as accepted when it runs a command. -/
def Command.announces : Command NID N D → Option (IOId NID)
  | .updateIOProgress _ io => some io
  | .appendEntries committedVote entries => some (.newLogIo committedVote (lastEntryId entries))
  | .saveVote vote => some (.new vote)
  | _ => none

/-- The IO id that is submitted when a command runs. -/
def Command.submits : Command NID N D → Option (IOId NID)
  | .stateMachine (.installFullSnapshot io _) => some (.log io)
  | c => c.announces

namespace Replication

/-- `StreamState::next_request`, after `get_log_id_range`. -/
def finishRequest (c : Context NID) (reader : Nat → Nat → List (Entry NID N D))
    (w : EventWatcher NID) (payload : Option (Payload NID)) (range : LogIdRange NID) :
    Option (AppendEntriesRequest NID N D × Option (Payload NID)) :=
  let (entries, sendingRange) := readLogEntries c reader range
  if c.leaderChanged w.ioAccepted then none
  else some (⟨⟨c.leaderVote, true⟩, sendingRange.prev, entries, w.committed⟩,
    updateLogIdRange payload sendingRange.last)

/-- RaftCore and one streaming task. -/
structure StreamRace (NID N D : Type) where
  /-- what a log reader can read -/
  log : List (Entry NID N D)
  /-- the submitted cursor of `log_progress` -/
  submitted : Option (IOId NID)
  /-- what the watch channels hold -/
  watcher : EventWatcher NID
  /-- `StreamState::payload` -/
  payload : Option (Payload NID)
  /-- the range that the task is reading -/
  reading : Option (LogIdRange NID)
  /-- all ranges that `get_log_id_range` has returned -/
  ranges : List (LogIdRange NID)

/-- What happens. -/
inductive RaceEvent (NID N D : Type) where
  /-- RaftCore runs a command -/
  | command (c : Command NID N D)
  /-- `trigger_routine_actions` broadcasts the submitted IO -/
  | broadcast
  /-- the commit is broadcast -/
  | committed (committed : Option (LogId NID))
  /-- the task takes a range -/
  | wake
  /-- the task reads and makes its request -/
  | read (reader : Nat → Nat → List (Entry NID N D))

namespace StreamRace

variable (mode : LeaderIdMode) (context : Context NID)

/-- RaftCore runs a command. -/
def runCommand (s : StreamRace NID N D) (c : Command NID N D) : StreamRace NID N D :=
  { s with
    log := c.writeLog s.log
    submitted := c.submits.or s.submitted
    watcher := { s.watcher with
      ioAccepted := (c.announces.map (sendIfGreater mode s.watcher.ioAccepted)).getD
        s.watcher.ioAccepted } }

/-- The part of `RaftCore::trigger_routine_actions` that is about submitted IO. -/
def broadcastSubmitted (s : StreamRace NID N D) : StreamRace NID N D :=
  { s with watcher := { s.watcher with
      ioSubmitted := (s.submitted.map (sendIfGreater mode s.watcher.ioSubmitted)).getD
        s.watcher.ioSubmitted } }

/-- The task takes a range, unless it is reading one or has to wait. -/
def wake (s : StreamRace NID N D) : StreamRace NID N D :=
  match s.reading, getLogIdRange s.payload s.watcher with
  | none, some range => { s with reading := some range, ranges := s.ranges ++ [range] }
  | _, _ => s

/-- The task reads its range and makes a request. Without one the stream ends. -/
def read (s : StreamRace NID N D) (reader : Nat → Nat → List (Entry NID N D)) :
    StreamRace NID N D :=
  match s.reading with
  | none => s
  | some range =>
    match finishRequest context reader s.watcher s.payload range with
    | none => { s with reading := none, payload := none }
    | some (_, payload) =>
      { s with
        reading := none
        payload := payload
        watcher := { s.watcher with committedSeen := true } }

/-- One event. -/
def step (s : StreamRace NID N D) : RaceEvent NID N D → StreamRace NID N D
  | .command c => s.runCommand mode c
  | .broadcast => s.broadcastSubmitted mode
  | .committed c => { s with watcher := { s.watcher with committed := c, committedSeen := false } }
  | .wake => s.wake
  | .read reader => s.read context reader

/-- What RaftCore and the log store keep to. IO of the leader of the task is submitted only while no
    IO of another one is accepted, and is about its log. An append of another leader goes beyond
    what is accepted. The reader returns entries of the log. -/
def Disciplined (H : List (Entry NID N D)) (s : StreamRace NID N D) : RaceEvent NID N D → Prop
  | .command c =>
    (∀ io ∈ c.submits, context.leaderChanged io = false →
      context.leaderChanged s.watcher.ioAccepted = false ∧
        InLogOpt (H.map Entry.logId) io.lastLogId) ∧
    ∀ V entries, c = .appendEntries V entries →
      (V = context.leaderVote → ∀ ent ∈ entries, ent ∈ H) ∧
      (V ≠ context.leaderVote →
        (IOId.newLogIo V (lastEntryId entries)).gt mode s.watcher.ioAccepted = true)
  | .read reader => ∀ start stop, ∀ ent ∈ reader start stop, ent ∈ s.log
  | _ => True

/-- The task takes a range only while the watch of submitted IO shows an IO of its leader. -/
def ShowsOwn (s : StreamRace NID N D) : RaceEvent NID N D → Prop
  | .wake => context.leaderChanged s.watcher.ioSubmitted = false
  | _ => True

/-- A task that starts to stream behind `prev`. -/
def start (log : List (Entry NID N D)) (submitted : Option (IOId NID)) (watcher : EventWatcher NID)
    (prev : Option (LogId NID)) : StreamRace NID N D :=
  ⟨log, submitted, watcher, some (.logsSince prev), none, []⟩

/-- The invariant: what is of the leader of the task is of its log, and so is where the task
    stands. -/
structure Tracks (H : List (Entry NID N D)) (s : StreamRace NID N D) : Prop where
  log : context.leaderChanged s.watcher.ioAccepted = false → ∀ ent ∈ s.log, ent ∈ H
  submitted : ∀ io ∈ s.submitted, context.leaderChanged io = false →
    InLogOpt (H.map Entry.logId) io.lastLogId
  shown : context.leaderChanged s.watcher.ioSubmitted = false →
    InLogOpt (H.map Entry.logId) s.watcher.ioSubmitted.lastLogId
  payload : ∀ p ∈ s.payload, ∃ prev, p = .logsSince prev ∧ InLogOpt (H.map Entry.logId) prev
  reading : ∀ range ∈ s.reading, InLogOpt (H.map Entry.logId) range.prev

section Tracks

variable {mode context} {H : List (Entry NID N D)} {s : StreamRace NID N D}

omit [LinearOrder NID] in
theorem mem_writeLog {c : Command NID N D} {log : List (Entry NID N D)} {ent : Entry NID N D}
    (h : ent ∈ c.writeLog log) :
    ent ∈ log ∨ ∃ V entries, c = .appendEntries V entries ∧ ent ∈ entries := by
  cases c with
  | appendEntries V entries =>
    rcases List.mem_append.1 h with h | h
    · exact Or.inl h
    · exact Or.inr ⟨V, entries, rfl, h⟩
  | truncateLog upto => exact Or.inl (List.mem_of_mem_filter h)
  | purgeLog upto => exact Or.inl (List.mem_of_mem_filter h)
  | _ => exact Or.inl h

theorem sendIfGreater_cases (mode : LeaderIdMode) (current value : IOId NID) :
    sendIfGreater mode current value = value ∨ sendIfGreater mode current value = current := by
  unfold sendIfGreater
  split
  · exact Or.inl rfl
  · exact Or.inr rfl

omit [LinearOrder NID] in
/-- What is announced is submitted. -/
theorem mem_submits_of_announces {c : Command NID N D} {io : IOId NID} (h : io ∈ c.announces) :
    io ∈ c.submits := by
  cases c with
  | stateMachine cmd => cases h
  | _ => exact h

theorem Tracks.command (h : s.Tracks context H) {c : Command NID N D}
    (hc : s.Disciplined mode context H (.command c)) :
    (s.runCommand mode c).Tracks context H := by
  obtain ⟨hown, happend⟩ := hc
  refine ⟨?_, ?_, h.shown, h.payload, h.reading⟩
  · intro hkept ent hent
    -- an IO of the leader of the task is accepted only where one was accepted before
    have hbefore : context.leaderChanged s.watcher.ioAccepted = false := by
      unfold runCommand at hkept
      dsimp only at hkept
      cases hio : c.announces with
      | none =>
        rw [hio] at hkept
        exact hkept
      | some io =>
        rw [hio, Option.map_some, Option.getD_some] at hkept
        rcases sendIfGreater_cases mode s.watcher.ioAccepted io with heq | heq
        · rw [heq] at hkept
          exact (hown io (mem_submits_of_announces hio) hkept).1
        · rw [heq] at hkept
          exact hkept
    rcases mem_writeLog hent with hold | ⟨V, entries, rfl, hnew⟩
    · exact h.log hbefore ent hold
    · obtain ⟨hsame, hother⟩ := happend V entries rfl
      by_cases hV : V = context.leaderVote
      · exact hsame hV ent hnew
      · -- the append of another leader is what is accepted now
        have hgt := hother hV
        unfold runCommand sendIfGreater Command.announces at hkept
        dsimp only [Option.map_some, Option.getD_some] at hkept
        rw [if_pos hgt] at hkept
        exact absurd (of_decide_eq_false hkept) (not_not.2 hV)
  · intro io hio hkept
    rcases Option.or_eq_some_iff.1 hio with hio | ⟨-, hio⟩
    · exact (hown io hio hkept).2
    · exact h.submitted io hio hkept

theorem Tracks.broadcast (h : s.Tracks context H) :
    (s.broadcastSubmitted mode).Tracks context H := by
  refine ⟨h.log, h.submitted, ?_, h.payload, h.reading⟩
  intro hkept
  unfold broadcastSubmitted at hkept ⊢
  dsimp only at hkept ⊢
  cases hio : s.submitted with
  | none =>
    rw [hio] at hkept
    exact h.shown hkept
  | some io =>
    rw [hio, Option.map_some, Option.getD_some] at hkept
    rw [Option.map_some, Option.getD_some]
    rcases sendIfGreater_cases mode s.watcher.ioSubmitted io with heq | heq
    · rw [heq] at hkept ⊢
      exact h.submitted io hio hkept
    · rw [heq] at hkept ⊢
      exact h.shown hkept

/-- A range starts where the payload stands. If the watch shows an IO of the leader of the task, the
    range is not reversed. -/
theorem Tracks.getLogIdRange (h : s.Tracks context H) (hH : FullLog (H.map Entry.logId))
    {range : LogIdRange NID}
    (hrange : Replication.getLogIdRange s.payload s.watcher = some range) :
    InLogOpt (H.map Entry.logId) range.prev ∧
      (context.leaderChanged s.watcher.ioSubmitted = false →
        nextIndex range.prev ≤ nextIndex range.last) := by
  obtain ⟨p, hp, hprev⟩ := getLogIdRange_prev hrange
  obtain ⟨prev, rfl, hin⟩ := h.payload p hp
  have hprev : range.prev = prev := hprev
  have hlast : range.last = max s.watcher.ioSubmitted.lastLogId prev := by
    rw [hp] at hrange
    unfold Replication.getLogIdRange at hrange
    dsimp only at hrange
    split at hrange
    · rw [← Option.some.inj hrange]
      rfl
    · split at hrange
      · cases hrange
      · rw [← Option.some.inj hrange]
        rfl
  refine ⟨hprev ▸ hin, fun hown => ?_⟩
  rw [hprev, hlast]
  rcases le_total s.watcher.ioSubmitted.lastLogId prev with hle | hle
  · rw [max_eq_right hle]
  · rw [max_eq_left hle]
    exact (hH.le_iff hin (h.shown hown)).1 hle

/-- What is read while the leader of the task is accepted is of its log. -/
theorem Tracks.read (h : s.Tracks context H) (hH : FullLog (H.map Entry.logId))
    {reader : Nat → Nat → List (Entry NID N D)}
    (hread : s.Disciplined mode context H (.read reader)) :
    (s.read context reader).Tracks context H := by
  unfold StreamRace.read
  split
  · exact h
  rename_i range hreading
  have hprev := h.reading range hreading
  split
  · exact ⟨h.log, h.submitted, h.shown, fun p hp => absurd hp (Option.not_mem_none p),
      fun r hr => absurd hr (Option.not_mem_none r)⟩
  rename_i req payload hfinish
  refine ⟨h.log, h.submitted, h.shown, ?_, fun r hr => absurd hr (Option.not_mem_none r)⟩
  unfold finishRequest at hfinish
  dsimp only at hfinish
  split at hfinish
  · cases hfinish
  rename_i hleading
  simp only [Option.some.injEq, Prod.mk.injEq] at hfinish
  obtain ⟨-, hpayload⟩ := hfinish
  have hlog := h.log (Bool.eq_false_iff.2 hleading)
  obtain ⟨-, hlast, hentries⟩ := readLogEntries_spec context reader range
  have hin : InLogOpt (H.map Entry.logId) (readLogEntries context reader range).2.last := by
    rw [hlast]
    cases hgot : (readLogEntries context reader range).1.getLast? with
    | none => exact hprev
    | some ent =>
      obtain ⟨stop, hent⟩ := hentries ent (List.mem_of_getLast? hgot)
      obtain ⟨i, hi⟩ := List.mem_iff_getElem?.1 (hlog ent (hread _ stop ent hent))
      exact (inLog_of_getElem? hH hi).1.opt
  intro p hp
  dsimp only at hp
  rw [← hpayload] at hp
  unfold updateLogIdRange at hp
  cases hold : s.payload with
  | none =>
    rw [hold] at hp
    cases hp
  | some old =>
    obtain ⟨prev, rfl, -⟩ := h.payload old hold
    rw [hold] at hp
    exact ⟨_, (Option.some.inj hp).symm, hin⟩

/-- One event. -/
theorem Tracks.step (h : s.Tracks context H) (hH : FullLog (H.map Entry.logId))
    {ev : RaceEvent NID N D} (hev : s.Disciplined mode context H ev) :
    (s.step mode context ev).Tracks context H := by
  cases ev with
  | command c => exact h.command hev
  | broadcast => exact h.broadcast
  | committed c => exact ⟨h.log, h.submitted, h.shown, h.payload, h.reading⟩
  | wake =>
    show s.wake.Tracks context H
    unfold wake
    split
    · rename_i range hreading hrange
      refine ⟨h.log, h.submitted, h.shown, h.payload, ?_⟩
      intro r hr
      obtain rfl := Option.some.inj hr
      exact (h.getLogIdRange hH hrange).1
    · exact h
  | read reader => exact h.read hH hev

/-- The ranges after one event: those before, and one that is not reversed. -/
theorem Tracks.ranges_step (h : s.Tracks context H) (hH : FullLog (H.map Entry.logId))
    {ev : RaceEvent NID N D} (hown : s.ShowsOwn context ev) :
    ∀ range ∈ (s.step mode context ev).ranges,
      range ∈ s.ranges ∨ nextIndex range.prev ≤ nextIndex range.last := by
  intro range hmem
  cases ev with
  | wake =>
    have hmem : range ∈ s.wake.ranges := hmem
    unfold wake at hmem
    split at hmem
    · rename_i taken hreading htaken
      rcases List.mem_append.1 hmem with hmem | hmem
      · exact Or.inl hmem
      · rw [List.mem_singleton.1 hmem]
        exact Or.inr ((h.getLogIdRange hH htaken).2 hown)
    · exact Or.inl hmem
  | read reader =>
    have hmem : range ∈ (s.read context reader).ranges := hmem
    unfold StreamRace.read at hmem
    split at hmem
    · exact Or.inl hmem
    · split at hmem
      · exact Or.inl hmem
      · exact Or.inl hmem
  | _ => exact Or.inl hmem

end Tracks

/-- No range is reversed, whatever commands RaftCore runs between the steps of the task, if the task
    takes ranges only while the watch of submitted IO shows an IO of its leader. -/
theorem ranges_forward (mode : LeaderIdMode) (context : Context NID) (H : List (Entry NID N D))
    (hH : FullLog (H.map Entry.logId)) (log : List (Entry NID N D)) (submitted : Option (IOId NID))
    (watcher : EventWatcher NID) (prev : Option (LogId NID))
    (hstart : (start log submitted watcher prev).Tracks context H)
    (events : List (RaceEvent NID N D))
    (hevents : AllSteps (step mode context) (Disciplined mode context H)
      (start log submitted watcher prev) events)
    (hown : AllSteps (step mode context) (ShowsOwn context)
      (start log submitted watcher prev) events) :
    ∀ range ∈ (runOps (step mode context) (start log submitted watcher prev) events).ranges,
      nextIndex range.prev ≤ nextIndex range.last := by
  refine ((hevents.and hown).runOps (P := fun s => s.Tracks context H ∧
    ∀ range ∈ s.ranges, nextIndex range.prev ≤ nextIndex range.last)
    ⟨hstart, fun range h => absurd h List.not_mem_nil⟩ ?_).2
  rintro s ev ⟨hev, hshows⟩ ⟨htracks, hranges⟩
  refine ⟨htracks.step hH hev, fun range hrange => ?_⟩
  rcases htracks.ranges_step hH hshows range hrange with hold | hnew
  · exact hranges range hold
  · exact hnew

/-! ### Node 1 overtakes node 0 -/

namespace Overtaken

open Three

/-- Node 0 leads in term 1. Node 2 acknowledges the first entry before an error ends its stream.
    Node 0 writes two entries behind its blank one and streams to node 2 what follows the first. -/
def leads : List (Label (Fin 3) Unit Nat) :=
  election ++
  [event 0 .runCommand, event 0 .runCommand, event 0 .runCommand, event 0 .runCommand,
    event 0 .runCommand, event 0 (.sendAppendEntries 2 none 1 (some 2)), deliver 2 0 3,
    event 2 .runCommand, event 2 .runCommand, event 2 (.localIo (.new ⟨⟨1, 0⟩, true⟩)),
    event 2 .runCommand, event 2 (.localIo (.newLogIo ⟨1, 0⟩ (some firstEntry.logId))),
    event 2 .runCommand, deliver 0 2 0, ⟨0, 0, .deliverClock 2 0⟩,
    event 0 (.replicationError 2 3 (some 2)), event 0 (.write [7, 8]),
    event 0 .initiateReplication, event 0 .runCommand, event 0 .runCommand]

/-- Node 1 is elected in term 2 with the vote of node 2, and its blank entry arrives at node 0. -/
def overtakes : List (Label (Fin 3) Unit Nat) :=
  [event 1 .elect, event 1 .runCommand, event 1 .runCommand, deliver 1 1 2,
    ⟨2, 100, .deliver 1 4⟩, event 2 .runCommand, event 2 .runCommand,
    event 2 (.localIo (.new ⟨⟨2, 1⟩, false⟩)), event 2 .runCommand, deliver 1 2 2,
    event 1 .runCommand, event 1 .runCommand, event 1 .runCommand,
    event 1 (.sendAppendEntries 0 (some firstEntry.logId) 1 none), deliver 0 1 5]

/-- Node 0 while it leads. -/
def leader : Node (Fin 3) Unit Nat := (cluster true).after leads 0

/-- The commands that node 0 has to run when it has heard of node 1. -/
def commands : List (Command (Fin 3) Unit Nat) :=
  ((cluster true).after (leads ++ overtakes) 0).engine.output.commands

def ofLeader : Context (Fin 3) := ⟨⟨1, 0⟩, 10⟩

/-- The last IO that node 0 has submitted as the leader. -/
def lastIo : IOId (Fin 3) := .newLogIo ⟨1, 0⟩ (some ⟨⟨1, none⟩, 3⟩)

/-- A reader of the log of the leader. -/
def reader (start stop : Nat) : List (Entry (Fin 3) Unit Nat) :=
  leader.store.readable.filter fun ent =>
    decide (start ≤ ent.logId.index) && decide (ent.logId.index < stop)

/-- The task that streams to node 2. -/
def race : StreamRace (Fin 3) Unit Nat :=
  start leader.store.readable leader.engine.state.ioState.logProgress.submitted
    ⟨lastIo, lastIo, none, true⟩ (some firstEntry.logId)

/-- The task replicates the log. RaftCore runs its commands and broadcasts what it has submitted,
    and the task wakes up. -/
def events : List (RaceEvent (Fin 3) Unit Nat) :=
  [.wake, .read reader] ++ commands.map .command ++ [.broadcast, .wake]

/-- The second range starts behind index 3 of the leader of term 1 and ends at index 1 of the leader
    of term 2. -/
theorem range_reversed :
    ((cluster true).run (leads ++ overtakes)).isSome = true ∧
    leader.engine.leader.any (fun l => l.progress.entries.any fun item =>
      decide (item.id = 2 ∧ item.data.inflight = .logsSince (some firstEntry.logId) 3)) = true ∧
    leader.engine.state.ioState.logProgress.submitted = some lastIo ∧
    (runOps (step .std ofLeader) race events).ranges =
      [⟨some firstEntry.logId, some ⟨⟨1, none⟩, 3⟩⟩, ⟨some ⟨⟨1, none⟩, 3⟩, some ⟨⟨2, none⟩, 1⟩⟩] ∧
    ¬ ∀ range ∈ (runOps (step .std ofLeader) race events).ranges,
      nextIndex range.prev ≤ nextIndex range.last := by
  decide +kernel

/-- The task replicates the log, RaftCore saves the vote of node 1, a commit is broadcast, and the
    task sends it before it hears of node 1. -/
def earlier : List (RaceEvent (Fin 3) Unit Nat) :=
  [.wake, .read reader, .command (.saveVote ⟨⟨2, 1⟩, true⟩), .committed (some ⟨⟨1, none⟩, 1⟩),
  .wake]

theorem ranges_forward_earlier :
    (runOps (step .std ofLeader) race earlier).ranges =
      [⟨some firstEntry.logId, some ⟨⟨1, none⟩, 3⟩⟩, ⟨some ⟨⟨1, none⟩, 3⟩, some ⟨⟨1, none⟩, 3⟩⟩] ∧
    ∀ range ∈ (runOps (step .std ofLeader) race earlier).ranges,
      nextIndex range.prev ≤ nextIndex range.last := by
  refine ⟨by decide +kernel, ranges_forward .std ofLeader leader.store.readable (by decide +kernel)
    _ _ _ _ ⟨fun _ _ h => h, ?_, fun _ => by decide +kernel, ?_, ?_⟩ earlier ?_ ?_⟩
  · decide +kernel
  · intro p hp
    exact ⟨_, (Option.some.inj hp).symm, by decide +kernel⟩
  · exact fun range h => absurd h (Option.not_mem_none range)
  · refine ⟨trivial, fun start stop ent hent => List.mem_of_mem_filter hent, ⟨?_, ?_⟩, trivial,
      trivial,
      trivial⟩
    · decide +kernel
    · intro V entries h
      cases h
  · refine ⟨?_, trivial, trivial, trivial, ?_, trivial⟩
    · show ofLeader.leaderChanged _ = false
      decide +kernel
    · show ofLeader.leaderChanged _ = false
      decide +kernel

end Overtaken

end StreamRace

end Replication

end ZenohRaft
