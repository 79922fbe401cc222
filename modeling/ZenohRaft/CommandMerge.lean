/-
  Merging of append commands: `CommandScheduler::merge_front_append_entries` of
  `engine/command_scheduler.rs`, the loop of `RaftCore::run_engine_commands`, and
  `RaftCore::run_append_entries`.

  Before each command RaftCore merges the append commands at the front of its queue, so that one
  storage write takes several of them. Of RaftCore the model has what an append touches: the log,
  the IO id that is broadcast as accepted, and the submitted cursor. What the other commands do is
  any function of that and of the rest of the state; it may also say that a command has to wait,
  which ends the loop.

  * `runEngineCommands_merge`: on a queue whose appends do not go back, the loop with merging ends
    in the same state, with the same commands left, as the loop without.
  * `mergeFrontAppendEntries_head`: what a merged command holds, for any queue.
  * `Descending.merge_differs`: where an append follows one of the same leader with a greater log
    id, the accepted IO id differs.

  `none` is the panic of `run_append_entries` on a command without entries. The assertion on the
  submitted cursor, which only debug builds have, is left out.
-/
import ZenohRaft.Engine

namespace ZenohRaft

open Lib

variable {NID N D X : Type} [LinearOrder NID]

/-! ## The scheduler -/

/-- The loop of `merge_front_append_entries`: the entries of the first command with those that are
    merged, and the rest of the queue. -/
def mergeAppends (maxEntries : Nat) (committedVote : LeaderId NID) :
    List (Entry NID N D) → List (Command NID N D) → List (Entry NID N D) × List (Command NID N D)
  | entries, [] => (entries, [])
  | entries, next :: queue =>
    match next with
    | .appendEntries nextVote nextEntries =>
      if nextVote = committedVote ∧ entries.length + nextEntries.length ≤ maxEntries then
        mergeAppends maxEntries committedVote (entries ++ nextEntries) queue
      else (entries, next :: queue)
    | _ => (entries, next :: queue)

/-- `CommandScheduler::merge_front_append_entries`. -/
def mergeFrontAppendEntries (maxEntries : Nat) :
    List (Command NID N D) → List (Command NID N D)
  | [] => []
  | .appendEntries committedVote entries :: queue =>
    let (entries, queue) := mergeAppends maxEntries committedVote entries queue
    .appendEntries committedVote entries :: queue
  | c :: queue => c :: queue

/-! ## The loop of RaftCore -/

/-- RaftCore, as far as an append touches it: the log, `io_broadcast.accepted` and the submitted
    cursor of `log_progress`. `ran` lists the other commands that have run. -/
structure AppendState (NID N D X : Type) where
  log : List (Entry NID N D)
  accepted : IOId NID
  submitted : Option (IOId NID)
  ran : List (Command NID N D)
  rest : X

/-- `watch::Sender::send_if_greater`. -/
def sendIfGreater (mode : LeaderIdMode) (current value : IOId NID) : IOId NID :=
  if value.gt mode current then value else current

/-- `RaftCore::run_append_entries`. -/
def runAppendEntries (mode : LeaderIdMode) (committedVote : LeaderId NID)
    (entries : List (Entry NID N D)) (s : AppendState NID N D X) :
    Option (AppendState NID N D X) :=
  entries.getLast?.map fun last =>
    let ioId := IOId.newLogIo committedVote (some last.logId)
    { s with
      accepted := sendIfGreater mode s.accepted ioId
      submitted := some ioId
      log := s.log ++ entries }

/-- The loop of `run_engine_commands`, with `sched` before each command. `other` runs a command that
    is not an append; `none` puts it back and ends the loop. -/
def runLoop (mode : LeaderIdMode) (sched : List (Command NID N D) → List (Command NID N D))
    (other : Command NID N D → AppendState NID N D X → Option (AppendState NID N D X)) :
    Nat → AppendState NID N D X → List (Command NID N D) →
      Option (AppendState NID N D X × List (Command NID N D))
  | 0, s, queue => some (s, queue)
  | fuel + 1, s, queue =>
    match sched queue with
    | [] => some (s, [])
    | .appendEntries committedVote entries :: queue =>
      (runAppendEntries mode committedVote entries s).bind fun s =>
        runLoop mode sched other fuel s queue
    | c :: queue =>
      match other c s with
      | none => some (s, c :: queue)
      | some s => runLoop mode sched other fuel { s with ran := s.ran ++ [c] } queue

/-- `RaftCore::run_engine_commands`. Each round takes at least one command. -/
def runEngineCommands (mode : LeaderIdMode)
    (sched : List (Command NID N D) → List (Command NID N D))
    (other : Command NID N D → AppendState NID N D X → Option (AppendState NID N D X))
    (s : AppendState NID N D X) (queue : List (Command NID N D)) :
    Option (AppendState NID N D X × List (Command NID N D)) :=
  runLoop mode sched other queue.length s queue

/-! ## What is merged -/

/-- The loop merges appends of one vote from the front of the queue, and stops before it exceeds
    the limit. -/
theorem mergeAppends_spec (maxEntries : Nat) (V : LeaderId NID) (first : List (Entry NID N D))
    (queue : List (Command NID N D)) :
    ∃ more, queue = more.map (.appendEntries V) ++ (mergeAppends maxEntries V first queue).2 ∧
      (mergeAppends maxEntries V first queue).1 = first ++ more.flatten ∧
      (more = [] ∨ (first ++ more.flatten).length ≤ maxEntries) := by
  induction queue generalizing first with
  | nil => exact ⟨[], rfl, (List.append_nil _).symm, Or.inl rfl⟩
  | cons next queue ih =>
    have hstop : ∃ more : List (List (Entry NID N D)),
        next :: queue = more.map (.appendEntries V) ++ (next :: queue) ∧
        first = first ++ more.flatten ∧
        (more = [] ∨ (first ++ more.flatten).length ≤ maxEntries) :=
      ⟨[], rfl, (List.append_nil _).symm, Or.inl rfl⟩
    unfold mergeAppends
    cases next with
    | appendEntries V' entries =>
      dsimp only
      split
      · rename_i hmerge
        obtain ⟨rfl, hlen⟩ := hmerge
        obtain ⟨more, hqueue, hentries, hmore⟩ := ih (first ++ entries)
        refine ⟨entries :: more, ?_, ?_, Or.inr ?_⟩
        · rw [List.map_cons, List.cons_append, ← hqueue]
        · rw [hentries, List.flatten_cons, List.append_assoc]
        · rw [List.flatten_cons, ← List.append_assoc]
          rcases hmore with rfl | hmore
          · rw [List.flatten_nil, List.append_nil, List.length_append]
            exact hlen
          · exact hmore
      · exact hstop
    | _ => exact hstop

/-- A merged command holds the entries of consecutive appends of one committed vote, and exceeds the
    limit only if the first of them did. -/
theorem mergeFrontAppendEntries_head {maxEntries : Nat} {queue rest : List (Command NID N D)}
    {V : LeaderId NID} {entries : List (Entry NID N D)}
    (h : mergeFrontAppendEntries maxEntries queue = .appendEntries V entries :: rest) :
    ∃ (first : List (Entry NID N D)) (more : List (List (Entry NID N D))),
      queue = .appendEntries V first :: more.map (.appendEntries V) ++ rest ∧
      entries = first ++ more.flatten ∧
      (maxEntries < entries.length → maxEntries < first.length) := by
  cases queue with
  | nil => cases h
  | cons c queue =>
    cases c with
    | appendEntries V' first =>
      obtain ⟨more, hqueue, hentries, hmore⟩ := mergeAppends_spec maxEntries V' first queue
      unfold mergeFrontAppendEntries at h
      dsimp only at h
      rw [List.cons.injEq, Command.appendEntries.injEq] at h
      obtain ⟨⟨rfl, rfl⟩, rfl⟩ := h
      refine ⟨first, more, ?_, hentries, fun hlt => ?_⟩
      · rw [List.cons_append, ← hqueue]
      · rw [hentries] at hlt
        rcases hmore with rfl | hmore
        · rw [List.flatten_nil, List.append_nil] at hlt
          exact hlt
        · omega
    | _ => cases h

/-! ## Appends one after the other -/

/-- The log id of the last entry. -/
def lastEntryId (entries : List (Entry NID N D)) : Option (LogId NID) :=
  entries.getLast?.map Entry.logId

/-- An append is not behind the append before it. -/
def Command.NotBehind : Command NID N D → Command NID N D → Prop
  | .appendEntries V entries, .appendEntries V' entries' =>
    V = V' → lastEntryId entries ≤ lastEntryId entries'
  | _, _ => True

/-- An append has entries. -/
def Command.HasEntries : Command NID N D → Prop
  | .appendEntries _ entries => entries ≠ []
  | _ => True

/-- A queue whose appends have entries, and do not go back where two of one vote are next to each
    other. -/
structure AppendsForward (queue : List (Command NID N D)) : Prop where
  entries : ∀ c ∈ queue, c.HasEntries
  forward : queue.IsChain Command.NotBehind

theorem AppendsForward.of_append {a b : List (Command NID N D)} (h : AppendsForward (a ++ b)) :
    AppendsForward b :=
  ⟨fun c hc => h.entries c (List.mem_append_right _ hc), h.forward.right_of_append⟩

omit [LinearOrder NID] in
theorem lastEntryId_append (a : List (Entry NID N D)) {b : List (Entry NID N D)} (hb : b ≠ []) :
    lastEntryId (a ++ b) = lastEntryId b := by
  unfold lastEntryId
  rw [List.getLast?_append_of_ne_nil _ hb]

/-- Merged appends end with the last of them, which is not behind the first. -/
theorem lastEntryId_le_flatten {V : LeaderId NID} {first : List (Entry NID N D)}
    {more : List (List (Entry NID N D))}
    (h : AppendsForward (.appendEntries V first :: more.map (.appendEntries V))) :
    lastEntryId first ≤ lastEntryId (first ++ more.flatten) := by
  induction more generalizing first with
  | nil => rw [List.flatten_nil, List.append_nil]
  | cons es more ih =>
    have hrest : AppendsForward (.appendEntries V es :: more.map (.appendEntries V)) :=
      h.of_append (a := [.appendEntries V first])
    have hes : es ≠ [] := hrest.entries _ List.mem_cons_self
    have hle : lastEntryId first ≤ lastEntryId es :=
      (List.isChain_cons_cons.1 h.forward).1 rfl
    rw [List.flatten_cons, lastEntryId_append first (by simp [hes])]
    exact hle.trans (ih hrest)

/-- A greater IO id that is broadcast after a smaller one covers it. -/
theorem sendIfGreater_twice (mode : LeaderIdMode) (current : IOId NID) {V : LeaderId NID}
    {x y : LogId NID} (h : x ≤ y) :
    sendIfGreater mode (sendIfGreater mode current (.newLogIo V (some x)))
        (.newLogIo V (some y)) = sendIfGreater mode current (.newLogIo V (some y)) := by
  have hge : (IOId.newLogIo V (some y)).ge mode (.newLogIo V (some x)) = true :=
    IOId.ge_iff.2 (Or.inr ⟨rfl, Option.some_le_some.2 h⟩)
  have hlater : ∀ io : IOId NID, (IOId.newLogIo V (some x)).gt mode io = true →
      (IOId.newLogIo V (some y)).gt mode io = true := by
    intro io hgt
    rw [IOId.gt_iff] at hgt ⊢
    rcases hgt with hrank | ⟨hvote, hlast⟩
    · exact Or.inl hrank
    · exact Or.inr ⟨hvote, hlast.trans_le (Option.some_le_some.2 h)⟩
  unfold sendIfGreater
  by_cases hx : (IOId.newLogIo V (some x)).gt mode current = true
  · rw [if_pos hx, if_pos (hlater current hx)]
    split
    · rfl
    · rename_i hy
      -- not greater and not smaller: the same log id
      have hyx : ¬ x < y := fun hlt =>
        hy (IOId.gt_iff.2 (Or.inr ⟨rfl, Option.some_lt_some.2 hlt⟩))
      rw [le_antisymm h (not_lt.1 hyx)]
  · rw [if_neg hx]

/-- Two appends of one vote are one append of all their entries. -/
theorem runAppendEntries_append (mode : LeaderIdMode) {V : LeaderId NID}
    {es es' : List (Entry NID N D)} (hes : es ≠ []) (hes' : es' ≠ [])
    (hle : lastEntryId es ≤ lastEntryId es') (s : AppendState NID N D X) :
    runAppendEntries mode V (es ++ es') s =
      (runAppendEntries mode V es s).bind (runAppendEntries mode V es') := by
  obtain ⟨x, hx⟩ := Option.ne_none_iff_exists'.1 (mt List.getLast?_eq_none_iff.1 hes)
  obtain ⟨y, hy⟩ := Option.ne_none_iff_exists'.1 (mt List.getLast?_eq_none_iff.1 hes')
  have hxy : x.logId ≤ y.logId := by
    unfold lastEntryId at hle
    rw [hx, hy] at hle
    exact Option.some_le_some.1 hle
  unfold runAppendEntries
  rw [List.getLast?_append_of_ne_nil _ hes', hx, hy]
  dsimp only [Option.map_some, Option.bind_some]
  rw [sendIfGreater_twice mode s.accepted hxy, List.append_assoc]

/-! ## The two loops -/

variable {mode : LeaderIdMode}
variable {other : Command NID N D → AppendState NID N D X → Option (AppendState NID N D X)}

/-- The commands of a queue one after the other. -/
def runQueue (mode : LeaderIdMode)
    (other : Command NID N D → AppendState NID N D X → Option (AppendState NID N D X)) :
    AppendState NID N D X → List (Command NID N D) →
      Option (AppendState NID N D X × List (Command NID N D))
  | s, [] => some (s, [])
  | s, .appendEntries committedVote entries :: queue =>
    (runAppendEntries mode committedVote entries s).bind fun s => runQueue mode other s queue
  | s, c :: queue =>
    match other c s with
    | none => some (s, c :: queue)
    | some s => runQueue mode other { s with ran := s.ran ++ [c] } queue

/-- The loop without a scheduler. -/
theorem runLoop_id {fuel : Nat} {queue : List (Command NID N D)} (hfuel : queue.length ≤ fuel)
    (s : AppendState NID N D X) :
    runLoop mode (fun queue => queue) other fuel s queue = runQueue mode other s queue := by
  induction queue generalizing fuel s with
  | nil => cases fuel <;> rfl
  | cons c queue ih =>
    cases fuel with
    | zero => cases hfuel
    | succ fuel =>
      have hlen : queue.length ≤ fuel := Nat.le_of_succ_le_succ hfuel
      cases c with
      | appendEntries V entries =>
        show (runAppendEntries mode V entries s).bind _ =
          (runAppendEntries mode V entries s).bind _
        exact congrArg _ (funext fun s => ih hlen s)
      | _ =>
        unfold runLoop runQueue
        dsimp only
        split
        · rfl
        · exact ih hlen _

/-- Appends at the front run as if they were merged. -/
theorem runQueue_appends {V : LeaderId NID} {first : List (Entry NID N D)}
    {more : List (List (Entry NID N D))} {rest : List (Command NID N D)}
    (h : AppendsForward (.appendEntries V first :: more.map (.appendEntries V)))
    (s : AppendState NID N D X) :
    runQueue mode other s (.appendEntries V first :: more.map (.appendEntries V) ++ rest) =
      (runAppendEntries mode V (first ++ more.flatten) s).bind fun s =>
        runQueue mode other s rest := by
  induction more generalizing first s with
  | nil =>
    rw [List.flatten_nil, List.append_nil]
    rfl
  | cons es more ih =>
    have hrest : AppendsForward (.appendEntries V es :: more.map (.appendEntries V)) :=
      h.of_append (a := [.appendEntries V first])
    have hfirst : first ≠ [] := h.entries _ List.mem_cons_self
    have hes : es ≠ [] := hrest.entries _ List.mem_cons_self
    have hle : lastEntryId first ≤ lastEntryId (es ++ more.flatten) :=
      ((List.isChain_cons_cons.1 h.forward).1 rfl).trans (lastEntryId_le_flatten hrest)
    show (runAppendEntries mode V first s).bind (fun s =>
      runQueue mode other s (.appendEntries V es :: more.map (.appendEntries V) ++ rest)) = _
    rw [List.flatten_cons, runAppendEntries_append mode hfirst (by simp [hes]) hle,
      Option.bind_assoc]
    exact congrArg _ (funext fun s => ih hrest s)

/-- The loop with merging does what the queue does command by command. -/
theorem runLoop_merge (maxEntries : Nat) {fuel : Nat} {queue : List (Command NID N D)}
    (hfuel : queue.length ≤ fuel) (h : AppendsForward queue) (s : AppendState NID N D X) :
    runLoop mode (mergeFrontAppendEntries maxEntries) other fuel s queue =
      runQueue mode other s queue := by
  induction fuel generalizing queue s with
  | zero =>
    rw [List.eq_nil_of_length_eq_zero (Nat.le_zero.1 hfuel)]
    rfl
  | succ fuel ih =>
    cases queue with
    | nil => rfl
    | cons c queue =>
      have hlen : queue.length ≤ fuel := Nat.le_of_succ_le_succ hfuel
      cases c with
      | appendEntries V first =>
        obtain ⟨more, hqueue, hentries, -⟩ := mergeAppends_spec maxEntries V first queue
        obtain ⟨rest, hrest⟩ : ∃ rest, rest = (mergeAppends maxEntries V first queue).2 :=
          ⟨_, rfl⟩
        rw [← hrest] at hqueue
        have hsplit : (.appendEntries V first :: queue : List (Command NID N D)) =
            (.appendEntries V first :: more.map (.appendEntries V)) ++ rest := by
          rw [hqueue]
          rfl
        rw [hsplit] at h ⊢
        have hmerged : AppendsForward (.appendEntries V first :: more.map (.appendEntries V) :
            List (Command NID N D)) :=
          ⟨fun c hc => h.entries c (List.mem_append_left _ hc), h.forward.left_of_append⟩
        have hshort : rest.length ≤ fuel := by
          have := congrArg List.length hqueue
          rw [List.length_append] at this
          omega
        rw [runQueue_appends hmerged, ← hentries, ← hsplit]
        show (runAppendEntries mode V (mergeAppends maxEntries V first queue).1 s).bind _ = _
        rw [← hrest]
        exact congrArg _ (funext fun s => ih hshort h.of_append s)
      | _ =>
        have hrest := h.of_append (a := [_])
        unfold runLoop runQueue
        dsimp only [mergeFrontAppendEntries]
        split
        · rfl
        · exact ih hlen hrest _

theorem runQueue_isSome {queue : List (Command NID N D)} (h : ∀ c ∈ queue, c.HasEntries)
    (s : AppendState NID N D X) : (runQueue mode other s queue).isSome = true := by
  induction queue generalizing s with
  | nil => rfl
  | cons c queue ih =>
    have hrest := ih fun c hc => h c (List.mem_cons_of_mem _ hc)
    cases c with
    | appendEntries V entries =>
      have hne : entries ≠ [] := h _ List.mem_cons_self
      obtain ⟨x, hx⟩ := Option.ne_none_iff_exists'.1 (mt List.getLast?_eq_none_iff.1 hne)
      unfold runQueue runAppendEntries
      rw [hx]
      exact hrest _
    | _ =>
      unfold runQueue
      split
      · rfl
      · exact hrest _

/-- Merging before each command changes neither the log, nor the accepted and the submitted IO id,
    nor which other commands run and in what order, on a queue whose appends do not go back. On any
    queue a merged command holds entries of one committed vote, and exceeds the limit only if its
    first command did. -/
theorem runEngineCommands_merge (mode : LeaderIdMode) (maxEntries : Nat)
    (other : Command NID N D → AppendState NID N D X → Option (AppendState NID N D X))
    (s : AppendState NID N D X) (queue : List (Command NID N D)) (h : AppendsForward queue) :
    runEngineCommands mode (mergeFrontAppendEntries maxEntries) other s queue =
        runEngineCommands mode (fun queue => queue) other s queue ∧
      (runEngineCommands mode (fun queue => queue) other s queue).isSome = true ∧
      ∀ (queue rest : List (Command NID N D)) (V : LeaderId NID) (entries : List (Entry NID N D)),
        mergeFrontAppendEntries maxEntries queue = .appendEntries V entries :: rest →
          ∃ (first : List (Entry NID N D)) (more : List (List (Entry NID N D))),
            queue = .appendEntries V first :: more.map (.appendEntries V) ++ rest ∧
            entries = first ++ more.flatten ∧
            (maxEntries < entries.length → maxEntries < first.length) := by
  have hplain : runEngineCommands mode (fun queue => queue) other s queue =
      runQueue mode other s queue := runLoop_id (le_refl queue.length) s
  refine ⟨?_, ?_, fun _ _ _ _ hmerge => mergeFrontAppendEntries_head hmerge⟩
  · exact (runLoop_merge maxEntries (le_refl queue.length) h s).trans hplain.symm
  · rw [hplain]
    exact runQueue_isSome h.entries s

namespace Descending

def leader : LeaderId Nat := ⟨1, 0⟩

def append (indexes : List Nat) : Command Nat Unit Nat :=
  .appendEntries leader (indexes.map fun index => ⟨⟨leader.toCommitted .std, index⟩, .blank⟩)

def start : AppendState Nat Unit Nat Unit := ⟨[], .vote leader, none, [], ()⟩

/-- An append that goes back: one by one they leave the greater accepted IO id, merged the last. -/
theorem merge_differs :
    ((runEngineCommands .std (mergeFrontAppendEntries 4) (fun _ s => some s) start
        [append [5], append [3]]).map (fun r => r.1.accepted) =
      some (.newLogIo leader (some ⟨leader.toCommitted .std, 3⟩))) ∧
    ((runEngineCommands .std (fun queue => queue) (fun _ s => some s) start
        [append [5], append [3]]).map (fun r => r.1.accepted) =
      some (.newLogIo leader (some ⟨leader.toCommitted .std, 5⟩))) := by
  decide +kernel

end Descending

/-- Three appends with a vote between them, of which the limit lets two be merged. -/
theorem runEngineCommands_merge_two :
    runEngineCommands .std (mergeFrontAppendEntries 3) (fun _ s => some s) Descending.start
        [Descending.append [1], Descending.append [2, 3], .saveVote ⟨Descending.leader, true⟩,
          Descending.append [4]] =
      runEngineCommands .std (fun queue => queue) (fun _ s => some s) Descending.start
        [Descending.append [1], Descending.append [2, 3], .saveVote ⟨Descending.leader, true⟩,
          Descending.append [4]] := by
  refine (runEngineCommands_merge .std 3 (fun _ s => some s) Descending.start _ ⟨?_, ?_⟩).1
  · simp [Descending.append, Command.HasEntries]
  · simp only [Descending.append, Command.NotBehind, List.isChain_cons_cons, List.isChain_singleton]
    decide +kernel

end ZenohRaft
