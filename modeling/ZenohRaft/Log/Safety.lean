/-
  Safety of a cluster whose history is sound.

  `Node.Ran` is a node that was set up with the first entry of the cluster and has taken events that
  fit the history. What its commands will have written is `Engine.written`, so the statements below
  are about the log in the store and not only about what the engine has in memory.

  * `memory_agrees_with_log`: the log ids, the committed log id, the snapshot and the memberships in
    memory are those of the log.
  * `committed_logs_agree`: two nodes have one entry at an index that both know to be committed.
  * `committed_stays`: a committed entry stays in the log until it is purged.
  * `acknowledged_entries_match`: what a response that waits acknowledges is what the leader has.
  * `vote_for_complete_log`: a vote is given to a candidate that has what is committed of the log.
  * `vote_requests_carry_log_end`, `appended_entries_continue`, `purged_up_to_committed`: what a
    node asks with, writes and purges.
-/
import ZenohRaft.Cluster
import ZenohRaft.Log.NodeRun

namespace ZenohRaft

open Lib

variable {NID N D : Type} [LinearOrder NID]

/-! ## What commands write -/

/-- The last purged log id after a command. -/
def Command.writePurged (purged : Option (LogId NID)) : Command NID N D → Option (LogId NID)
  | .purgeLog upto => some upto
  | _ => purged

/-- The whole log after the commands `cs`, what was purged included. -/
def Node.logAfter (h : History NID N D) (n : Node NID N D) (cs : List (Command NID N D)) :
    List (Entry NID N D) :=
  h.upTo (cs.foldl Command.writePurged n.store.purged) ++ cs.foldl Command.writeLog n.store.readable

theorem View.entries_step (X : View NID N D) (c : Command NID N D) :
    (X.step c).entries = c.writeLog X.entries := by
  cases c with
  | stateMachine cmd => cases cmd <;> rfl
  | _ => rfl

theorem View.purged_step (X : View NID N D) (c : Command NID N D) :
    (X.step c).purged = c.writePurged X.purged := by
  cases c with
  | stateMachine cmd => cases cmd <;> rfl
  | _ => rfl

theorem View.entries_runOps (X : View NID N D) (cs : List (Command NID N D)) :
    (runOps View.step X cs).entries = cs.foldl Command.writeLog X.entries := by
  induction cs generalizing X with
  | nil => rfl
  | cons c cs ih => rw [runOps_cons, ih, List.foldl_cons, entries_step]

theorem View.purged_runOps (X : View NID N D) (cs : List (Command NID N D)) :
    (runOps View.step X cs).purged = cs.foldl Command.writePurged X.purged := by
  induction cs generalizing X with
  | nil => rfl
  | cons c cs ih => rw [runOps_cons, ih, List.foldl_cons, purged_step]

namespace Node

variable {h : History NID N D} {n n' : Node NID N D} {io : Option (LogId NID)} {sub : IOId NID}

theorem full_runOps (h : History NID N D) (n : Node NID N D) (io : Option (LogId NID))
    (sub : IOId NID) (cs : List (Command NID N D)) :
    (runOps View.step (n.view io sub) cs).full h = n.logAfter h cs := by
  unfold View.full logAfter
  rw [View.entries_runOps, View.purged_runOps]
  rfl

theorem InOrder.wholeLog_eq (hn : n.InOrder h io sub) :
    n.wholeLog h = n.logAfter h n.engine.output.commands := by
  rw [← hn.full_eq]
  exact full_runOps h n io sub n.engine.output.commands

theorem InOrder.logIds_eq (hn : n.InOrder h io sub) : n.engine.state.logIds =
    ⟨n.engine.output.commands.foldl Command.writePurged n.store.purged,
      (n.engine.written n.store.readable).map Entry.logId⟩ := by
  rw [hn.mem.logIds]
  unfold final
  rw [View.entries_runOps, View.purged_runOps]
  rfl

/-! ## Start -/

/-- The history begins with the entry `e0` that every node is set up with. -/
structure Begins (h : History NID N D) (e0 : Entry NID N D) : Prop where
  index : e0.logId.index = 0
  term : e0.epoch.term = 0
  log : [e0] <+: h.log e0.epoch

variable {e0 : Entry NID N D} {config : EngineConfig NID} {now : Nat}

/-- What a node starts with on the initial storage. -/
theorem getInitialState_initialStore (id : NID) (now : Nat) (e0 : Entry NID N D) :
    getInitialState id now (initialStore e0) ⟨[], none⟩ =
      some (.recovered now ⟨⟨0, id⟩, false⟩ (initialStore e0) ⟨[], none⟩
        (getMembership (initialStore e0) ⟨[], none⟩) none, initialStore e0, ⟨[], none⟩) := by
  have hlast : ¬ (initialStore e0).lastLogId < (initialStore e0).purged := Option.not_lt_none
  have hre : reapplyCommitted (initialStore e0) ⟨[], none⟩ =
      some ((⟨[], none⟩ : StateMachine NID N D), none) := by
    have hno : ¬ (none : Option (LogId NID)) < max none none := by
      rw [max_self]
      exact Option.not_lt_none
    unfold reapplyCommitted
    exact if_neg hno
  unfold getInitialState
  dsimp only
  rw [if_neg hlast, hre]
  rfl

omit [LinearOrder NID] in
theorem getMembership_initialStore (e0 : Entry NID N D) :
    getMembership (initialStore e0) ⟨[], none⟩ = ⟨.default, lastMembershipIn [e0]⟩ := by
  cases hp : e0.payload.getMembership with
  | none =>
    simp [getMembership, initialStore, StateMachine.lastApplied, StateMachine.lastMembership,
      storedMemberships, lastMembershipIn, hp]
  | some m =>
    simp [getMembership, initialStore, StateMachine.lastApplied, StateMachine.lastMembership,
      storedMemberships, lastMembershipIn, hp]

omit [LinearOrder NID] in
theorem tracks_initialStore (e0 : Entry NID N D) :
    MembershipState.Tracks (storedMemberships [e0])
      (⟨.default, lastMembershipIn [e0]⟩ : MembershipState NID N) := by
  refine ⟨rfl, Or.inr ?_⟩
  unfold storedMemberships
  cases hp : e0.payload.getMembership with
  | none => simp [hp, MembershipState.lastOf]
  | some m => simp [hp, MembershipState.lastOf]

theorem start_initialStore
    (hstart : Node.start config 0 [] now (initialStore e0) ⟨[], none⟩ = some n) :
    n.engine = .new (.recovered now ⟨⟨0, config.id⟩, false⟩ (initialStore e0) ⟨[], none⟩
      ⟨.default, lastMembershipIn [e0]⟩ none) config ∧
    n.store = initialStore e0 ∧ n.streams = none ∧ n.committedWatch = none := by
  have hstartup : ∀ state : RaftState NID N, state.voteRef.committed = false →
      (Engine.new state config : Engine NID N D).startup now = .new state config := by
    intro state hv
    have hleader : ¬ state.isLeader config.id = true := by
      unfold RaftState.isLeader
      rw [hv, Bool.and_false]
      exact Bool.false_ne_true
    exact if_neg hleader
  unfold Node.start at hstart
  rw [getInitialState_initialStore, getMembership_initialStore] at hstart
  obtain rfl := Option.some.inj hstart
  exact ⟨hstartup _ rfl, rfl, rfl, rfl⟩

/-- A node that starts on the initial storage. -/
theorem InOrder.of_start (hs : h.Sound config.mode) (hb : Begins h e0)
    (hstart : Node.start config 0 [] now (initialStore e0) ⟨[], none⟩ = some n) :
    n.engine.config = config ∧ n.InOrder h none (.new ⟨⟨0, config.id⟩, false⟩) := by
  obtain ⟨hengine, hstore, hstreams, hwatch⟩ := start_initialStore hstart
  have hlog : h.IsLog [e0] := (hs.isLog_log e0.epoch).of_le hb.log
  have hview : n.view none (.new ⟨⟨0, config.id⟩, false⟩) =
      ⟨⟨⟨0, config.id⟩, false⟩, none, [e0], none, .new ⟨⟨0, config.id⟩, false⟩, none, none⟩ := by
    unfold view Node.id
    rw [hengine, hstore, hstreams, hwatch]
    rfl
  have hcommands : n.engine.output.commands = [] := by
    rw [hengine]
    rfl
  have hok : View.OK config.mode h (⟨⟨⟨0, config.id⟩, false⟩, none, [e0], none,
      .new ⟨⟨0, config.id⟩, false⟩, none, none⟩ : View NID N D) := by
    refine ⟨nofun, hlog, ?_, nofun, rfl, nofun, nofun⟩
    intro x hx
    obtain ⟨ent, hent, rfl⟩ := (hasId_iff_mem hlog.2).1 hx
    obtain rfl := List.mem_singleton.1 hent
    exact Or.inr hb.term
  have hmem : LogMem config.mode h config.id (⟨⟨⟨0, config.id⟩, false⟩, none, [e0], none,
      .new ⟨⟨0, config.id⟩, false⟩, none, none⟩ : View NID N D)
      (.recovered now ⟨⟨0, config.id⟩, false⟩ (initialStore e0) ⟨[], none⟩
        ⟨.default, lastMembershipIn [e0]⟩ none) :=
    { vote := Or.inl rfl
      logIds := rfl
      ok := hok
      accepted := ⟨.new ⟨⟨0, config.id⟩, false⟩, rfl, rfl, le_rfl, fun hio => absurd rfl hio,
        holds_none, holds_none⟩
      committed := holds_none
      com := nofun
      cluster := nofun
      snapshot := holds_none
      snapshot_le := le_rfl
      purgeUpto := holds_none
      purgeUpto_le := le_rfl
      purged_le := le_rfl
      building := le_rfl
      membership := tracks_initialStore e0
      membership_com := nofun }
  refine ⟨by rw [hengine]; rfl, ?_, ?_, ?_, ?_⟩
  · rw [hview, hengine]
    exact hok
  · rw [hcommands]
    trivial
  · unfold final Engine.Mem
    rw [hcommands, hview, hengine]
    exact hmem
  · unfold final
    rw [hcommands, hview, hengine]
    exact Engine.role_of_following rfl rfl rfl (Bool.and_false _)

/-! ## Runs -/

variable [DecidableEq N] {evs evs' : List (Nat × Event NID N D)}

/-- The node `n` was set up with `e0` and has taken the events `evs`, which fit the history. -/
def Ran (h : History NID N D) (e0 : Entry NID N D) (config : EngineConfig NID)
    (evs : List (Nat × Event NID N D)) (n : Node NID N D) : Prop :=
  ∃ now n0, Node.start config 0 [] now (initialStore e0) ⟨[], none⟩ = some n0 ∧
    FitAll Node.stepAt (fun n o => n.Fits h o) n0 evs ∧ runPartial Node.stepAt n0 evs = some n

/-- Events that fit the history, one after the other. -/
theorem InOrder.run (hn : n.InOrder h io sub) (hs : h.Sound n.engine.config.mode)
    (hfit : FitAll Node.stepAt (fun n o => n.Fits h o) n evs)
    (hrun : runPartial Node.stepAt n evs = some n') : Reaches h n n' := by
  refine hfit.invariant hn.same ?_ hrun
  intro n1 o n2 hq h1 hstep
  obtain ⟨io1, sub1, hn1⟩ := h1.inOrder
  exact h1.trans (hn1.step (by rw [h1.config]; exact hs) hq hstep)

theorem Ran.inOrder (hs : h.Sound config.mode) (hb : Begins h e0) (hr : Ran h e0 config evs n) :
    n.engine.config = config ∧ ∃ io sub, n.InOrder h io sub := by
  obtain ⟨now, n0, hstart, hfit, hrun⟩ := hr
  obtain ⟨hc, hn0⟩ := InOrder.of_start hs hb hstart
  have hreach := hn0.run (by rw [hc]; exact hs) hfit hrun
  exact ⟨hreach.config.trans hc, hreach.inOrder⟩

/-- A command that waits is in order in the log that it will find. -/
theorem Ran.queued (hs : h.Sound config.mode) (hb : Begins h e0) (hr : Ran h e0 config evs n)
    {pre post : List (Command NID N D)} {c : Command NID N D}
    (hcs : n.engine.output.commands = pre ++ c :: post) :
    ∃ X : View NID N D, X.full h = n.logAfter h pre ∧ X.OK config.mode h ∧
      c.LogOK config.mode h config.id X := by
  obtain ⟨hc, io, sub, hn⟩ := hr.inOrder hs hb
  have hid : n.id = config.id := congrArg EngineConfig.id hc
  have hq := hn.queue
  rw [hcs, allSteps_append, hc, hid] at hq
  have hok := hn.ok
  rw [hc] at hok
  exact ⟨_, full_runOps h n io sub pre, hok.runOps hs hq.1, hq.2.1⟩

end Node

/-! ### Two leaders -/

namespace Three

/-- An entry of the leader of a term, after the first entry. -/
def entryOf (term : Nat) : Entry (Fin 3) Unit Nat := ⟨⟨⟨term, none⟩, 1⟩, .normal term⟩

/-- Node 1 leads in term 1 and node 2 in term 2. Each has an entry of its own, and that of the
    second leader is committed. Node 1, which has got this entry, asks for votes in term 3. -/
def twoLeaders : History (Fin 3) Unit Nat where
  log k := if k = ⟨1, none⟩ then [firstEntry, entryOf 1] else
    if k = ⟨2, none⟩ then [firstEntry, entryOf 2] else if k = ⟨0, none⟩ then [firstEntry] else []
  leader l := l = ⟨1, 1⟩ ∨ l = ⟨2, 2⟩
  com k x := k = ⟨2, none⟩ ∧ (x = firstEntry.logId ∨ x = (entryOf 2).logId)
  asked l last := l = ⟨3, 1⟩ ∧ last = some (entryOf 2).logId
  held _ _ _ := False
  granted _ _ := False

theorem twoLeaders_log (k : CommittedLeaderId (Fin 3)) : twoLeaders.log k = [] ∨
    k = ⟨0, none⟩ ∧ twoLeaders.log k = [firstEntry] ∨
      ∃ t, k = ⟨t, none⟩ ∧ (t = 1 ∨ t = 2) ∧ twoLeaders.log k = [firstEntry, entryOf t] := by
  by_cases h1 : k = ⟨1, none⟩
  · exact Or.inr (Or.inr ⟨1, h1, Or.inl rfl, by rw [h1]; rfl⟩)
  · by_cases h2 : k = ⟨2, none⟩
    · exact Or.inr (Or.inr ⟨2, h2, Or.inr rfl, by rw [h2]; rfl⟩)
    · by_cases h0 : k = ⟨0, none⟩
      · exact Or.inr (Or.inl ⟨h0, by rw [h0]; rfl⟩)
      · exact Or.inl (by simp [twoLeaders, h0, h1, h2])

/-- Which entry is where. -/
theorem twoLeaders_at {k : CommittedLeaderId (Fin 3)} {i : Nat} {ent : Entry (Fin 3) Unit Nat}
    (h : (twoLeaders.log k)[i]? = some ent) : i = 0 ∧ ent = firstEntry ∧
      (twoLeaders.log k).take 1 = [firstEntry] ∧ k = ⟨k.term, none⟩ ∨
      i = 1 ∧ ent = entryOf k.term ∧ k = ⟨k.term, none⟩ ∧ (k.term = 1 ∨ k.term = 2) := by
  rcases twoLeaders_log k with hl | ⟨rfl, hl⟩ | ⟨t, rfl, ht, hl⟩
  · rw [hl] at h
    cases h
  · rw [hl] at h
    cases i with
    | zero => exact Or.inl ⟨rfl, (Option.some.inj h).symm, by rw [hl]; rfl, rfl⟩
    | succ i => cases h
  · rw [hl] at h
    match i with
    | 0 => exact Or.inl ⟨rfl, (Option.some.inj h).symm, by rw [hl]; rfl, rfl⟩
    | 1 => exact Or.inr ⟨rfl, (Option.some.inj h).symm, rfl, ht⟩

theorem twoLeaders_indexed (k : CommittedLeaderId (Fin 3)) : IndexedFrom 0 (twoLeaders.log k) := by
  intro i ent hent
  rcases twoLeaders_at hent with ⟨rfl, rfl, -⟩ | ⟨rfl, rfl, -⟩ <;> rfl

theorem twoLeaders_sound : twoLeaders.Sound .std where
  logs := by
    refine ⟨?_, ?_⟩
    · intro k i j hat
      obtain ⟨ent, hent, rfl⟩ := Option.map_eq_some_iff.1 hat
      rcases twoLeaders_at hent with ⟨rfl, rfl, htake, -⟩ | ⟨rfl, rfl, hk, -⟩
      · rw [htake]
        rfl
      · rw [hk]
        rfl
    · intro k i j hat
      obtain ⟨ent, hent, rfl⟩ := Option.map_eq_some_iff.1 hat
      rcases twoLeaders_at hent with ⟨-, rfl, -, hk⟩ | ⟨-, rfl, hk, -⟩
      · rw [hk]
        refine Prod.Lex.le_iff.2 ?_
        rcases Nat.eq_zero_or_pos k.term with h0 | hpos
        · exact Or.inr ⟨h0.symm, le_rfl⟩
        · exact Or.inl hpos
      · exact hk.ge
  indexed := twoLeaders_indexed
  unique := by
    rintro l l' (rfl | rfl) (rfl | rfl) h
    · rfl
    · cases h
    · cases h
    · rfl
  com_mem := by
    rintro k x ⟨rfl, rfl | rfl⟩ <;> rfl
  com_later := by
    rintro k x l ⟨rfl, hx⟩ (rfl | rfl) hle
    · exact absurd hle (by decide)
    · exact ⟨rfl, hx⟩
  com_down := by
    rintro k x y ⟨rfl, -⟩ hy -
    obtain ⟨ent, hent, rfl⟩ := (hasId_iff_getElem? (twoLeaders_indexed _)).1 hy
    rcases twoLeaders_at hent with ⟨-, rfl, -⟩ | ⟨-, rfl, -⟩
    · exact ⟨rfl, Or.inl rfl⟩
    · exact ⟨rfl, Or.inr rfl⟩
  memb := by
    intro k i j ent ent' hent hent' hij hm hm'
    rcases twoLeaders_at hent' with ⟨rfl, -⟩ | ⟨-, rfl, -⟩
    · omega
    · cases hm'

/-- The leader of a term sends its entry to the node `k`. -/
def request (k : Fin 3) (V : LeaderId (Fin 3)) (commit : Option (LogId (Fin 3))) :
    Nat × Event (Fin 3) Unit Nat :=
  (0, .receive (.appendEntries ⟨V.nodeId, 0, V, k, 0, false, none, 0⟩
    ⟨⟨V, true⟩, some firstEntry.logId, [entryOf V.term], commit⟩))

/-- Both leaders reach node `0`. -/
def bothLeaders : List (Nat × Event (Fin 3) Unit Nat) :=
  [request 0 ⟨1, 1⟩ none, request 0 ⟨2, 2⟩ (some (entryOf 2).logId)]

/-- The second leader reaches node `1`. -/
def secondLeader : List (Nat × Event (Fin 3) Unit Nat) :=
  [request 1 ⟨2, 2⟩ (some (entryOf 2).logId)]

/-- The commands are carried out; the appended entries have to be durable before the next vote is
    saved. -/
def carryOut : List (Nat × Event (Fin 3) Unit Nat) :=
  List.replicate 5 (0, .runCommand) ++ (0, .flush) :: List.replicate 4 (0, .runCommand)

/-- Node `0` follows the second leader; later the candidate asks for its vote. -/
def candidacy : List (Nat × Event (Fin 3) Unit Nat) :=
  [request 0 ⟨2, 2⟩ (some (entryOf 2).logId),
    (100, .receive (.vote false 1 0 ⟨⟨⟨3, 1⟩, false⟩, some (entryOf 2).logId, false⟩))]

/-- Node `0` follows the first leader and then stands for election. -/
def challenge : List (Nat × Event (Fin 3) Unit Nat) := [request 0 ⟨1, 1⟩ none, (100, .elect)]

/-- The snapshot of the second leader. -/
def secondSnapshot : Snapshot (Fin 3) Unit Nat :=
  ⟨⟨some (entryOf 2).logId, lastMembershipIn [firstEntry, entryOf 2]⟩, [firstEntry, entryOf 2]⟩

/-- What goes with it to node `0`. -/
def secondCtx : StreamCtx (Fin 3) := ⟨2, 0, ⟨2, 2⟩, 0, 0, false, none, 0⟩

/-- Node `0` follows the first leader and then gets the snapshot of the second one. -/
def restoring : List (Nat × Event (Fin 3) Unit Nat) :=
  [request 0 ⟨1, 1⟩ none,
    (0, .receive (.installFullSnapshot secondCtx ⟨⟨2, 2⟩, true⟩ secondSnapshot))]

def challenger : Node (Fin 3) Unit Nat :=
  (runPartial Node.stepAt (cluster false 0) challenge).get (by decide +kernel)

def restored : Node (Fin 3) Unit Nat :=
  (runPartial Node.stepAt (cluster false 0) restoring).get (by decide +kernel)

def voter : Node (Fin 3) Unit Nat :=
  (runPartial Node.stepAt (cluster false 0) candidacy).get (by decide +kernel)

def followerOfBoth : Node (Fin 3) Unit Nat :=
  (runPartial Node.stepAt (cluster false 0) bothLeaders).get (by decide +kernel)

def followerOfSecond : Node (Fin 3) Unit Nat :=
  (runPartial Node.stepAt (cluster false 1) secondLeader).get (by decide +kernel)

def carriedOut : Node (Fin 3) Unit Nat :=
  (runPartial Node.stepAt followerOfBoth carryOut).get (by decide +kernel)

/-- The event does not depend on what a leader counts, and fits the history at a node `k`. -/
def Plain (k : Fin 3) (ev : Event (Fin 3) Unit Nat) : Prop :=
  ∀ (now : Nat) (n : Node (Fin 3) Unit Nat), n.id = k → n.engine.config.mode = .std →
    n.EventOK twoLeaders now ev

theorem plain_request {k : Fin 3} {V : LeaderId (Fin 3)} {commit : Option (LogId (Fin 3))}
    (hV : twoLeaders.leader V) (hk : V.nodeId ≠ k)
    (hcom : ∀ c, commit = some c → twoLeaders.com (V.toCommitted .std) c) :
    Plain k (request k V commit).2 := by
  intro _ n hid hmode
  refine ⟨V, rfl, hid.symm, rfl, hV, by rw [hid]; exact hk, ?_, by rw [hmode]; exact hcom⟩
  refine ⟨[firstEntry], [], ?_, rfl⟩
  rw [hmode]
  rcases hV with rfl | rfl <;> rfl

theorem fitAll_of_plain {k : Fin 3} {evs : List (Nat × Event (Fin 3) Unit Nat)}
    {n : Node (Fin 3) Unit Nat} (hevs : ∀ o ∈ evs, Plain k o.2)
    (hfit : FitAll Node.stepAt (fun n o => (n.id = k ∧ n.engine.config.mode = .std) ∧
      ((n.stepAt o).all fun n' => n'.engine.leader.isNone) = true) n evs) :
    FitAll Node.stepAt (fun n o => n.Fits twoLeaders o) n evs := by
  induction evs generalizing n with
  | nil => trivial
  | cons o evs ih =>
    obtain ⟨⟨⟨hid, hmode⟩, hnone⟩, hrest⟩ := hfit
    refine ⟨⟨hevs o List.mem_cons_self o.1 n hid hmode, ?_⟩, fun n' hn' =>
      ih (fun o ho => hevs o (List.mem_cons_of_mem _ ho)) (hrest n' hn')⟩
    intro n' hn' l hl
    rw [hn', Option.all_some, hl] at hnone
    cases hnone

theorem begins_twoLeaders : Node.Begins twoLeaders firstEntry :=
  ⟨rfl, rfl, List.prefix_refl _⟩

theorem ran_of_plain {k : Fin 3} {evs : List (Nat × Event (Fin 3) Unit Nat)}
    {n : Node (Fin 3) Unit Nat} (hevs : ∀ o ∈ evs, Plain k o.2)
    (hfit : FitAll Node.stepAt (fun n o => (n.id = k ∧ n.engine.config.mode = .std) ∧
      ((n.stepAt o).all fun n' => n'.engine.leader.isNone) = true) (cluster false k) evs)
    (hrun : runPartial Node.stepAt (cluster false k) evs = some n) :
    Node.Ran twoLeaders firstEntry (config false k) evs n :=
  ⟨0, cluster false k, (Option.some_get _).symm, fitAll_of_plain hevs hfit, hrun⟩

theorem plain_second {k : Fin 3} (hk : 2 ≠ k) :
    Plain k (request k ⟨2, 2⟩ (some (entryOf 2).logId)).2 :=
  plain_request (Or.inr rfl) hk fun _ hc => ⟨rfl, Or.inr (Option.some.inj hc).symm⟩

theorem ran_followerOfBoth :
    Node.Ran twoLeaders firstEntry (config false 0) bothLeaders followerOfBoth := by
  refine ran_of_plain ?_ (by decide +kernel) (Option.some_get _).symm
  intro o ho
  simp only [bothLeaders, List.mem_cons, List.not_mem_nil, or_false] at ho
  rcases ho with rfl | rfl
  · exact plain_request (Or.inl rfl) (by decide) nofun
  · exact plain_second (by decide)

theorem ran_followerOfSecond :
    Node.Ran twoLeaders firstEntry (config false 1) secondLeader followerOfSecond := by
  refine ran_of_plain ?_ (by decide +kernel) (Option.some_get _).symm
  intro o ho
  obtain rfl := List.mem_singleton.1 ho
  exact plain_second (by decide)

theorem ran_voter : Node.Ran twoLeaders firstEntry (config false 0) candidacy voter := by
  refine ran_of_plain ?_ (by decide +kernel) (Option.some_get _).symm
  intro o ho
  simp only [candidacy, List.mem_cons, List.not_mem_nil, or_false] at ho
  rcases ho with rfl | rfl
  · exact plain_second (by decide)
  · intro _ n hid hmode
    exact ⟨by rw [hid]; decide, rfl, rfl, rfl⟩

theorem ran_challenger :
    Node.Ran twoLeaders firstEntry (config false 0) challenge challenger := by
  refine ran_of_plain ?_ (by decide +kernel) (Option.some_get _).symm
  intro o ho
  simp only [challenge, List.mem_cons, List.not_mem_nil, or_false] at ho
  rcases ho with rfl | rfl
  · exact plain_request (Or.inl rfl) (by decide) nofun
  · exact fun _ _ _ _ => trivial

/-- The snapshot reaches node `0` from its leader. -/
theorem installOK_second : Engine.InstallOK .std twoLeaders 0 ⟨2, 2⟩ secondCtx ⟨⟨2, 2⟩, true⟩
    secondSnapshot := by
  refine ⟨rfl, rfl, Or.inr rfl, by decide, ?_⟩
  intro x hx
  obtain rfl := Option.some.inj hx
  exact ⟨⟨rfl, Or.inr rfl⟩, rfl, rfl⟩

theorem ran_restored : Node.Ran twoLeaders firstEntry (config false 0) restoring restored := by
  refine ran_of_plain ?_ (by decide +kernel) (Option.some_get _).symm
  intro o ho
  simp only [restoring, List.mem_cons, List.not_mem_nil, or_false] at ho
  rcases ho with rfl | rfl
  · exact plain_request (Or.inl rfl) (by decide) nofun
  · intro _ n hid hmode
    refine ⟨⟨2, 2⟩, ?_⟩
    rw [hid, hmode]
    exact installOK_second

theorem twoLeaders_led (k : CommittedLeaderId (Fin 3)) (x : LogId (Fin 3))
    (hx : HasId (twoLeaders.log k) x) (hterm : x.leaderId.term ≠ 0) :
    ∃ l, twoLeaders.leader l ∧ l.toCommitted .std = x.leaderId := by
  obtain ⟨ent, hent, rfl⟩ := (hasId_iff_getElem? (twoLeaders_indexed k)).1 hx
  rcases twoLeaders_at hent with ⟨-, rfl, -⟩ | ⟨-, rfl, -, hk | hk⟩
  · exact absurd rfl hterm
  · exact ⟨⟨1, 1⟩, Or.inl rfl, by rw [hk]; rfl⟩
  · exact ⟨⟨2, 2⟩, Or.inr rfl, by rw [hk]; rfl⟩

theorem fitAll_carryOut :
    FitAll Node.stepAt (fun n o => n.Fits twoLeaders o) followerOfBoth carryOut := by
  refine fitAll_of_plain (k := 0) ?_ (by decide +kernel)
  intro o ho
  have hev : o.2 = .runCommand ∨ o.2 = .flush := by
    simp only [carryOut, List.mem_append, List.mem_cons, List.mem_replicate] at ho
    rcases ho with ⟨-, rfl⟩ | rfl | ⟨-, rfl⟩
    · exact Or.inl rfl
    · exact Or.inr rfl
    · exact Or.inl rfl
  rcases hev with hev | hev
  · rw [hev]
    exact fun _ _ _ _ => trivial
  · rw [hev]
    exact fun _ _ _ _ => trivial

end Three

namespace Node

open Three

variable {h : History NID N D} {n n' : Node NID N D} {io : Option (LogId NID)} {sub : IOId NID}
variable {e0 : Entry NID N D} {config : EngineConfig NID}
variable [DecidableEq N] {evs evs' : List (Nat × Event NID N D)}

/-! ## The memory and the log -/

/-- What a node has in memory is its log: the log ids are those that the store has when the commands
    that wait are carried out, this log is one that leaders have had, and the committed log id, the
    snapshot and the memberships are in it. -/
theorem memory_agrees_with_log (hs : h.Sound config.mode) (hb : Begins h e0)
    (hr : Ran h e0 config evs n) :
    n.engine.state.logIds.ids = (n.engine.written n.store.readable).map Entry.logId ∧
      h.upTo n.engine.state.logIds.purged ++ n.engine.written n.store.readable = n.wholeLog h ∧
      h.IsLog (n.wholeLog h) ∧
      Holds (n.wholeLog h) n.engine.state.localCommitted ∧
      Holds (n.wholeLog h) n.engine.state.snapshotMeta.lastLogId ∧
      nextIndex n.engine.state.snapshotMeta.lastLogId ≤ nextIndex n.engine.state.localCommitted ∧
      nextIndex n.engine.state.logIds.purged ≤ nextIndex n.engine.state.localCommitted ∧
      MembershipState.Tracks (storedMemberships (n.wholeLog h)) n.engine.state.membershipState := by
  obtain ⟨hc, io, sub, hn⟩ := hr.inOrder hs hb
  have hids := hn.logIds_eq
  have hpurged := hn.mem.purged_le_committed
  have hmem := hn.mem
  unfold Engine.Mem at hmem
  rw [show (n.final io sub).purged = n.engine.state.logIds.purged by rw [hmem.logIds]] at hpurged
  rw [← hn.full_eq]
  refine ⟨by rw [hids], ?_, hmem.ok.log, hmem.committed, hmem.snapshot, hmem.snapshot_le, hpurged,
    hmem.membership⟩
  rw [hn.full_eq, hn.wholeLog_eq, hids]
  rfl

/-- After two leaders, the second of which has an entry in the place of the first one's. -/
theorem memory_agrees_with_log_two_leaders : twoLeaders.Sound .std ∧
    Begins twoLeaders firstEntry ∧
    Ran twoLeaders firstEntry (Three.config false 0) bothLeaders followerOfBoth ∧
    followerOfBoth.engine.state.logIds.ids =
      (followerOfBoth.engine.written followerOfBoth.store.readable).map Entry.logId ∧
    followerOfBoth.engine.written followerOfBoth.store.readable = [firstEntry, entryOf 2] :=
  ⟨twoLeaders_sound, begins_twoLeaders, ran_followerOfBoth,
    (memory_agrees_with_log twoLeaders_sound begins_twoLeaders ran_followerOfBoth).1, rfl⟩

/-! ## What is committed -/

section

omit [DecidableEq N]

theorem InOrder.isLog_wholeLog (hn : n.InOrder h io sub) : h.IsLog (n.wholeLog h) := by
  rw [← hn.full_eq]
  exact hn.mem.ok.log

theorem InOrder.getElem?_wholeLog (hn : n.InOrder h io sub) {ent : Entry NID N D}
    (hent : ent ∈ n.engine.written n.store.readable) :
    (n.wholeLog h)[ent.logId.index]? = some ent := by
  have hmem : ent ∈ n.wholeLog h := by
    rw [hn.wholeLog_eq]
    exact List.mem_append_right _ hent
  obtain ⟨i, hi⟩ := List.mem_iff_getElem?.1 hmem
  have hidx := hn.isLog_wholeLog.2 i ent hi
  rw [hidx, Nat.zero_add]
  exact hi

/-- What is in the log is in the store or purged. -/
theorem InOrder.mem_written (hn : n.InOrder h io sub) {i : Nat} {ent : Entry NID N D}
    (hent : (n.wholeLog h)[i]? = some ent) :
    ent ∈ n.engine.written n.store.readable ∨ i < nextIndex n.engine.state.logIds.purged := by
  have hpurged : (n.final io sub).purged = n.engine.state.logIds.purged := by rw [hn.mem.logIds]
  have hlen := View.length_upTo_purged hn.mem.ok
  rw [hpurged, hn.logIds_eq] at hlen
  rw [hn.wholeLog_eq, logAfter] at hent
  by_cases hi : i < nextIndex n.engine.state.logIds.purged
  · exact Or.inr hi
  · refine Or.inl ?_
    rw [hn.logIds_eq] at hi
    rw [List.getElem?_append_right (by rw [hlen]; omega)] at hent
    exact List.mem_of_getElem? hent

/-- What a node knows to be committed is in its log, and in that of a node that knows more. -/
theorem InOrder.upTo_committed_le {io' : Option (LogId NID)} {sub' : IOId NID}
    (hs : h.Sound config.mode) (hn : n.InOrder h io sub) (hn' : n'.InOrder h io' sub')
    (hmode : n.engine.config.mode = config.mode) (hmode' : n'.engine.config.mode = config.mode)
    {c c' : LogId NID} (hc : n.engine.state.localCommitted = some c)
    (hc' : n'.engine.state.localCommitted = some c') (hle : c.index ≤ c'.index) :
    h.upTo (some c) <+: n'.wholeLog h := by
  have hcom := hn.mem.com c hc
  have hcom' := hn'.mem.com c' hc'
  rw [hmode] at hcom
  rw [hmode'] at hcom'
  have hin : HasId (n'.wholeLog h) c' := by
    rw [← hn'.full_eq]
    exact hn'.mem.committed c' hc'
  exact ((hs.isLog_upTo _).upTo_le (hs.com_compatible hcom hcom' hle)).trans
    (hn'.isLog_wholeLog.upTo_le hin)

theorem InOrder.length_upTo_committed (hs : h.Sound n.engine.config.mode)
    (hn : n.InOrder h io sub) {c : LogId NID} (hc : n.engine.state.localCommitted = some c) :
    (h.upTo (some c)).length = c.index + 1 :=
  History.length_upTo (hs.com_known (hn.mem.com c hc))

end

/-- Two nodes have the same entry at an index that both know to be committed. -/
theorem committed_logs_agree {config' : EngineConfig NID} (hs : h.Sound config.mode)
    (hb : Begins h e0) (hmode : config'.mode = config.mode) (hr : Ran h e0 config evs n)
    (hr' : Ran h e0 config' evs' n') {ent ent' : Entry NID N D}
    (hent : ent ∈ n.engine.written n.store.readable)
    (hent' : ent' ∈ n'.engine.written n'.store.readable)
    (hidx : ent'.logId.index = ent.logId.index)
    (hcom : ent.logId.index < nextIndex n.engine.state.localCommitted)
    (hcom' : ent.logId.index < nextIndex n'.engine.state.localCommitted) : ent' = ent := by
  obtain ⟨hc, io, sub, hn⟩ := hr.inOrder hs hb
  obtain ⟨hc', io', sub', hn'⟩ := hr'.inOrder (by rw [hmode]; exact hs) hb
  have hm : n.engine.config.mode = config.mode := by rw [hc]
  have hm' : n'.engine.config.mode = config.mode := by rw [hc', hmode]
  have hat := hn.getElem?_wholeLog hent
  have hat' := hn'.getElem?_wholeLog hent'
  rw [hidx] at hat'
  -- both logs go on from a common prefix that is longer than the index
  have hshared : ∀ l : List (Entry NID N D), l <+: n.wholeLog h → l <+: n'.wholeLog h →
      ent.logId.index < l.length → ent' = ent := by
    intro l hl hl' hlt
    rw [List.prefix_iff_getElem?.1 hl _ hlt] at hat
    rw [List.prefix_iff_getElem?.1 hl' _ hlt] at hat'
    exact (Option.some.inj hat').symm.trans (Option.some.inj hat)
  cases hcn : n.engine.state.localCommitted with
  | none =>
    rw [hcn] at hcom
    cases hcom
  | some c =>
    cases hcn' : n'.engine.state.localCommitted with
    | none =>
      rw [hcn'] at hcom'
      cases hcom'
    | some c' =>
      rw [hcn, nextIndex_some] at hcom
      rw [hcn', nextIndex_some] at hcom'
      rcases le_total c.index c'.index with hle | hle
      · refine hshared (h.upTo (some c)) (hn.upTo_committed_le hs hn hm hm hcn hcn le_rfl)
          (hn.upTo_committed_le hs hn' hm hm' hcn hcn' hle) ?_
        rw [hn.length_upTo_committed (by rw [hm]; exact hs) hcn]
        exact hcom
      · refine hshared (h.upTo (some c')) (hn'.upTo_committed_le hs hn hm' hm hcn' hcn hle)
          (hn'.upTo_committed_le hs hn' hm' hm' hcn' hcn' le_rfl) ?_
        rw [hn'.length_upTo_committed (by rw [hm']; exact hs) hcn']
        exact hcom'

/-- A follower of both leaders and a follower of the second one. -/
theorem committed_logs_agree_two_leaders : twoLeaders.Sound .std ∧
    Ran twoLeaders firstEntry (Three.config false 0) bothLeaders followerOfBoth ∧
    Ran twoLeaders firstEntry (Three.config false 1) secondLeader followerOfSecond ∧
    (1 < nextIndex followerOfBoth.engine.state.localCommitted ∧
      1 < nextIndex followerOfSecond.engine.state.localCommitted) ∧
    ∀ ent ∈ followerOfBoth.engine.written followerOfBoth.store.readable,
      ∀ ent' ∈ followerOfSecond.engine.written followerOfSecond.store.readable,
        ent.logId.index = 1 → ent'.logId.index = 1 → ent' = ent := by
  have hcom : 1 < nextIndex followerOfBoth.engine.state.localCommitted := by decide +kernel
  have hcom' : 1 < nextIndex followerOfSecond.engine.state.localCommitted := by decide +kernel
  refine ⟨twoLeaders_sound, ran_followerOfBoth, ran_followerOfSecond, ⟨hcom, hcom'⟩, ?_⟩
  intro ent hent ent' hent' hi hi'
  exact committed_logs_agree twoLeaders_sound begins_twoLeaders
    (show (Three.config false 1).mode = .std from rfl) ran_followerOfBoth ran_followerOfSecond hent
    hent' (hi'.trans hi.symm) (by rw [hi]; exact hcom)
    (by rw [hi]; exact hcom')

/-- `local_committed` does not go back, and an entry up to it stays in the log or is purged. -/
theorem committed_stays (hs : h.Sound config.mode) (hb : Begins h e0) (hr : Ran h e0 config evs n)
    (hfit : FitAll Node.stepAt (fun n o => n.Fits h o) n evs')
    (hrun : runPartial Node.stepAt n evs' = some n') :
    n.engine.state.localCommitted ≤ n'.engine.state.localCommitted ∧
      ∀ ent ∈ n.engine.written n.store.readable,
        ent.logId.index < nextIndex n.engine.state.localCommitted →
          ent ∈ n'.engine.written n'.store.readable ∨
            ent.logId.index < nextIndex n'.engine.state.logIds.purged := by
  obtain ⟨hc, io, sub, hn⟩ := hr.inOrder hs hb
  have hreach := hn.run (by rw [hc]; exact hs) hfit hrun
  obtain ⟨io', sub', hn'⟩ := hreach.inOrder
  have hm : n.engine.config.mode = config.mode := by rw [hc]
  have hm' : n'.engine.config.mode = config.mode := by rw [hreach.config, hc]
  refine ⟨hreach.committed, ?_⟩
  intro ent hent hcom
  have hle := hreach.committed
  cases hcn : n.engine.state.localCommitted with
  | none =>
    rw [hcn] at hcom
    cases hcom
  | some c =>
    cases hcn' : n'.engine.state.localCommitted with
    | none =>
      rw [hcn, hcn'] at hle
      cases hle
    | some c' =>
      rw [hcn, nextIndex_some] at hcom
      rw [hcn, hcn'] at hle
      have hidx := hs.index_le_of_com
        (by rw [← hm]; exact hn.mem.com c hcn) (by rw [← hm']; exact hn'.mem.com c' hcn')
        (Option.some_le_some.1 hle)
      have hpre := hn.upTo_committed_le hs hn' hm hm' hcn hcn' hidx
      have hpre0 := hn.upTo_committed_le hs hn hm hm hcn hcn le_rfl
      have hlt : ent.logId.index < (h.upTo (some c)).length := by
        rw [hn.length_upTo_committed (by rw [hm]; exact hs) hcn]
        exact hcom
      have hat := hn.getElem?_wholeLog hent
      rw [List.prefix_iff_getElem?.1 hpre0 _ hlt] at hat
      refine hn'.mem_written (i := ent.logId.index) ?_
      rw [List.prefix_iff_getElem?.1 hpre _ hlt]
      exact hat

/-- The commands of a follower of both leaders are carried out. -/
theorem committed_stays_carried_out : twoLeaders.Sound .std ∧
    Ran twoLeaders firstEntry (Three.config false 0) bothLeaders followerOfBoth ∧
    FitAll Node.stepAt (fun n o => n.Fits twoLeaders o) followerOfBoth carryOut ∧
    followerOfBoth.engine.state.localCommitted ≤ carriedOut.engine.state.localCommitted :=
  ⟨twoLeaders_sound, ran_followerOfBoth, fitAll_carryOut,
    (committed_stays twoLeaders_sound begins_twoLeaders ran_followerOfBoth fitAll_carryOut
      (Option.some_get _).symm).1⟩

/-! ## What is acknowledged -/

/-- When a response that acknowledges `y` is reached, the log is that of the leader up to `y`. -/
theorem acknowledged_entries_match (hs : h.Sound config.mode) (hb : Begins h e0)
    (hr : Ran h e0 config evs n) {pre post : List (Command NID N D)}
    {condition : Option (Condition NID)} {ctx : StreamCtx NID} {y : LogId NID}
    (hcs : n.engine.output.commands =
      pre ++ .respond condition (.appendEntries ctx (.ok (some y))) :: post) :
    HasId (h.log (ctx.leaderVote.toCommitted config.mode)) y ∧
      (n.logAfter h pre).take (y.index + 1) =
        (h.log (ctx.leaderVote.toCommitted config.mode)).take (y.index + 1) := by
  obtain ⟨X, hX, hok, -, -, a, -, -, hle, hfull, hleader, hlast⟩ := hr.queued hs hb hcs
  have hlog := hok.log
  rw [hX] at hfull hlog
  have hy := hlast y rfl
  refine ⟨hy, ?_⟩
  cases hx : a.lastLogId with
  | none =>
    rw [hx] at hle
    cases hle
  | some x =>
    have hxl := hfull x hx
    have hxv := hleader x hx
    have hyx : y.index ≤ x.index := by
      rw [hx] at hle
      exact (hs.le_iff_index (hs.isLog_log _) hy hxv).1 (Option.some_le_some.1 hle)
    have htake := (hlog.take_eq_upTo hxl).trans ((hs.isLog_log _).take_eq_upTo hxv).symm
    exact take_take_eq htake hyx

/-- The follower of the second leader answers that it has the entry. -/
theorem acknowledged_entries_match_second : twoLeaders.Sound .std ∧
    ∃ pre condition ctx post, followerOfSecond.engine.output.commands =
      pre ++ .respond condition (.appendEntries ctx (.ok (some (entryOf 2).logId))) :: post ∧
    (followerOfSecond.logAfter twoLeaders pre).take 2 = [firstEntry, entryOf 2] := by
  have hcs : followerOfSecond.engine.output.commands =
      followerOfSecond.engine.output.commands.take 3 ++
        .respond (some (.ioFlushed (.newLogIo ⟨2, 2⟩ (some (entryOf 2).logId))))
          (.appendEntries ⟨2, 0, ⟨2, 2⟩, 1, 0, false, none, 0⟩
            (.ok (some (entryOf 2).logId))) :: [] := rfl
  exact ⟨twoLeaders_sound, _, _, _, _, hcs,
    (acknowledged_entries_match twoLeaders_sound begins_twoLeaders ran_followerOfSecond hcs).2⟩

/-! ## Votes -/

omit [DecidableEq N] in
/-- A log that ends at a log id which is not before the end of `l`. -/
theorem tipLe_upTo {l : List (Entry NID N D)} {last : Option (LogId NID)} (hl : IndexedFrom 0 l)
    (hlast : ∀ x, last = some x → HasId (h.log x.leaderId) x) (hle : tipId l ≤ last) :
    TipLe Entry.epoch l (h.upTo last) := by
  intro i k hat hi
  rw [(tipId_eq_some (x := ⟨k, i⟩) hl).2 ⟨hat, hi⟩] at hle
  cases last with
  | none => cases hle
  | some x =>
    exact ⟨x.index, x.leaderId, History.hasId_upTo (hlast x rfl),
      LogId.le_iff.1 (Option.some_le_some.1 hle)⟩

omit [DecidableEq N] in
/-- A committed log id is in every log that is not behind one that has it. -/
theorem hasId_of_com {mode : LeaderIdMode} (hs : h.Sound mode)
    (hled : ∀ k x, HasId (h.log k) x → x.leaderId.term ≠ 0 →
      ∃ l, h.leader l ∧ l.toCommitted mode = x.leaderId)
    {l l' : List (Entry NID N D)} (hl : h.IsLog l) (hl' : h.IsLog l')
    (htip : TipLe Entry.epoch l l') {y : LogId NID} (hy : HasId l y) (hcom : h.com y.leaderId y)
    (hterm : y.leaderId.term ≠ 0) : HasId l' y := by
  refine IsPath.at_of_tipLe hs.logs hl.1 hl'.1 hy htip ?_
  intro w j hlt hat
  have hw : w.term ≠ 0 := by
    rcases CommittedLeaderId.lt_iff.1 hlt with hlt | ⟨heq, -⟩
    · omega
    · omega
  obtain ⟨V, hV, rfl⟩ := hled w ⟨w, j⟩ (hl'.1.at_log hat) hw
  exact hs.com_mem _ y (hs.com_later _ y V hcom hV hlt.le)

/-- A vote is sent when it is durable, and is given to a candidate whose log has what is committed
    of the log that the node has then. -/
theorem vote_for_complete_log (hs : h.Sound config.mode) (hb : Begins h e0)
    (hled : ∀ k x, HasId (h.log k) x → x.leaderId.term ≠ 0 →
      ∃ l, h.leader l ∧ l.toCommitted config.mode = x.leaderId)
    (hasked : ∀ l x, h.asked l (some x) → HasId (h.log x.leaderId) x)
    (hr : Ran h e0 config evs n) {pre post : List (Command NID N D)}
    {condition : Option (Condition NID)} {candidate : NID} {candidateVote : LeaderId NID}
    {resp : VoteResponse NID}
    (hcs : n.engine.output.commands =
      pre ++ .respond condition (.vote false candidate candidateVote resp) :: post)
    (hgranted : resp.voteGranted = true) :
    condition = some (.ioFlushed (.new resp.vote)) ∧
      ∃ last, h.asked resp.vote.leaderId last ∧ tipId (n.logAfter h pre) ≤ last ∧
        ∀ y, HasId (n.logAfter h pre) y → h.com y.leaderId y → y.leaderId.term ≠ 0 →
          HasId (h.upTo last) y := by
  obtain ⟨X, hX, hok, hresp⟩ := hr.queued hs hb hcs
  obtain ⟨hvote, -, hcond, last, hlast, hle⟩ := hresp hgranted
  have hlog := hok.log
  rw [hX] at hlog hle
  rw [hvote]
  refine ⟨hcond, last, hlast, hle, ?_⟩
  intro y hy hcom hterm
  have hknown : ∀ x, last = some x → HasId (h.log x.leaderId) x := fun x hx =>
    hasked _ x (by rw [← hx]; exact hlast)
  exact hasId_of_com hs hled hlog (hs.isLog_upTo last) (tipLe_upTo hlog.2 hknown hle) hy hcom hterm

/-- The candidate that has the committed entry gets a vote. -/
theorem vote_for_complete_log_third : twoLeaders.Sound .std ∧
    ∃ pre condition post, voter.engine.output.commands =
      pre ++ .respond condition (.vote false 1 ⟨3, 1⟩
        ⟨⟨⟨3, 1⟩, false⟩, true, some (entryOf 2).logId⟩) :: post ∧
    condition = some (.ioFlushed (.new ⟨⟨3, 1⟩, false⟩)) := by
  have hcs : voter.engine.output.commands = voter.engine.output.commands.take 6 ++
      .respond (some (.ioFlushed (.new ⟨⟨3, 1⟩, false⟩))) (.vote false 1 ⟨3, 1⟩
        ⟨⟨⟨3, 1⟩, false⟩, true, some (entryOf 2).logId⟩) :: [] := rfl
  refine ⟨twoLeaders_sound, _, _, _, hcs, ?_⟩
  refine (vote_for_complete_log twoLeaders_sound begins_twoLeaders twoLeaders_led ?_ ran_voter hcs
    rfl).1
  rintro l x ⟨-, hx⟩
  obtain rfl := Option.some.inj hx
  rfl

/-- A candidate asks for votes with the end of the log that it has then, under a vote of its own. -/
theorem vote_requests_carry_log_end (hs : h.Sound config.mode) (hb : Begins h e0)
    (hr : Ran h e0 config evs n) {pre post : List (Command NID N D)} {req : VoteRequest NID}
    (hcs : n.engine.output.commands = pre ++ .sendVote false req :: post) :
    req.lastLogId = tipId (n.logAfter h pre) ∧ req.vote.leaderId.nodeId = config.id ∧
      req.vote.committed = false ∧ req.vote.leaderId.term ≠ 0 := by
  obtain ⟨X, hX, -, hcommitted, hown, hterm, -, hlast⟩ := hr.queued hs hb hcs
  rw [hX] at hlast
  exact ⟨hlast, hown, hcommitted, hterm⟩

/-- A follower of the first leader asks with the entry that waits to be written. -/
theorem vote_requests_carry_log_end_waiting : twoLeaders.Sound .std ∧
    ∃ pre req, challenger.engine.output.commands = pre ++ .sendVote false req :: [] ∧
      req.lastLogId = tipId (challenger.logAfter twoLeaders pre) := by
  have hcs : challenger.engine.output.commands = challenger.engine.output.commands.take 5 ++
      .sendVote false ⟨⟨⟨2, 0⟩, false⟩, some (entryOf 1).logId, false⟩ :: [] := rfl
  exact ⟨twoLeaders_sound, _, _, hcs,
    (vote_requests_carry_log_end twoLeaders_sound begins_twoLeaders ran_challenger hcs).1⟩

/-! ## What is written and purged -/

/-- Entries that are appended continue the log without a gap, as the leader has them. -/
theorem appended_entries_continue (hs : h.Sound config.mode) (hb : Begins h e0)
    (hr : Ran h e0 config evs n) {pre post : List (Command NID N D)} {V : LeaderId NID}
    {es : List (Entry NID N D)}
    (hcs : n.engine.output.commands = pre ++ .appendEntries V es :: post) :
    h.leader V ∧ es ≠ [] ∧ IndexedFrom (n.logAfter h pre).length es ∧
      n.logAfter h pre ++ es <+: h.log (V.toCommitted config.mode) := by
  obtain ⟨X, hX, hok, hvote, hne, hpre, -, -⟩ := hr.queued hs hb hcs
  rw [hX] at hpre
  have hled := hok.led (by rw [hvote])
  rw [hvote] at hled
  have hidx := (indexedFrom_append.1 ((hs.indexed _).of_le hpre)).2
  rw [Nat.zero_add] at hidx
  exact ⟨hled, hne, hidx, hpre⟩

/-- The entry of the second leader. -/
theorem appended_entries_continue_second : twoLeaders.Sound .std ∧
    ∃ pre post, followerOfSecond.engine.output.commands =
      pre ++ .appendEntries ⟨2, 2⟩ [entryOf 2] :: post ∧
    followerOfSecond.logAfter twoLeaders pre ++ [entryOf 2] <+: [firstEntry, entryOf 2] := by
  have hcs : followerOfSecond.engine.output.commands =
      followerOfSecond.engine.output.commands.take 2 ++
        .appendEntries ⟨2, 2⟩ [entryOf 2] :: followerOfSecond.engine.output.commands.drop 3 := rfl
  exact ⟨twoLeaders_sound, _, _, hcs,
    (appended_entries_continue twoLeaders_sound begins_twoLeaders ran_followerOfSecond hcs).2.2.2⟩

/-- The log is purged up to a log id that a leader has committed, and that is in the log, or is the
    end of a snapshot which the log does not reach. -/
theorem purged_up_to_committed (hs : h.Sound config.mode) (hb : Begins h e0)
    (hr : Ran h e0 config evs n) {pre post : List (Command NID N D)} {upto : LogId NID}
    (hcs : n.engine.output.commands = pre ++ .purgeLog upto :: post) :
    (∃ V, h.leader V ∧ h.com (V.toCommitted config.mode) upto) ∧
      (HasId (n.logAfter h pre) upto ∨ (n.logAfter h pre).length ≤ upto.index) := by
  obtain ⟨X, hX, -, ⟨-, hupto⟩, V, hV, hcom, -⟩ := hr.queued hs hb hcs
  rw [hX] at hupto
  refine ⟨⟨V, hV, hcom⟩, ?_⟩
  rcases hupto with hin | ⟨-, -, hahead, -⟩
  · exact Or.inl hin
  · exact Or.inr hahead

/-- A snapshot replaces the entry of the first leader. -/
theorem purged_up_to_committed_snapshot : twoLeaders.Sound .std ∧
    ∃ pre post, restored.engine.output.commands = pre ++ .purgeLog (entryOf 2).logId :: post ∧
      ∃ V, twoLeaders.leader V ∧ twoLeaders.com (V.toCommitted .std) (entryOf 2).logId := by
  have hcs : restored.engine.output.commands = restored.engine.output.commands.take 8 ++
      .purgeLog (entryOf 2).logId :: restored.engine.output.commands.drop 9 := rfl
  exact ⟨twoLeaders_sound, _, _, hcs,
    (purged_up_to_committed twoLeaders_sound begins_twoLeaders ran_restored hcs).1⟩

end Node

end ZenohRaft
