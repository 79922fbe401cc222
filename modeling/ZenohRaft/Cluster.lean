/-
  A cluster of nodes and its runs.

  A step of a run happens at one node: a message that some node has sent arrives there, or one
  of the other events of `ZenohRaft.Node` occurs. Messages stay in the list of the sender, so
  that they may be lost, duplicated, delayed and reordered. The clock of a step is arbitrary:
  nothing is assumed about how the clocks of the nodes relate.
-/
import Mathlib.Data.Fintype.Basic
import Mathlib.Logic.Function.Basic
import ZenohRaft.Node

namespace ZenohRaft

open Lib

variable {NID N D : Type} [LinearOrder NID]

/-- A cluster: the state of every node. -/
abbrev Cluster (NID N D : Type) := NID → Node NID N D

/-- What a step of a cluster is about: message `i` of the list of `src` arrives, as a request or
    response or for its clock part, or an event other than an arrival happens. -/
inductive Action (NID N D : Type) where
  | deliver (src : NID) (i : Nat)
  | deliverClock (src : NID) (i : Nat)
  | event (ev : Event NID N D)

/-- One step: where it happens, and when by the clock of that node. -/
structure Label (NID N D : Type) where
  node : NID
  now : Nat
  action : Action NID N D

/-- Whether an event is the arrival of a message. -/
def Event.isReceive : Event NID N D → Bool
  | .receive _ => true
  | .receiveClock _ => true
  | _ => false

namespace Cluster

/-- The event that an action is at a node, if it can happen there. -/
def eventOf (c : Cluster NID N D) (node : NID) : Action NID N D → Option (Event NID N D)
  | .deliver src i =>
    ((c src).sent[i]?.filter fun m => decide (m.dst = node)).map .receive
  | .deliverClock src i =>
    ((c src).sent[i]?.filter fun m => decide (m.dst = node)).map .receiveClock
  | .event ev => if ev.isReceive then none else some ev

variable [DecidableEq N]

/-- One step of a cluster; `none` means that it cannot happen. -/
def step (c : Cluster NID N D) (l : Label NID N D) : Option (Cluster NID N D) := do
  let ev ← c.eventOf l.node l.action
  let n ← (c l.node).step l.now ev
  some (Function.update c l.node n)

/-- A run: the steps of a list, one after the other. -/
def run (c : Cluster NID N D) : List (Label NID N D) → Option (Cluster NID N D)
  | [] => some c
  | l :: ls => (c.step l).bind fun c => run c ls

/-- The state after a run. -/
def after (c : Cluster NID N D) (ls : List (Label NID N D)) : Cluster NID N D := (c.run ls).getD c

/-- `P` holds of every step of a run, and the state that it is taken in. -/
def EveryStep (P : Cluster NID N D → Label NID N D → Prop) (c : Cluster NID N D) :
    List (Label NID N D) → Prop
  | [] => True
  | l :: ls => P c l ∧ ∀ c', c.step l = some c' → EveryStep P c' ls

instance decidableEveryStep (P : Cluster NID N D → Label NID N D → Prop)
    [∀ c l, Decidable (P c l)] : ∀ ls c, Decidable (EveryStep P c ls)
  | [], _ => .isTrue trivial
  | l :: ls, c =>
    match h : c.step l with
    | none => decidable_of_iff (P c l) ⟨fun hp => ⟨hp, fun _ hc' => by cases h.symm.trans hc'⟩,
        fun hp => hp.1⟩
    | some c' =>
      have := decidableEveryStep P ls c'
      decidable_of_iff (P c l ∧ EveryStep P c' ls)
        ⟨fun hp => ⟨hp.1, fun _ hc' => Option.some.inj (h.symm.trans hc') ▸ hp.2⟩,
          fun hp => ⟨hp.1, hp.2 c' h⟩⟩

variable {c c' : Cluster NID N D} {l : Label NID N D} {ls ls' : List (Label NID N D)}

theorem run_eq_after (h : (c.run ls).isSome = true) : c.run ls = some (c.after ls) := by
  obtain ⟨c', hc'⟩ := Option.isSome_iff_exists.1 h
  rw [after, hc', Option.getD_some]

/-- What a step is: an event at one node. A message that arrives was sent by some node. -/
theorem step_cases (h : c.step l = some c') :
    ∃ ev n', (c l.node).step l.now ev = some n' ∧ c' = Function.update c l.node n' ∧
      c.eventOf l.node l.action = some ev := by
  unfold step at h
  obtain ⟨ev, hev, h⟩ := Option.bind_eq_some_iff.1 h
  obtain ⟨n', hn, h⟩ := Option.bind_eq_some_iff.1 h
  exact ⟨ev, n', hn, (Option.some.inj h).symm, hev⟩

omit [DecidableEq N] in
theorem eventOf_receive {node : NID} {a : Action NID N D} {msg : Message NID N D}
    (h : c.eventOf node a = some (.receive msg)) :
    ∃ src, msg ∈ (c src).sent ∧ msg.dst = node := by
  cases a with
  | deliver src i =>
    obtain ⟨msg', hmsg', heq⟩ := Option.map_eq_some_iff.1 h
    obtain ⟨hmem, hdst⟩ := Option.filter_eq_some_iff.1 hmsg'
    cases heq
    exact ⟨src, List.mem_of_getElem? hmem, of_decide_eq_true hdst⟩
  | deliverClock src i =>
    obtain ⟨msg', -, heq⟩ := Option.map_eq_some_iff.1 h
    cases heq
  | event ev =>
    have hev : ev.isReceive = false ∧ ev = .receive msg := by simpa [eventOf] using h
    obtain ⟨hnot, rfl⟩ := hev
    cases hnot

theorem everyStep_append {P : Cluster NID N D → Label NID N D → Prop}
    (h : c.EveryStep P (ls ++ ls')) : c.EveryStep P ls ∧
      ∀ c', c.run ls = some c' → c'.EveryStep P ls' := by
  induction ls generalizing c with
  | nil => exact ⟨trivial, fun c' hc' => Option.some.inj hc' ▸ h⟩
  | cons l ls ih =>
    refine ⟨⟨h.1, fun c1 hc1 => (ih (h.2 c1 hc1)).1⟩, ?_⟩
    intro c' hc'
    obtain ⟨c1, hc1, hrun⟩ := Option.bind_eq_some_iff.1 hc'
    exact (ih (h.2 c1 hc1)).2 c' hrun

/-- What every step keeps, under a condition on the steps, holds after a run of such steps. -/
theorem run_induction {P : Cluster NID N D → Label NID N D → Prop} {I : Cluster NID N D → Prop}
    (hstep : ∀ c l c', I c → P c l → c.step l = some c' → I c') (hc : I c)
    (hP : c.EveryStep P ls) (hr : c.run ls = some c') : I c' := by
  induction ls generalizing c with
  | nil => exact Option.some.inj hr ▸ hc
  | cons l ls ih =>
    obtain ⟨c1, hc1, hrun⟩ := Option.bind_eq_some_iff.1 hr
    exact ih (hstep c l c1 hc hP.1 hc1) (hP.2 c1 hc1) hrun

end Cluster

/-- The storage that a node is set up with: its log is one membership entry. -/
def initialStore (e0 : Entry NID N D) : LogStore NID N D :=
  ⟨none, none, none, [e0], []⟩

/-- A cluster at the start: every node has started on the initial storage, and all use one kind
    of leader id. -/
def Cluster.Initial (mode : LeaderIdMode) (e0 : Entry NID N D) (c : Cluster NID N D) : Prop :=
  ∀ k, ∃ config now, config.id = k ∧ config.mode = mode ∧
    Node.start config 0 [] now (initialStore e0) ⟨[], none⟩ = some (c k)

/-! ## A cluster of three -/

namespace Three

-- with the zero that the numerals of `Fin` use
@[instance] theorem neZero : @NeZero Nat Zero.ofOfNat0 3 := ⟨by decide⟩

/-- Three voters. -/
def membership : Membership (Fin 3) Unit :=
  ⟨[{0, 1, 2}], (((∅ : NodeMap (Fin 3) Unit).insert 0 ()).insert 1 ()).insert 2 ()⟩

/-- The first entry of their logs. -/
def firstEntry : Entry (Fin 3) Unit Nat := ⟨⟨⟨0, none⟩, 0⟩, .membership membership⟩

/-- A node with the standard leader id. -/
def config (restore : Bool) (id : Fin 3) : EngineConfig (Fin 3) :=
  ⟨id, .std, 10, 10, 10, 10, false, restore⟩

/-- The cluster at the start. -/
def cluster (restore : Bool) : Cluster (Fin 3) Unit Nat := fun k =>
  (Node.start (config restore k) 0 [] 0 (initialStore firstEntry) ⟨[], none⟩).get
    (by revert k restore; decide +kernel)

theorem cluster_initial (restore : Bool) :
    Cluster.Initial .std firstEntry (cluster restore) := fun k =>
  ⟨config restore k, 0, rfl, rfl, (Option.some_get _).symm⟩

/-- An event at a node. -/
def event (k : Fin 3) (ev : Event (Fin 3) Unit Nat) : Label (Fin 3) Unit Nat :=
  ⟨k, 0, .event ev⟩

/-- Message `i` of `src` arrives at `k`. -/
def deliver (k src : Fin 3) (i : Nat) : Label (Fin 3) Unit Nat := ⟨k, 0, .deliver src i⟩

/-- Node 0 is elected in term 1, with the votes of 0 and 1. -/
def election : List (Label (Fin 3) Unit Nat) :=
  [event 0 .elect, event 0 .runCommand, event 0 .runCommand, deliver 0 0 0, deliver 1 0 1,
    event 1 .runCommand, event 1 .runCommand, event 1 .runCommand,
    event 1 (.localIo (.new ⟨⟨1, 0⟩, false⟩)), event 1 .sendSatisfiedOnLogIo, deliver 0 1 1]

end Three

end ZenohRaft
