/-
  Runs of a step function that can fail.

  `step s o` is the state after the operation `o`, or `none` if it fails. `FitAll Q s ops` says
  that every operation of a list meets `Q` in the state it finds, as far as the run gets.
  `FitAll.run` and `FitAll.invariant` are the induction rules: if an operation that meets `Q`
  succeeds and keeps an invariant, so does a list of them; and what a run reaches keeps the
  invariant if every step does. `states` and `trace` are the states that a run goes through and
  what is recorded of its operations.
-/
import Mathlib.Tactic.Common

namespace Lib

variable {S O : Type} (step : S → O → Option S)

/-- The state after a list of operations. -/
def runPartial : S → List O → Option S
  | s, [] => some s
  | s, o :: ops => (step s o).bind fun s' => runPartial s' ops

/-- Every operation meets `Q` in the state it finds. -/
def FitAll (Q : S → O → Prop) : S → List O → Prop
  | _, [] => True
  | s, o :: ops => Q s o ∧ ∀ s', step s o = some s' → FitAll Q s' ops

/-- The states that a run goes through, the first one included. -/
def states : S → List O → List S
  | s, [] => [s]
  | s, o :: ops => s :: (step s o).elim [] fun s' => states s' ops

/-- What `obs` records of the operations of a run, as far as the run gets. -/
def trace {T : Type} (obs : S → O → Option T) : S → List O → List T
  | _, [] => []
  | s, o :: ops => (step s o).elim [] fun s' => (obs s o).toList ++ trace obs s' ops

instance decFitAll {Q : S → O → Prop} [∀ s o, Decidable (Q s o)] :
    (s : S) → (ops : List O) → Decidable (FitAll step Q s ops)
  | _, [] => isTrue trivial
  | s, o :: ops =>
    match h : step s o with
    | none => decidable_of_iff (Q s o)
        ⟨fun hq => ⟨hq, fun s' hs => by rw [h] at hs; cases hs⟩, fun hfit => hfit.1⟩
    | some s' =>
      have : Decidable (FitAll step Q s' ops) := decFitAll s' ops
      decidable_of_iff (Q s o ∧ FitAll step Q s' ops)
        ⟨fun hq => ⟨hq.1, fun t ht => by
          obtain rfl := Option.some.inj (h.symm.trans ht)
          exact hq.2⟩, fun hfit => ⟨hfit.1, hfit.2 s' h⟩⟩

variable {step}

theorem mem_states_self (s : S) (ops : List O) : s ∈ states step s ops := by
  cases ops with
  | nil => exact List.mem_singleton_self s
  | cons o ops => exact List.mem_cons_self

theorem mem_states_cons {s s' s'' : S} {o : O} {ops : List O} (h : step s o = some s')
    (hmem : s'' ∈ states step s' ops) : s'' ∈ states step s (o :: ops) := by
  rw [states, h]
  exact List.mem_cons_of_mem s hmem

theorem trace_of_none {T : Type} {obs : S → O → Option T} {s : S} {o : O} {ops : List O}
    (h : step s o = none) : trace step obs s (o :: ops) = [] := by
  rw [trace, h]
  rfl

theorem trace_of_some {T : Type} {obs : S → O → Option T} {s s' : S} {o : O} {ops : List O}
    (h : step s o = some s') :
    trace step obs s (o :: ops) = (obs s o).toList ++ trace step obs s' ops := by
  rw [trace, h]
  rfl

theorem FitAll.run {Q : S → O → Prop} {P : S → Prop} {s : S} {ops : List O}
    (h : FitAll step Q s ops) (hs : P s)
    (hstep : ∀ s o, Q s o → P s → ∃ s', step s o = some s' ∧ P s') :
    ∃ s', runPartial step s ops = some s' ∧ P s' := by
  induction ops generalizing s with
  | nil => exact ⟨s, rfl, hs⟩
  | cons o ops ih =>
    obtain ⟨s', hs', hP⟩ := hstep s o h.1 hs
    obtain ⟨s'', hrun, hP'⟩ := ih (h.2 s' hs') hP
    refine ⟨s'', ?_, hP'⟩
    rw [runPartial, hs', Option.bind_some, hrun]

/-- The rule for a step that may fail: what it leads to keeps the invariant. -/
theorem FitAll.invariant {Q : S → O → Prop} {P : S → Prop} {s s' : S} {ops : List O}
    (h : FitAll step Q s ops) (hs : P s)
    (hstep : ∀ s o s', Q s o → P s → step s o = some s' → P s')
    (hrun : runPartial step s ops = some s') : P s' := by
  induction ops generalizing s with
  | nil =>
    obtain rfl := Option.some.inj hrun
    exact hs
  | cons o ops ih =>
    obtain ⟨s1, hs1, hrest⟩ := Option.bind_eq_some_iff.1 hrun
    exact ih (h.2 s1 hs1) (hstep s o s1 h.1 hs hs1) hrest

end Lib
