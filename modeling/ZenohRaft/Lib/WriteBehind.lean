/-
  Operations that are decided now and carried out later.

  A writer keeps a queue of operations. `s` is the state on the far side of the queue, on which
  the operations are carried out from the front on; `runOps step s ops` is the state that the
  writer sees, as if all of them were done. `AllSteps Q s ops` says that every operation meets
  `Q` in the state it will find. It is stated by recursion from the front, where operations are
  taken off; `allSteps_append` is for the writer, who adds at the back.
-/
import Mathlib.Tactic.Common

namespace Lib

variable {S O : Type} (step : S → O → S)

/-- The state after a queue of operations. -/
def runOps (s : S) (ops : List O) : S := ops.foldl step s

/-- Every operation meets `Q` in the state it finds. -/
def AllSteps (Q : S → O → Prop) : S → List O → Prop
  | _, [] => True
  | s, o :: ops => Q s o ∧ AllSteps Q (step s o) ops

variable {step}

@[simp] theorem runOps_nil (s : S) : runOps step s [] = s := rfl

@[simp] theorem runOps_cons (s : S) (o : O) (ops : List O) :
    runOps step s (o :: ops) = runOps step (step s o) ops := rfl

theorem runOps_append (s : S) (a b : List O) :
    runOps step s (a ++ b) = runOps step (runOps step s a) b :=
  List.foldl_append

/-- Operations that leave every state alone. -/
theorem runOps_eq_of_idle {s : S} {ops : List O} (h : ∀ o ∈ ops, ∀ s, step s o = s) :
    runOps step s ops = s := by
  induction ops with
  | nil => rfl
  | cons o ops ih =>
    rw [runOps_cons, h o (by simp)]
    exact ih fun o ho => h o (by simp [ho])

theorem allSteps_append {Q : S → O → Prop} {s : S} {a b : List O} :
    AllSteps step Q s (a ++ b) ↔ AllSteps step Q s a ∧ AllSteps step Q (runOps step s a) b := by
  induction a generalizing s with
  | nil => simp [AllSteps]
  | cons o a ih => simp [AllSteps, ih, and_assoc]

theorem AllSteps.mono {Q Q' : S → O → Prop} {s : S} {ops : List O} (h : AllSteps step Q s ops)
    (hQ : ∀ s o, Q s o → Q' s o) : AllSteps step Q' s ops := by
  induction ops generalizing s with
  | nil => trivial
  | cons o ops ih => exact ⟨hQ s o h.1, ih h.2⟩

theorem AllSteps.and {Q Q' : S → O → Prop} {s : S} {ops : List O} (h : AllSteps step Q s ops)
    (h' : AllSteps step Q' s ops) : AllSteps step (fun s o => Q s o ∧ Q' s o) s ops := by
  induction ops generalizing s with
  | nil => trivial
  | cons o ops ih => exact ⟨⟨h.1, h'.1⟩, ih h.2 h'.2⟩

/-- Operations that meet `Q` in a state and leave it alone. -/
theorem allSteps_of_idle {Q : S → O → Prop} {s : S} {ops : List O}
    (h : ∀ o ∈ ops, step s o = s ∧ Q s o) : AllSteps step Q s ops := by
  induction ops with
  | nil => trivial
  | cons o ops ih =>
    obtain ⟨hs, hq⟩ := h o (by simp)
    refine ⟨hq, ?_⟩
    rw [hs]
    exact ih fun o ho => h o (by simp [ho])

/-- The induction rule: a property that every admitted operation keeps holds at the end. -/
theorem AllSteps.runOps {Q : S → O → Prop} {P : S → Prop} {s : S} {ops : List O}
    (h : AllSteps step Q s ops) (hs : P s) (hstep : ∀ s o, Q s o → P s → P (step s o)) :
    P (runOps step s ops) := by
  induction ops generalizing s with
  | nil => exact hs
  | cons o ops ih => exact ih h.2 (hstep s o h.1 hs)

theorem AllSteps.exists_of_mem {Q : S → O → Prop} {s : S} {ops : List O} {o : O}
    (h : AllSteps step Q s ops) (ho : o ∈ ops) : ∃ s', Q s' o := by
  induction ops generalizing s with
  | nil => cases ho
  | cons a ops ih =>
    rcases List.mem_cons.1 ho with rfl | ho
    · exact ⟨s, h.1⟩
    · exact ih h.2 ho

end Lib
