/-
  The client responders of a leader: `ClientResponderQueue` and its use in `RaftCore`.

  A proposal puts its responder into the queue under the index that its entry was assigned. An
  apply takes out what is up to its last index, a purge does the same with an error, and a
  truncation takes out what is from its first index on.

  * `ResponderQueue.Sorted`: the indexes in the queue are strictly increasing, which the two
    searches of the source rely on.
  * `ResponderQueue.answered_once`: over every run of proposals that go on after the queue, applies,
    purges and truncations, every responder that was put in is answered once or still waits, and
    the answer fits the index of its entry.
-/
import Mathlib.Data.List.Sort
import Mathlib.Data.List.TakeWhile

namespace ZenohRaft

variable {T : Type}

/-- `ClientResponderQueue`: the responders with their log indexes. -/
structure ResponderQueue (T : Type) where
  responders : List (Nat × T)
  deriving Repr

/-- What becomes of a responder: it goes to the state machine with an apply up to `last`, or it
    fails by a purge up to `upto` or by a truncation from `since` on. -/
inductive Answer where
  | applied (last : Nat)
  | purged (upto : Nat)
  | truncated (since : Nat)
  deriving DecidableEq, Repr

/-- Whether an answer fits an index. -/
def Answer.Fits : Answer → Nat → Prop
  | .applied last, i => i ≤ last
  | .purged upto, i => i ≤ upto
  | .truncated since, i => since ≤ i

namespace ResponderQueue

/-- `ClientResponderQueue::new`. -/
def new : ResponderQueue T := ⟨[]⟩

/-- The condition that `push` asserts. -/
def CanPush (q : ResponderQueue T) (index : Nat) : Prop :=
  ∀ r ∈ q.responders.getLast?, r.1 < index

instance (q : ResponderQueue T) (index : Nat) : Decidable (q.CanPush index) :=
  inferInstanceAs (Decidable (∀ r ∈ q.responders.getLast?, r.1 < index))

/-- `ClientResponderQueue::push`. -/
def push (q : ResponderQueue T) (index : Nat) (responder : T) : ResponderQueue T :=
  ⟨q.responders ++ [(index, responder)]⟩

/-- `ClientResponderQueue::drain_upto`: the first ones, as far as `partition_point` finds them. -/
def drainUpto (q : ResponderQueue T) (lastIndex : Nat) : List (Nat × T) × ResponderQueue T :=
  (q.responders.takeWhile fun r => decide (r.1 ≤ lastIndex),
    ⟨q.responders.dropWhile fun r => decide (r.1 ≤ lastIndex)⟩)

/-- `ClientResponderQueue::drain_from`: the last ones, from the place on that the search for
    `from_index` finds. -/
def drainFrom (q : ResponderQueue T) (fromIndex : Nat) : List (Nat × T) × ResponderQueue T :=
  (q.responders.dropWhile fun r => decide (r.1 < fromIndex),
    ⟨q.responders.takeWhile fun r => decide (r.1 < fromIndex)⟩)

/-- What the searches rely on. -/
def Sorted (q : ResponderQueue T) : Prop := q.responders.Pairwise fun r r' => r.1 < r'.1

theorem Sorted.push {q : ResponderQueue T} (h : q.Sorted) {index : Nat} (hp : q.CanPush index)
    (responder : T) : (q.push index responder).Sorted := by
  refine List.pairwise_append.2 ⟨h, List.pairwise_singleton _ _, ?_⟩
  intro r hr r' hr'
  obtain rfl := List.mem_singleton.1 hr'
  rcases List.eq_nil_or_concat q.responders with hnil | ⟨init, last, hq⟩
  · rw [hnil] at hr
    cases hr
  · rw [List.concat_eq_append] at hq
    have hlast : last.1 < index := hp last (by rw [hq]; simp)
    rw [hq] at hr
    rcases List.mem_append.1 hr with hr | hr
    · have hs := h
      unfold Sorted at hs
      rw [hq, List.pairwise_append] at hs
      exact (hs.2.2 r hr last (List.mem_singleton_self _)).trans hlast
    · obtain rfl := List.mem_singleton.1 hr
      exact hlast

theorem Sorted.drainUpto {q : ResponderQueue T} (h : q.Sorted) (lastIndex : Nat) :
    (q.drainUpto lastIndex).2.Sorted :=
  List.Pairwise.sublist (List.dropWhile_sublist _) h

theorem Sorted.drainFrom {q : ResponderQueue T} (h : q.Sorted) (fromIndex : Nat) :
    (q.drainFrom fromIndex).2.Sorted :=
  List.Pairwise.sublist (List.takeWhile_sublist _) h

/-- In a sorted queue what is not drained up to an index is after it. -/
theorem Sorted.lt_of_mem_dropWhile {q : ResponderQueue T} (h : q.Sorted) {bound : Nat}
    {l : List (Nat × T)} (hl : q.responders.dropWhile (fun r => decide (r.1 < bound)) = l) :
    ∀ r ∈ l, bound ≤ r.1 := by
  cases l with
  | nil => exact fun r hr => absurd hr List.not_mem_nil
  | cons first rest =>
    have hfirst : bound ≤ first.1 := by
      have hhead := List.head?_dropWhile_not (fun r : Nat × T => decide (r.1 < bound)) q.responders
      rw [hl] at hhead
      simpa using hhead
    have hs : (first :: rest).Pairwise fun r r' => r.1 < r'.1 := by
      rw [← hl]
      exact List.Pairwise.sublist (List.dropWhile_sublist _) h
    intro r hr
    rcases List.mem_cons.1 hr with rfl | hr
    · exact hfirst
    · exact hfirst.trans ((List.pairwise_cons.1 hs).1 r hr).le

/-! ## Runs -/

/-- What `RaftCore` does with the queue. -/
inductive Op (T : Type) where
  /-- `write_entries`, for one entry with a responder -/
  | write (index : Nat) (responder : T)
  /-- `apply_to_state_machine` -/
  | apply (last : Nat)
  /-- `run_purge_log` -/
  | purge (upto : Nat)
  /-- `run_truncate_log` -/
  | truncate (since : Nat)
  deriving Repr

/-- The queue, with the answers so far. -/
structure Run (T : Type) where
  queue : ResponderQueue T
  answers : List ((Nat × T) × Answer)

namespace Run

/-- One operation. -/
def step (s : Run T) : Op T → Run T
  | .write index responder => { s with queue := s.queue.push index responder }
  | .apply last => ⟨(s.queue.drainUpto last).2,
      s.answers ++ (s.queue.drainUpto last).1.map fun r => (r, .applied last)⟩
  | .purge upto => ⟨(s.queue.drainUpto upto).2,
      s.answers ++ (s.queue.drainUpto upto).1.map fun r => (r, .purged upto)⟩
  | .truncate since => ⟨(s.queue.drainFrom since).2,
      s.answers ++ (s.queue.drainFrom since).1.map fun r => (r, .truncated since)⟩

/-- A list of operations. -/
def run (s : Run T) : List (Op T) → Run T
  | [] => s
  | op :: ops => (s.step op).run ops

/-- No push of a run fails its assertion. -/
def Pushes (s : Run T) : List (Op T) → Prop
  | [] => True
  | .write index responder :: ops =>
    s.queue.CanPush index ∧ (s.step (.write index responder)).Pushes ops
  | op :: ops => (s.step op).Pushes ops

/-- The responders that a list of operations puts into the queue. -/
def written : List (Op T) → List (Nat × T)
  | [] => []
  | .write index responder :: ops => (index, responder) :: written ops
  | _ :: ops => written ops

/-- What every run keeps, for the responders `ws` that were put in. -/
structure Accounted (s : Run T) (ws : List (Nat × T)) : Prop where
  sorted : s.queue.Sorted
  all : (s.answers.map Prod.fst ++ s.queue.responders).Perm ws
  fits : ∀ a ∈ s.answers, a.2.Fits a.1.1

/-- Some of the queue is answered, the rest stays. -/
theorem Accounted.answer {s : Run T} {ws : List (Nat × T)} (h : s.Accounted ws)
    {gone : List (Nat × T)} {rest : ResponderQueue T} {answer : Answer}
    (hrest : rest.Sorted) (hperm : (gone ++ rest.responders).Perm s.queue.responders)
    (hfits : ∀ r ∈ gone, answer.Fits r.1) :
    Accounted ⟨rest, s.answers ++ gone.map fun r => (r, answer)⟩ ws := by
  refine ⟨hrest, ?_, ?_⟩
  · show ((s.answers ++ gone.map fun r => (r, answer)).map Prod.fst ++ rest.responders).Perm ws
    rw [List.map_append, List.map_map, List.append_assoc]
    have hid : gone.map (Prod.fst ∘ fun r : Nat × T => (r, answer)) = gone := List.map_id gone
    rw [hid]
    exact (List.Perm.append_left _ hperm).trans h.all
  · intro a ha
    rcases List.mem_append.1 ha with ha | ha
    · exact h.fits a ha
    · obtain ⟨r, hr, rfl⟩ := List.mem_map.1 ha
      exact hfits r hr

theorem Accounted.drainUpto {s : Run T} {ws : List (Nat × T)} (h : s.Accounted ws) (last : Nat)
    {answer : Answer} (hfits : ∀ i, i ≤ last → answer.Fits i) :
    Accounted ⟨(s.queue.drainUpto last).2,
      s.answers ++ (s.queue.drainUpto last).1.map fun r => (r, answer)⟩ ws := by
  refine h.answer (h.sorted.drainUpto last) ?_ ?_
  · exact List.Perm.of_eq
      (List.takeWhile_append_dropWhile (p := fun r : Nat × T => decide (r.1 ≤ last)))
  · intro r hr
    have hr : decide (r.1 ≤ last) = true :=
      List.mem_takeWhile_imp (p := fun r : Nat × T => decide (r.1 ≤ last)) hr
    exact hfits _ (of_decide_eq_true hr)

theorem Accounted.drainFrom {s : Run T} {ws : List (Nat × T)} (h : s.Accounted ws) (since : Nat) :
    Accounted ⟨(s.queue.drainFrom since).2,
      s.answers ++ (s.queue.drainFrom since).1.map fun r => (r, .truncated since)⟩ ws := by
  refine h.answer (h.sorted.drainFrom since) ?_ ?_
  · refine List.perm_append_comm.trans (List.Perm.of_eq ?_)
    exact List.takeWhile_append_dropWhile (p := fun r : Nat × T => decide (r.1 < since))
  · exact fun r hr => h.sorted.lt_of_mem_dropWhile rfl r hr

theorem Accounted.run {s : Run T} {ws : List (Nat × T)} (h : s.Accounted ws) {ops : List (Op T)}
    (hops : s.Pushes ops) : (s.run ops).Accounted (ws ++ written ops) := by
  induction ops generalizing s ws with
  | nil =>
    rw [written, List.append_nil]
    exact h
  | cons op ops ih =>
    cases op with
    | write index responder =>
      have hstep : (s.step (.write index responder)).Accounted (ws ++ [(index, responder)]) := by
        refine ⟨h.sorted.push hops.1 responder, ?_, h.fits⟩
        show (_ ++ (s.queue.responders ++ [(index, responder)])).Perm _
        rw [← List.append_assoc]
        exact List.Perm.append_right _ h.all
      have hrun := ih hstep hops.2
      rw [List.append_assoc] at hrun
      exact hrun
    | apply last => exact ih (h.drainUpto last fun _ hi => hi) hops
    | purge upto => exact ih (h.drainUpto upto fun _ hi => hi) hops
    | truncate since => exact ih (h.drainFrom since) hops

end Run

/-- Over every run that starts from an empty queue and whose pushes go on after it: the responders
    that were put in are, each exactly once, among the answers or in the queue; the queue is
    strictly increasing by index; a responder that is passed on with an apply or fails by a purge
    is not after its end, and one that fails by a truncation is not before its start. -/
theorem answered_once (ops : List (Op T)) (hops : (⟨new, []⟩ : Run T).Pushes ops) :
    let s := (⟨new, []⟩ : Run T).run ops
    (s.answers.map Prod.fst ++ s.queue.responders).Perm (Run.written ops) ∧
      s.queue.responders.Pairwise (fun r r' => r.1 < r'.1) ∧
      ∀ a ∈ s.answers, a.2.Fits a.1.1 := by
  have h0 : (⟨new, []⟩ : Run T).Accounted [] :=
    ⟨List.Pairwise.nil, List.Perm.refl _, fun a ha => absurd ha List.not_mem_nil⟩
  have h := h0.run hops
  exact ⟨h.all, h.sorted, h.fits⟩

/-- Three proposals, of which one is applied and one is truncated. -/
theorem answered_once_truncated :
    let ops : List (Op Nat) := [.write 1 10, .write 2 20, .write 4 40, .apply 2, .truncate 3,
      .write 3 30]
    (⟨new, []⟩ : Run Nat).Pushes ops ∧
      ((⟨new, []⟩ : Run Nat).run ops).answers =
        [((1, 10), .applied 2), ((2, 20), .applied 2), ((4, 40), .truncated 3)] ∧
      (((⟨new, []⟩ : Run Nat).run ops).answers.map Prod.fst ++
        ((⟨new, []⟩ : Run Nat).run ops).queue.responders).Perm (Run.written ops) := by
  have hops : (⟨new, []⟩ : Run Nat).Pushes [.write 1 10, .write 2 20, .write 4 40, .apply 2,
      .truncate 3, .write 3 30] := by
    refine ⟨?_, ?_, ?_, ?_, trivial⟩ <;> decide
  exact ⟨hops, by decide, (answered_once _ hops).1⟩

end ResponderQueue

end ZenohRaft
