/-
  The timer of a node: `Tick::tick_loop`.

  The loop sleeps until a deadline, then sets the next one and, if ticks are enabled, sends one
  numbered tick. A wake-up may come late by any amount, and `enable` may be called at any time.

  * `TickLoop.OnGrid`: every deadline is the first one plus a multiple of the period.
  * `TickLoop.ticks_on_grid`: over every run of wake-ups the deadlines stay on the grid, a late
    wake-up skips the periods that it has missed, and the ticks are numbered without gaps, at most
    one for each period.
-/
import Mathlib.Order.Lattice

namespace ZenohRaft

/-- The state of `tick_loop`: its first deadline and its step in microseconds, the current
    deadline, the last tick number, and the ticks that were sent with the time of the wake-up. -/
structure TickLoop where
  firstWaitAt : Nat
  stepUs : Nat
  deadline : Nat
  i : Nat
  sent : List (Nat × Nat)
  deriving DecidableEq, Repr

namespace TickLoop

/-- The loop before the first sleep. The first wait is drawn between one and two periods. -/
def new (now period firstWait : Nat) : TickLoop :=
  ⟨now + firstWait, max period 1, now + firstWait, 0, []⟩

/-- The next deadline, at a wake-up at `now`. -/
def nextDeadline (t : TickLoop) (now : Nat) : Nat :=
  let offset := now - t.firstWaitAt
  t.firstWaitAt + (offset - offset % t.stepUs + t.stepUs)

/-- One round of the loop: a wake-up at the time `now`, with ticks enabled or not. -/
def wake (t : TickLoop) (now : Nat) (enabled : Bool) : TickLoop :=
  let t := { t with deadline := t.nextDeadline now }
  if enabled then { t with i := t.i + 1, sent := t.sent ++ [(now, t.i + 1)] } else t

/-- A list of wake-ups, each with its time and whether ticks were enabled then. -/
def run (t : TickLoop) : List (Nat × Bool) → TickLoop
  | [] => t
  | w :: ws => (t.wake w.1 w.2).run ws

/-- `sleep_until` does not return before the deadline. -/
def Sleeps (t : TickLoop) : List (Nat × Bool) → Prop
  | [] => True
  | w :: ws => t.deadline ≤ w.1 ∧ (t.wake w.1 w.2).Sleeps ws

instance decidableSleeps : ∀ (ws : List (Nat × Bool)) (t : TickLoop), Decidable (t.Sleeps ws)
  | [], _ => isTrue trivial
  | w :: ws, t =>
    have := decidableSleeps ws (t.wake w.1 w.2)
    inferInstanceAs (Decidable (t.deadline ≤ w.1 ∧ (t.wake w.1 w.2).Sleeps ws))

/-- The period of the grid that a time after the first deadline belongs to. -/
def cell (t : TickLoop) (now : Nat) : Nat := (now - t.firstWaitAt) / t.stepUs

/-- What every run keeps: the deadline is on the grid, and the ticks that were sent are numbered
    from one on, in periods before the deadline, each in a later period than the one before. -/
structure OnGrid (t : TickLoop) : Prop where
  step : 0 < t.stepUs
  first : t.firstWaitAt ≤ t.deadline
  grid : (t.deadline - t.firstWaitAt) % t.stepUs = 0
  numbers : t.sent.map Prod.snd = List.range' 1 t.i
  before : ∀ s ∈ t.sent, t.firstWaitAt ≤ s.1 ∧ t.cell s.1 < t.cell t.deadline
  apart : t.sent.Pairwise fun s s' => t.cell s.1 < t.cell s'.1

theorem onGrid_new (now period firstWait : Nat) : (new now period firstWait).OnGrid := by
  refine ⟨?_, le_rfl, ?_, rfl, ?_, List.Pairwise.nil⟩
  · exact lt_of_lt_of_le Nat.one_pos (le_max_right _ _)
  · simp [new]
  · intro s hs
    cases hs

/-- The next deadline is the first point of the grid after the wake-up. -/
theorem nextDeadline_spec {t : TickLoop} (hstep : 0 < t.stepUs) {now : Nat}
    (hnow : t.firstWaitAt ≤ now) : t.firstWaitAt ≤ t.nextDeadline now ∧
      (t.nextDeadline now - t.firstWaitAt) % t.stepUs = 0 ∧ now < t.nextDeadline now ∧
      t.nextDeadline now ≤ now + t.stepUs ∧ t.cell (t.nextDeadline now) = t.cell now + 1 := by
  obtain ⟨offset, hoffset⟩ : ∃ offset, offset = now - t.firstWaitAt := ⟨_, rfl⟩
  have hmod := Nat.mod_lt offset hstep
  have hdiv := Nat.div_add_mod offset t.stepUs
  have hnext : t.nextDeadline now = t.firstWaitAt + t.stepUs * (offset / t.stepUs + 1) := by
    unfold nextDeadline
    dsimp only
    rw [← hoffset, Nat.mul_add, Nat.mul_one]
    omega
  have hmul : t.stepUs * (offset / t.stepUs + 1) = t.stepUs * (offset / t.stepUs) + t.stepUs := by
    rw [Nat.mul_add, Nat.mul_one]
  refine ⟨by omega, ?_, by omega, by omega, ?_⟩
  · rw [hnext, Nat.add_sub_cancel_left, Nat.mul_mod_right]
  · unfold cell
    rw [hnext, Nat.add_sub_cancel_left, Nat.mul_div_cancel_left _ hstep, ← hoffset]

/-- A point of the grid that a wake-up has passed is not in a later period. -/
theorem cell_mono {t : TickLoop} {a b : Nat} (hab : a ≤ b) : t.cell a ≤ t.cell b :=
  Nat.div_le_div_right (Nat.sub_le_sub_right hab _)

/-- One round: a wake-up that is not before the deadline. -/
theorem OnGrid.wake {t : TickLoop} (h : t.OnGrid) {now : Nat} (hnow : t.deadline ≤ now)
    (enabled : Bool) : (t.wake now enabled).OnGrid := by
  have hfirst := h.first.trans hnow
  obtain ⟨hge, hgrid, -, -, hcell⟩ := nextDeadline_spec h.step hfirst
  have hlate : t.cell t.deadline ≤ t.cell now := cell_mono hnow
  have hbefore : ∀ s ∈ t.sent, t.firstWaitAt ≤ s.1 ∧ t.cell s.1 < t.cell (t.nextDeadline now) := by
    intro s hs
    have := (h.before s hs).2
    exact ⟨(h.before s hs).1, by omega⟩
  cases enabled with
  | false => exact ⟨h.step, hge, hgrid, h.numbers, hbefore, h.apart⟩
  | true =>
    refine ⟨h.step, hge, hgrid, ?_, ?_, ?_⟩
    · show (t.sent ++ [(now, t.i + 1)]).map Prod.snd = List.range' 1 (t.i + 1)
      rw [List.map_append, h.numbers, List.range'_concat, Nat.one_mul, Nat.add_comm 1]
      rfl
    · intro s hs
      rcases List.mem_append.1 hs with hs | hs
      · exact hbefore s hs
      · obtain rfl := List.mem_singleton.1 hs
        exact ⟨hfirst, by show t.cell now < t.cell (t.nextDeadline now); omega⟩
    · refine List.pairwise_append.2 ⟨h.apart, List.pairwise_singleton _ _, ?_⟩
      intro s hs s' hs'
      obtain rfl := List.mem_singleton.1 hs'
      exact lt_of_lt_of_le (h.before s hs).2 hlate

theorem OnGrid.run {t : TickLoop} (h : t.OnGrid) {ws : List (Nat × Bool)} (hws : t.Sleeps ws) :
    (t.run ws).OnGrid := by
  induction ws generalizing t with
  | nil => exact h
  | cons w ws ih => exact ih (h.wake hws.1 w.2) hws.2

/-- Over every run of wake-ups, however late, with ticks switched on and off at any time: the ticks
    are numbered `1, 2, …` without a gap, no two of them fall into one period, and the loop next
    wakes up at a point of the grid; if it just has woken up, at the first one that is ahead. -/
theorem ticks_on_grid (now period firstWait : Nat) (ws : List (Nat × Bool))
    (hws : (new now period firstWait).Sleeps ws) :
    let t := (new now period firstWait).run ws
    t.sent.map Prod.snd = List.range' 1 t.i ∧
      t.sent.Pairwise (fun s s' => t.cell s.1 < t.cell s'.1) ∧
      (t.deadline - t.firstWaitAt) % t.stepUs = 0 ∧
      ∀ w enabled, t.deadline ≤ w → w < (t.wake w enabled).deadline ∧
        (t.wake w enabled).deadline ≤ w + t.stepUs := by
  have h := (onGrid_new now period firstWait).run hws
  refine ⟨h.numbers, h.apart, h.grid, ?_⟩
  intro w enabled hw
  obtain ⟨-, -, hlt, hle, -⟩ := nextDeadline_spec h.step (h.first.trans hw)
  cases enabled with
  | false => exact ⟨hlt, hle⟩
  | true => exact ⟨hlt, hle⟩

/-- Period 100, the first wake-up 150 late, one wake-up while ticks are off. -/
theorem ticks_on_grid_late :
    let ws := [(300, true), (400, false), (650, true)]
    (new 0 100 150).Sleeps ws ∧ ((new 0 100 150).run ws).sent = [(300, 1), (650, 2)] ∧
      ((new 0 100 150).run ws).deadline = 750 ∧
      (((new 0 100 150).run ws).deadline - 150) % 100 = 0 := by
  have hws : (new 0 100 150).Sleeps [(300, true), (400, false), (650, true)] := by decide
  exact ⟨hws, by decide, by decide, (ticks_on_grid 0 100 150 _ hws).2.2.1⟩

end TickLoop

end ZenohRaft
