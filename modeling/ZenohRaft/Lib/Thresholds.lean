/-
  A queue of thresholds of which only the front is tested.

  Items wait for a value to reach their threshold. They come through a first queue (`queued`): an
  item at its front whose threshold is reached goes through at once, any other is put at the back of
  a second one (`waiting`). From there items leave in order, so that one that is reached may be kept
  behind one that is not.

  `Thresholds.InOrder` rules this out. `top` is a value that only rises, `met` says which thresholds
  are reached and only grows. Whatever is put in the first queue is either reached already or is the
  `top` of that moment (`InOrder.push`).

  * `InOrder.unmet`: if the front of the second queue is not reached, none in it is.
-/
import Mathlib.Order.Basic
import Mathlib.Tactic.Common

namespace Lib

variable {T : Type}

/-- The thresholds in the two queues. -/
structure Thresholds (T : Type) where
  waiting : List T
  queued : List T

namespace Thresholds

/-- The thresholds that are not reached stand in order, below `top`. -/
structure InOrder (le : T → T → Prop) (top : Option T) (met : T → Prop) (w : Thresholds T) :
    Prop where
  waiting : w.waiting.Pairwise le
  waiting_le : ∀ a ∈ w.waiting, ∃ t ∈ top, le a t
  queued : w.queued.Pairwise fun a b => ¬ met a → ¬ met b → le a b
  queued_le : ∀ a ∈ w.queued, ¬ met a → ∃ t ∈ top, le a t
  across : ∀ a ∈ w.waiting, ∀ b ∈ w.queued, ¬ met b → le a b

variable {le : T → T → Prop} {top top' : Option T} {met met' : T → Prop}
variable {waiting queued : List T} {a b : T}

theorem inOrder_nil : InOrder le top met ⟨[], []⟩ :=
  ⟨List.Pairwise.nil, fun _ h => absurd h List.not_mem_nil, List.Pairwise.nil,
    fun _ h => absurd h List.not_mem_nil, fun _ h => absurd h List.not_mem_nil⟩

namespace InOrder

/-- The top rises, and more thresholds are reached. -/
theorem rise (h : InOrder le top met ⟨waiting, queued⟩)
    (htrans : ∀ {a b c}, le a b → le b c → le a c) (htop : ∀ t ∈ top, ∃ t' ∈ top', le t t')
    (hmet : ∀ a, met a → met' a) : InOrder le top' met' ⟨waiting, queued⟩ := by
  have hbelow : ∀ {a}, (∃ t ∈ top, le a t) → ∃ t ∈ top', le a t := by
    rintro a ⟨t, ht, hat⟩
    obtain ⟨t', ht', htt'⟩ := htop t ht
    exact ⟨t', ht', htrans hat htt'⟩
  refine ⟨h.waiting, fun a ha => hbelow (h.waiting_le a ha), ?_, ?_, ?_⟩
  · exact h.queued.imp fun hab ha hb => hab (mt (hmet _) ha) (mt (hmet _) hb)
  · exact fun a ha hnot => hbelow (h.queued_le a ha (mt (hmet a) hnot))
  · exact fun a ha b hb hnot => h.across a ha b hb (mt (hmet b) hnot)

/-- An item comes whose threshold is reached, or is the top. -/
theorem push (h : InOrder le top met ⟨waiting, queued⟩) (hrefl : ∀ a, le a a)
    (hb : met b ∨ top = some b) : InOrder le top met ⟨waiting, queued ++ [b]⟩ := by
  have hbelow : ∀ {a}, (∃ t ∈ top, le a t) → ¬ met b → le a b := by
    rintro a ⟨t, ht, hat⟩ hnot
    rcases hb with hmet | htop
    · exact absurd hmet hnot
    · rw [htop] at ht
      obtain rfl := Option.some.inj ht
      exact hat
  refine ⟨h.waiting, h.waiting_le, ?_, ?_, ?_⟩
  · refine List.pairwise_append.2 ⟨h.queued, List.pairwise_singleton _ _, ?_⟩
    intro a ha b' hb' hnot hnot'
    rw [List.mem_singleton.1 hb'] at hnot' ⊢
    exact hbelow (h.queued_le a ha hnot) hnot'
  · intro a ha hnot
    rcases List.mem_append.1 ha with ha | ha
    · exact h.queued_le a ha hnot
    · rw [List.mem_singleton.1 ha] at hnot ⊢
      rcases hb with hmet | htop
      · exact absurd hmet hnot
      · exact ⟨b, htop, hrefl b⟩
  · intro a ha b' hb' hnot
    rcases List.mem_append.1 hb' with hb' | hb'
    · exact h.across a ha b' hb' hnot
    · rw [List.mem_singleton.1 hb'] at hnot ⊢
      exact hbelow (h.waiting_le a ha) hnot

/-- The front item of the first queue goes through. -/
theorem through (h : InOrder le top met ⟨waiting, b :: queued⟩) :
    InOrder le top met ⟨waiting, queued⟩ :=
  ⟨h.waiting, h.waiting_le, (List.pairwise_cons.1 h.queued).2,
    fun a ha => h.queued_le a (List.mem_cons_of_mem _ ha),
    fun a ha b hb => h.across a ha b (List.mem_cons_of_mem _ hb)⟩

/-- The front item of the first queue has to wait. -/
theorem postpone (h : InOrder le top met ⟨waiting, b :: queued⟩) (hb : ¬ met b) :
    InOrder le top met ⟨waiting ++ [b], queued⟩ := by
  obtain ⟨hfirst, hqueued⟩ := List.pairwise_cons.1 h.queued
  refine ⟨?_, ?_, hqueued, fun a ha => h.queued_le a (List.mem_cons_of_mem _ ha), ?_⟩
  · refine List.pairwise_append.2 ⟨h.waiting, List.pairwise_singleton _ _, ?_⟩
    intro a ha b' hb'
    rw [List.mem_singleton.1 hb']
    exact h.across a ha b List.mem_cons_self hb
  · intro a ha
    rcases List.mem_append.1 ha with ha | ha
    · exact h.waiting_le a ha
    · rw [List.mem_singleton.1 ha]
      exact h.queued_le b List.mem_cons_self hb
  · intro a ha c hc hnot
    rcases List.mem_append.1 ha with ha | ha
    · exact h.across a ha c (List.mem_cons_of_mem _ hc) hnot
    · rw [List.mem_singleton.1 ha]
      exact hfirst c hc hb hnot

/-- The front item of the second queue leaves. -/
theorem pop (h : InOrder le top met ⟨a :: waiting, queued⟩) :
    InOrder le top met ⟨waiting, queued⟩ :=
  ⟨(List.pairwise_cons.1 h.waiting).2, fun a ha => h.waiting_le a (List.mem_cons_of_mem _ ha),
    h.queued, h.queued_le, fun a ha => h.across a (List.mem_cons_of_mem _ ha)⟩

/-- If the front of the second queue is not reached, none in it is. -/
theorem unmet (h : InOrder le top met ⟨a :: waiting, queued⟩)
    (hdown : ∀ {a b}, le a b → met b → met a) (ha : ¬ met a) : ∀ b ∈ a :: waiting, ¬ met b := by
  intro b hb
  rcases List.mem_cons.1 hb with rfl | hb
  · exact ha
  · exact fun hmet => ha (hdown ((List.pairwise_cons.1 h.waiting).1 b hb) hmet)

end InOrder

end Thresholds

end Lib
