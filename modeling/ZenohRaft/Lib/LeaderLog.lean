/-
  Logs written by leaders of increasing epochs.

  `log k` is what the leader of epoch `k` has, and every entry names the epoch of the leader that
  created it. A log anywhere is a path (`IsPath`): up to each of its entries it is what the
  leader that created this entry has. So two paths that share an entry agree up to it
  (`IsPath.take_eq`).

  * `LeaderLogs.epoch_mono`: epochs do not decrease along a path.
  * `IsPath.at_of_tipLe`: a path that is not behind another one has the entries of that one which
    the leaders in between have. This is the comparison of logs in an election.

  Nothing is said about who stores what; the logs are lists over an arbitrary type.
-/
import Mathlib.Data.List.Basic
import Mathlib.Data.Prod.Lex

namespace Lib

variable {E K : Type} (epoch : E → K)

/-- The entry at index `i` is of epoch `k`. -/
def At (l : List E) (i : Nat) (k : K) : Prop := l[i]?.map epoch = some k

/-- Up to each entry, `l` is what the leader of the epoch of this entry has. -/
def IsPath (log : K → List E) (l : List E) : Prop :=
  ∀ i k, At epoch l i k → l.take (i + 1) = (log k).take (i + 1)

variable {epoch} {log log' : K → List E} {l l' : List E} {i j : Nat} {k : K}

/-! ## Entries -/

theorem At.lt_length (h : At epoch l i k) : i < l.length := by
  unfold At at h
  obtain ⟨e, he, -⟩ := Option.map_eq_some_iff.1 h
  exact (List.getElem?_eq_some_iff.1 he).1

theorem exists_at (epoch : E → K) (h : i < l.length) : ∃ k, At epoch l i k :=
  ⟨epoch l[i], by simp [At, h]⟩

theorem At.unique {k' : K} (h : At epoch l i k) (h' : At epoch l i k') : k = k' :=
  Option.some.inj (h.symm.trans h')

theorem at_take_iff {n : Nat} : At epoch (l.take n) i k ↔ i < n ∧ At epoch l i k := by
  unfold At
  rw [List.getElem?_take]
  by_cases hi : i < n
  · simp [hi]
  · simp [hi]

theorem At.of_take_eq (h : At epoch l i k) (ht : l.take (j + 1) = l'.take (j + 1)) (hij : i ≤ j) :
    At epoch l' i k := by
  have htake : At epoch (l.take (j + 1)) i k := at_take_iff.2 ⟨by omega, h⟩
  rw [ht] at htake
  exact (at_take_iff.1 htake).2

theorem At.mono (h : At epoch l i k) (hl : l <+: l') : At epoch l' i k := by
  obtain ⟨t, rfl⟩ := hl
  unfold At
  rw [List.getElem?_append_left h.lt_length]
  exact h

theorem take_take_eq (h : l.take (j + 1) = l'.take (j + 1)) (hij : i ≤ j) :
    l.take (i + 1) = l'.take (i + 1) := by
  have ht := congrArg (List.take (i + 1)) h
  rw [List.take_take, List.take_take, Nat.min_eq_left (by omega)] at ht
  exact ht

/-! ## Paths -/

theorem isPath_nil : IsPath epoch log [] := fun _ _ h => absurd h.lt_length (Nat.not_lt_zero _)

theorem IsPath.take (h : IsPath epoch log l) (n : Nat) : IsPath epoch log (l.take n) := by
  intro i k hi
  obtain ⟨hin, hik⟩ := at_take_iff.1 hi
  rw [List.take_take, Nat.min_eq_left (by omega)]
  exact h i k hik

theorem IsPath.of_le (h : IsPath epoch log l') (hl : l <+: l') : IsPath epoch log l := by
  rw [List.prefix_iff_eq_take.1 hl]
  exact h.take _

theorem IsPath.at_log (h : IsPath epoch log l) (hi : At epoch l i k) : At epoch (log k) i k :=
  hi.of_take_eq (h i k hi) le_rfl

/-- Two paths with one entry agree up to it. -/
theorem IsPath.take_eq (h : IsPath epoch log l) (h' : IsPath epoch log l') (hi : At epoch l i k)
    (hi' : At epoch l' i k) : l.take (i + 1) = l'.take (i + 1) :=
  (h i k hi).trans (h' i k hi').symm

/-! ## The logs of leaders -/

variable [LinearOrder K]

/-- Logs of leaders: paths without entries of later epochs. -/
structure LeaderLogs (epoch : E → K) (log : K → List E) : Prop where
  path : ∀ k, IsPath epoch log (log k)
  epoch_le : ∀ k i j, At epoch (log k) i j → j ≤ k

namespace LeaderLogs

/-- Epochs do not decrease along a path. -/
theorem epoch_mono (hlog : LeaderLogs epoch log) (h : IsPath epoch log l) {a b : K}
    (ha : At epoch l i a) (hb : At epoch l j b) (hij : i ≤ j) : a ≤ b :=
  hlog.epoch_le b i a (ha.of_take_eq (h j b hb) hij)

end LeaderLogs

/-! ## Comparing logs -/

/-- The last entry of `l` is not after the last entry of `l'`, by epoch and then by index. -/
def TipLe (epoch : E → K) (l l' : List E) : Prop :=
  ∀ i k, At epoch l i k → i + 1 = l.length →
    ∃ i' k', At epoch l' i' k' ∧ (k < k' ∨ k = k' ∧ i ≤ i')

/-- A path `l'` that is not behind a path `l` has the entry of epoch `v` at index `i` of `l`, if the
    leaders after `v` that wrote to `l'` have it. -/
theorem IsPath.at_of_tipLe (hlog : LeaderLogs epoch log) {v : K} (hl : IsPath epoch log l)
    (hl' : IsPath epoch log l') (hi : At epoch l i v) (htip : TipLe epoch l l')
    (hlater : ∀ w j, v < w → At epoch l' j w → At epoch (log w) i v) : At epoch l' i v := by
  have hlen := hi.lt_length
  obtain ⟨k, hk⟩ := exists_at epoch (show l.length - 1 < l.length by omega)
  have hvk : v ≤ k := hlog.epoch_mono hl hi hk (by omega)
  obtain ⟨i', k', hi', hcmp⟩ := htip _ k hk (by omega)
  by_cases hkv : k' = v
  · -- the last entries are of epoch `v` and both logs are parts of its leader's log
    subst hkv
    obtain ⟨-, hle⟩ := hcmp.resolve_left (not_lt.2 hvk)
    exact (hl.at_log hi).of_take_eq (hl' i' k' hi').symm (by omega)
  · have hlt : v < k' := by
      refine lt_of_le_of_ne ?_ (Ne.symm hkv)
      rcases hcmp with hlt | ⟨heq, -⟩
      · exact hvk.trans hlt.le
      · exact hvk.trans heq.le
    have hw := hlater k' i' hlt hi'
    by_cases hii : i ≤ i'
    · exact hw.of_take_eq (hl' i' k' hi').symm hii
    · -- an entry of epoch `v` does not come after one of a later epoch
      exact absurd (hlog.epoch_mono (hlog.path k') (hl'.at_log hi') hw (by omega)) (not_le.2 hlt)

end Lib
