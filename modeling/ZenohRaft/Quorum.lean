/-
  Quorum sets: `quorum/quorum_set_impl.rs` and `quorum/coherent_impl.rs`.

  A voter set (`BTreeSet<NID>`) is a `Finset`; a joint config (`Vec<BTreeSet<NID>>`) is a list
  of voter sets. The ids handed to `is_quorum` are an iterator in the source and a `List` here.
  The loop counts an id as often as the iterator yields it, so the connection to majorities of
  sets (`isQuorum_iff`, `jointIsQuorum_iff`) is stated for iterators without duplicates.

  `quorumsMeet_of_majorities`: if the majorities of one voter set of each of two joint configs
  always meet, in particular if the two share a voter set (`quorumsMeet_of_common`), then a
  quorum of one shares a node with a quorum of the other.
-/
import ZenohRaft.Lib.Majority
import ZenohRaft.Lib.Order

namespace ZenohRaft

open Lib

variable {NID : Type} [LinearOrder NID]

/-- `QuorumSet`: the ids a quorum is made of, and which of them make one. -/
class QuorumSet (QS : Type) (NID : outParam Type) where
  isQuorum : QS → List NID → Bool
  ids : QS → List NID

/-! ## Majority of one voter set -/

/-- The loop of `QuorumSet::is_quorum` for `BTreeSet`: `count` grows by two for each id of
    the set, and the loop returns as soon as it passes `limit`. -/
def isQuorumLoop (s : Finset NID) (limit : Nat) : Nat → List NID → Bool
  | _, [] => false
  | count, id :: ids =>
    if id ∈ s then
      if limit < count + 2 then true else isQuorumLoop s limit (count + 2) ids
    else isQuorumLoop s limit count ids

/-- `QuorumSet::is_quorum` for `BTreeSet`. -/
def isQuorum (s : Finset NID) (ids : List NID) : Bool :=
  isQuorumLoop s s.card 0 ids

theorem isQuorumLoop_eq (s : Finset NID) (limit : Nat) (ids : List NID) (count : Nat)
    (hcount : count ≤ limit) :
    isQuorumLoop s limit count ids = decide (limit < count + 2 * ids.countP (· ∈ s)) := by
  induction ids generalizing count with
  | nil =>
    rw [isQuorumLoop, List.countP_nil, eq_comm, decide_eq_false_iff_not]
    omega
  | cons id ids ih =>
    rw [isQuorumLoop]
    by_cases hid : id ∈ s
    · rw [if_pos hid, List.countP_cons_of_pos (by simpa using hid)]
      split
      · rename_i h
        simp only [true_eq_decide_iff]
        omega
      · rename_i h
        rw [ih (count + 2) (by omega)]
        congr 2
        omega
    · rw [if_neg hid, ih count hcount, List.countP_cons_of_neg (by simpa using hid)]

/-- The loop returns true exactly when twice the number of counted ids passes the size. -/
theorem isQuorum_eq (s : Finset NID) (ids : List NID) :
    isQuorum s ids = decide (s.card < 2 * ids.countP (· ∈ s)) := by
  rw [isQuorum, isQuorumLoop_eq s _ ids 0 (Nat.zero_le _), Nat.zero_add]

theorem countP_eq_card_inter (s : Finset NID) {ids : List NID} (hnd : ids.Nodup) :
    ids.countP (· ∈ s) = (ids.toFinset ∩ s).card := by
  rw [List.countP_eq_length_filter, ← List.toFinset_card_of_nodup (hnd.filter _)]
  congr 1
  ext x
  simp

theorem isQuorum_iff (s : Finset NID) {ids : List NID} (hnd : ids.Nodup) :
    isQuorum s ids = true ↔ IsMajority s ids.toFinset := by
  rw [isQuorum_eq, countP_eq_card_inter s hnd, decide_eq_true_iff]
  rfl

/-! ## Joint configs -/

/-- `QuorumSet::is_quorum` for `Vec<BTreeSet<NID>>`: a majority in every config. -/
def jointIsQuorum : List (Finset NID) → List NID → Bool
  | [], _ => true
  | config :: configs, ids =>
    if isQuorum config ids then jointIsQuorum configs ids else false

theorem jointIsQuorum_eq_all (configs : List (Finset NID)) (ids : List NID) :
    jointIsQuorum configs ids = configs.all (isQuorum · ids) := by
  induction configs with
  | nil => rfl
  | cons c cs ih =>
    rw [jointIsQuorum, List.all_cons, ← ih]
    cases isQuorum c ids <;> rfl

theorem jointIsQuorum_iff (configs : List (Finset NID)) {ids : List NID} (hnd : ids.Nodup) :
    jointIsQuorum configs ids = true ↔ ∀ c ∈ configs, IsMajority c ids.toFinset := by
  rw [jointIsQuorum_eq_all, List.all_eq_true]
  exact forall₂_congr fun c _ => isQuorum_iff c hnd

instance : QuorumSet (Finset NID) NID where
  isQuorum := isQuorum
  ids := sortedList

instance : QuorumSet (List (Finset NID)) NID where
  isQuorum := jointIsQuorum
  ids configs := sortedList (configs.foldr (· ∪ ·) ∅)

/-- `Coherent::is_coherent_with`: the two joint configs have a voter set in common. -/
def isCoherentWith : List (Finset NID) → List (Finset NID) → Bool
  | [], _ => false
  | a :: as, bs => if bs.any (fun b => decide (a = b)) then true else isCoherentWith as bs

theorem isCoherentWith_iff (as bs : List (Finset NID)) :
    isCoherentWith as bs = true ↔ ∃ c ∈ as, c ∈ bs := by
  induction as with
  | nil => simp [isCoherentWith]
  | cons a as ih =>
    rw [isCoherentWith]
    split
    · rename_i h
      simp only [List.any_eq_true, decide_eq_true_eq] at h
      obtain ⟨b, hb, rfl⟩ := h
      simp [hb]
    · rename_i h
      rw [ih]
      have ha : a ∉ bs := fun ha => h (by simp [ha])
      simp [ha]

/-- `FindCoherent::find_coherent`. -/
def findCoherent (configs : List (Finset NID)) (other : Finset NID) : List (Finset NID) :=
  if isCoherentWith configs [other] then [other]
  else
    match configs.getLast? with
    | some last => [last, other]
    | none => [other]

/-- A goal that is a constituent is taken alone; any other goal is joined with the last
    constituent. -/
theorem findCoherent_cases {configs : List (Finset NID)} (hne : configs ≠ [])
    (goal : Finset NID) :
    (goal ∈ configs ∧ findCoherent configs goal = [goal]) ∨
      (goal ∉ configs ∧ findCoherent configs goal = [configs.getLast hne, goal]) := by
  unfold findCoherent
  by_cases hg : goal ∈ configs
  · left
    have hc : isCoherentWith configs [goal] = true :=
      (isCoherentWith_iff _ _).2 ⟨goal, hg, List.mem_singleton.2 rfl⟩
    rw [if_pos hc]
    exact ⟨hg, rfl⟩
  · right
    have hc : ¬ isCoherentWith configs [goal] = true := by
      rw [isCoherentWith_iff]
      rintro ⟨c, hc, hc'⟩
      rw [List.mem_singleton] at hc'
      exact hg (hc' ▸ hc)
    rw [if_neg hc, List.getLast?_eq_some_getLast hne]
    exact ⟨hg, rfl⟩

/-- The intermediate config keeps a constituent of the config it starts from. -/
theorem exists_common_findCoherent {configs : List (Finset NID)} (hne : configs ≠ [])
    (goal : Finset NID) : ∃ c ∈ configs, c ∈ findCoherent configs goal := by
  rcases findCoherent_cases hne goal with ⟨hg, he⟩ | ⟨-, he⟩
  · exact ⟨goal, hg, by simp [he]⟩
  · exact ⟨configs.getLast hne, List.getLast_mem hne, by simp [he]⟩

/-! ## Quorum intersection -/

/-- Every quorum of `as` shares a node with every quorum of `bs`. -/
def QuorumsMeet (as bs : List (Finset NID)) : Prop :=
  ∀ p q : List NID, p.Nodup → q.Nodup → jointIsQuorum as p = true → jointIsQuorum bs q = true →
    ∃ x, x ∈ p ∧ x ∈ q

theorem quorumsMeet_of_majorities {as bs : List (Finset NID)} {a b : Finset NID}
    (ha : a ∈ as) (hb : b ∈ bs)
    (h : ∀ q r : Finset NID, IsMajority a q → IsMajority b r → (q ∩ r).Nonempty) :
    QuorumsMeet as bs := by
  intro p q hp hq hpq hqq
  obtain ⟨x, hx⟩ := h _ _ ((jointIsQuorum_iff as hp).1 hpq a ha)
    ((jointIsQuorum_iff bs hq).1 hqq b hb)
  rw [Finset.mem_inter, List.mem_toFinset, List.mem_toFinset] at hx
  exact ⟨x, hx⟩

/-- Two joint configs with a common voter set. -/
theorem quorumsMeet_of_common {as bs : List (Finset NID)} {c : Finset NID} (ha : c ∈ as)
    (hb : c ∈ bs) : QuorumsMeet as bs :=
  quorumsMeet_of_majorities ha hb fun _ _ hq hr => hq.inter_nonempty hr

/-- A uniform config `[c]` and a uniform config `[d]` have intersecting quorums exactly under
    the counting condition. -/
theorem quorumsMeet_singleton_iff {c d : Finset NID} (hc : c.Nonempty) (hd : d.Nonempty) :
    QuorumsMeet [c] [d] ↔ MajoritiesMeet c d := by
  constructor
  · intro h
    by_contra hn
    obtain ⟨q, -, r, -, hq, hr, hdisj⟩ := exists_disjoint_majorities hc hd hn
    have hquorum : ∀ {s t : Finset NID}, IsMajority s t →
        jointIsQuorum [s] (sortedList t) = true := by
      intro s t hst
      rw [jointIsQuorum_iff _ (nodup_sortedList t)]
      intro c' hc'
      rw [List.mem_singleton.1 hc']
      convert hst
      ext x
      simp
    obtain ⟨x, hx, hx'⟩ := h _ _ (nodup_sortedList q) (nodup_sortedList r) (hquorum hq)
      (hquorum hr)
    exact Finset.disjoint_left.1 hdisj (mem_sortedList.1 hx) (mem_sortedList.1 hx')
  · intro h
    exact quorumsMeet_of_majorities (List.mem_singleton.2 rfl) (List.mem_singleton.2 rfl)
      fun _ _ hq hr => h.inter_nonempty hq hr

end ZenohRaft
