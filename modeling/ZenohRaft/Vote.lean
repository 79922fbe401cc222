/-
  Leader ids, votes and log ids: `vote/leader_id/*`, `vote/ref_vote.rs`, `log_id/*`.

  The source has two leader id types, `leader_id_std` and `leader_id_adv`. They have the same
  two fields and differ in their order and in what `to_committed` keeps, so the model has one
  `LeaderId` and a `LeaderIdMode` that selects the order. A term is a natural number and
  `RaftTerm::next` is the successor.

  `rank` orders votes linearly: first by what `to_committed` keeps of the leader id, then by
  the committed flag. The partial order of the source is that order with distinct votes of one
  rank made incomparable (`Vote.partialCmp_eq`); in the standard mode these are the votes
  of one term for different nodes.
-/
import Mathlib.Data.Prod.Lex
import Mathlib.Order.Basic
import ZenohRaft.Lib.Order

namespace ZenohRaft

open Lib

/-! ## Leader ids -/

/-- Which leader id type the cluster uses: at most one leader per term, or one per term and
    node. -/
inductive LeaderIdMode where
  | std
  | adv
  deriving DecidableEq

/-- `LeaderId`. -/
structure LeaderId (NID : Type) where
  term : Nat
  nodeId : NID
  deriving DecidableEq

/-- `CommittedLeaderId`. In the standard mode `nodeId` is `none`. -/
structure CommittedLeaderId (NID : Type) where
  term : Nat
  nodeId : Option NID
  deriving DecidableEq

variable {NID : Type} [LinearOrder NID]

namespace CommittedLeaderId

/-- The order key: the term, then the node id. -/
def key (c : CommittedLeaderId NID) : Nat ×ₗ Option NID := toLex (c.term, c.nodeId)

omit [LinearOrder NID] in
theorem key_injective : Function.Injective (key : CommittedLeaderId NID → _) := by
  rintro ⟨t, n⟩ ⟨t', n'⟩ h
  have h' : (t, n) = (t', n') := congrArg ofLex h
  rw [Prod.mk.injEq] at h'
  rw [h'.1, h'.2]

/-- The derived order of `CommittedLeaderId`. -/
instance : LinearOrder (CommittedLeaderId NID) := LinearOrder.lift' key key_injective

theorem lt_iff {a b : CommittedLeaderId NID} :
    a < b ↔ a.term < b.term ∨ a.term = b.term ∧ a.nodeId < b.nodeId :=
  Prod.Lex.lt_iff (x := key a) (y := key b)

end CommittedLeaderId

namespace LeaderId

/-- `RaftLeaderId::to_committed`. -/
def toCommitted (mode : LeaderIdMode) (l : LeaderId NID) : CommittedLeaderId NID :=
  match mode with
  | .std => ⟨l.term, none⟩
  | .adv => ⟨l.term, some l.nodeId⟩

omit [LinearOrder NID] in
@[simp] theorem toCommitted_term (mode : LeaderIdMode) (l : LeaderId NID) :
    (l.toCommitted mode).term = l.term := by
  cases mode <;> rfl

/-- `LeaderIdCompare::std` and `LeaderIdCompare::adv`. -/
def partialCmp (mode : LeaderIdMode) (a b : LeaderId NID) : Option Ordering :=
  match mode with
  | .std =>
    match compare a.term b.term with
    | .eq => if a.nodeId = b.nodeId then some .eq else none
    | o => some o
  | .adv => some ((compare a.term b.term).then (compare a.nodeId b.nodeId))

end LeaderId

/-! ## Votes -/

/-- `Vote`: a leader id, and whether a quorum granted it. -/
structure Vote (NID : Type) where
  leaderId : LeaderId NID
  committed : Bool
  deriving DecidableEq

namespace Vote

/-- `RefVote::partial_cmp`. -/
def partialCmp (mode : LeaderIdMode) (a b : Vote NID) : Option Ordering :=
  match a.leaderId.partialCmp mode b.leaderId with
  | some .eq => some (compare a.committed b.committed)
  | none =>
    match a.committed, b.committed with
    | false, false => none
    | true, false => some .gt
    | false, true => some .lt
    | true, true => none
  | cmp => cmp

/-- `a >= b` in the partial order of votes. -/
def ge (mode : LeaderIdMode) (a b : Vote NID) : Bool :=
  match a.partialCmp mode b with
  | some .gt => true
  | some .eq => true
  | _ => false

/-- `a > b` in the partial order of votes. -/
def gt (mode : LeaderIdMode) (a b : Vote NID) : Bool :=
  match a.partialCmp mode b with
  | some .gt => true
  | _ => false

/-- `RaftVoteExt::to_committed`, as a vote. -/
def toCommitted (v : Vote NID) : Vote NID := ⟨v.leaderId, true⟩

/-- `RaftVoteExt::to_non_committed`, as a vote. -/
def toNonCommitted (v : Vote NID) : Vote NID := ⟨v.leaderId, false⟩

omit [LinearOrder NID] in
theorem toNonCommitted_eq {v : Vote NID} (h : v.committed = false) : v.toNonCommitted = v := by
  obtain ⟨l, c⟩ := v
  subst h
  rfl

/-- The linear order behind the partial order of votes. -/
def rank (mode : LeaderIdMode) (v : Vote NID) : CommittedLeaderId NID ×ₗ Bool :=
  toLex (v.leaderId.toCommitted mode, v.committed)

theorem rank_lt_iff {mode : LeaderIdMode} {a b : Vote NID} :
    a.rank mode < b.rank mode ↔
      a.leaderId.toCommitted mode < b.leaderId.toCommitted mode ∨
        a.leaderId.toCommitted mode = b.leaderId.toCommitted mode ∧
          a.committed < b.committed :=
  Prod.Lex.lt_iff (x := rank mode a) (y := rank mode b)

/-- The order of leader ids through what `to_committed` keeps. -/
theorem leaderId_partialCmp_eq (mode : LeaderIdMode) (a b : LeaderId NID) :
    a.partialCmp mode b =
      if a = b then some .eq
      else if a.toCommitted mode < b.toCommitted mode then some .lt
      else if b.toCommitted mode < a.toCommitted mode then some .gt
      else none := by
  obtain ⟨t, n⟩ := a
  obtain ⟨t', n'⟩ := b
  simp only [LeaderId.partialCmp, LeaderId.mk.injEq, CommittedLeaderId.lt_iff]
  rcases lt_trichotomy t t' with h | h | h
  · cases mode <;> simp [compare_lt_iff_lt.2 h, h, h.ne, LeaderId.toCommitted]
  · subst h
    rcases lt_trichotomy n n' with hn | hn | hn
    · cases mode <;> simp [compare_lt_iff_lt.2 hn, hn, hn.ne, LeaderId.toCommitted]
    · subst hn
      cases mode <;> simp
    · cases mode <;>
        simp [compare_gt_iff_gt.2 hn, hn, hn.ne', not_lt.2 hn.le, LeaderId.toCommitted]
  · cases mode <;>
      simp [compare_gt_iff_gt.2 h, h, h.ne', not_lt.2 h.le, LeaderId.toCommitted]

/-- The partial order of votes is the order of ranks, with different votes of one rank
    incomparable. -/
theorem partialCmp_eq (mode : LeaderIdMode) (a b : Vote NID) :
    a.partialCmp mode b =
      if a = b then some .eq
      else if a.rank mode < b.rank mode then some .lt
      else if b.rank mode < a.rank mode then some .gt
      else none := by
  obtain ⟨l, c⟩ := a
  obtain ⟨l', c'⟩ := b
  unfold partialCmp
  simp only [leaderId_partialCmp_eq, Vote.mk.injEq, rank_lt_iff]
  by_cases hl : l = l'
  · subst hl
    cases c <;> cases c' <;> simp <;> rfl
  · rcases lt_trichotomy (l.toCommitted mode) (l'.toCommitted mode) with h | h | h
    · simp [hl, h]
    · cases c <;> cases c' <;> simp [hl, h]
    · simp [hl, h, not_lt.2 h.le, h.ne']

theorem strictCmp (mode : LeaderIdMode) : StrictCmp (@partialCmp NID _ mode) :=
  .of_rank (rank mode) (partialCmp_eq mode)

theorem ge_iff {mode : LeaderIdMode} {a b : Vote NID} :
    a.ge mode b = true ↔ a = b ∨ b.rank mode < a.rank mode := by
  unfold ge
  rw [partialCmp_eq]
  by_cases hab : a = b
  · simp [hab]
  · rcases lt_trichotomy (a.rank mode) (b.rank mode) with h | h | h
    · simp [hab, h, not_lt.2 h.le]
    · simp [hab, h]
    · simp [hab, h, not_lt.2 h.le]

theorem gt_iff {mode : LeaderIdMode} {a b : Vote NID} :
    a.gt mode b = true ↔ b.rank mode < a.rank mode := by
  unfold gt
  rw [partialCmp_eq]
  by_cases hab : a = b
  · simp [hab]
  · rcases lt_trichotomy (a.rank mode) (b.rank mode) with h | h | h
    · simp [hab, h, not_lt.2 h.le]
    · simp [hab, h]
    · simp [hab, h, not_lt.2 h.le]

end Vote

/-! ## Log ids -/

/-- `LogId`. -/
structure LogId (NID : Type) where
  leaderId : CommittedLeaderId NID
  index : Nat
  deriving DecidableEq

namespace LogId

/-- The order key: the leader, then the index. -/
def key (l : LogId NID) : CommittedLeaderId NID ×ₗ Nat := toLex (l.leaderId, l.index)

omit [LinearOrder NID] in
theorem key_injective : Function.Injective (key : LogId NID → _) := by
  rintro ⟨t, n⟩ ⟨t', n'⟩ h
  have h' : (t, n) = (t', n') := congrArg ofLex h
  rw [Prod.mk.injEq] at h'
  rw [h'.1, h'.2]

/-- The derived order of `LogId`. -/
instance : LinearOrder (LogId NID) := LinearOrder.lift' key key_injective

theorem le_iff {a b : LogId NID} :
    a ≤ b ↔ a.leaderId < b.leaderId ∨ a.leaderId = b.leaderId ∧ a.index ≤ b.index :=
  Prod.Lex.le_iff (x := key a) (y := key b)

theorem lt_iff {a b : LogId NID} :
    a < b ↔ a.leaderId < b.leaderId ∨ a.leaderId = b.leaderId ∧ a.index < b.index :=
  Prod.Lex.lt_iff (x := key a) (y := key b)

end LogId

/-- `LogIdOptionExt::next_index`. -/
def nextIndex (l : Option (LogId NID)) : Nat :=
  match l with
  | none => 0
  | some l => l.index + 1

omit [LinearOrder NID] in
@[simp] theorem nextIndex_none : nextIndex (none : Option (LogId NID)) = 0 := rfl

omit [LinearOrder NID] in
@[simp] theorem nextIndex_some (x : LogId NID) : nextIndex (some x) = x.index + 1 := rfl

/-- `LogIdOptionExt::index`. -/
def optIndex (l : Option (LogId NID)) : Option Nat := l.map (·.index)

end ZenohRaft
