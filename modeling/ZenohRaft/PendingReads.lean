/-
  Linearizable reads that wait for a quorum: `core/linearizable_read/*`.

  A read waits until a quorum has acknowledged the leader after the instant at which the read came
  in, or until its deadline. `PendingReadQueue` keeps the waiting reads in the order of these
  instants, and a second index over them in the order of the deadlines. Equal instants are ordered
  by the number of the push.

  * `PendingReadQueue.Agrees`: the two indexes describe the same reads. Every operation keeps it,
    so a drain finds in one index what the other names.
  * `ReadHistory.run_serves`: over any sequence of operations with fewer than 2^64 pushes, every
    read is answered once or still waits, it is answered for a reason, and a drain leaves no read
    that it should have answered.

  An operation gives `none` where the source would panic.
-/
import ZenohRaft.Lib.Checked
import ZenohRaft.Lib.PartialRun
import ZenohRaft.Lib.SortedMap
import ZenohRaft.Vote

namespace ZenohRaft

open Lib

variable {I NID T Err : Type} [LinearOrder I]

/-! ## Keys -/

/-- `PendingReadKey`. -/
structure PendingReadKey (I : Type) where
  minQuorumAckedAt : I
  sequence : Nat
  deriving DecidableEq

/-- `PendingReadDeadlineKey`. -/
structure PendingReadDeadlineKey (I : Type) where
  deadline : I
  sequence : Nat
  deriving DecidableEq

namespace PendingReadKey

/-- The order key: the threshold, then the number of the push. -/
def key (k : PendingReadKey I) : I ×ₗ Nat := toLex (k.minQuorumAckedAt, k.sequence)

omit [LinearOrder I] in
theorem key_injective : Function.Injective (key : PendingReadKey I → _) := by
  rintro ⟨t, n⟩ ⟨t', n'⟩ h
  have h' : (t, n) = (t', n') := congrArg ofLex h
  rw [Prod.mk.injEq] at h'
  rw [h'.1, h'.2]

/-- The derived order of `PendingReadKey`. -/
instance : LinearOrder (PendingReadKey I) := LinearOrder.lift' key key_injective

theorem min_le_of_le {a b : PendingReadKey I} (h : a ≤ b) :
    a.minQuorumAckedAt ≤ b.minQuorumAckedAt := by
  rcases Prod.Lex.le_iff.1 (show a.key ≤ b.key from h) with h | h
  · exact h.le
  · exact h.1.le

end PendingReadKey

namespace PendingReadDeadlineKey

/-- The order key: the deadline, then the number of the push. -/
def key (k : PendingReadDeadlineKey I) : I ×ₗ Nat := toLex (k.deadline, k.sequence)

omit [LinearOrder I] in
theorem key_injective : Function.Injective (key : PendingReadDeadlineKey I → _) := by
  rintro ⟨t, n⟩ ⟨t', n'⟩ h
  have h' : (t, n) = (t', n') := congrArg ofLex h
  rw [Prod.mk.injEq] at h'
  rw [h'.1, h'.2]

/-- The derived order of `PendingReadDeadlineKey`. -/
instance : LinearOrder (PendingReadDeadlineKey I) := LinearOrder.lift' key key_injective

theorem deadline_le_of_le {a b : PendingReadDeadlineKey I} (h : a ≤ b) :
    a.deadline ≤ b.deadline := by
  rcases Prod.Lex.le_iff.1 (show a.key ≤ b.key from h) with h | h
  · exact h.le
  · exact h.1.le

end PendingReadDeadlineKey

/-! ## The queue -/

/-- `Linearizer`, with the fields of its `LinearizeState`. -/
structure Linearizer (NID : Type) where
  nodeId : NID
  readLogId : LogId NID
  applied : Option (LogId NID)
  deriving DecidableEq

/-- `Linearizer::with_applied`. -/
def Linearizer.withApplied (l : Linearizer NID) (applied : Option (LogId NID)) : Linearizer NID :=
  { l with applied := applied }

/-- `PendingRead`. `T` is the type of the channels to the clients. -/
structure PendingRead (I NID T : Type) where
  deadline : I
  linearizer : Linearizer NID
  responseTx : T
  deriving DecidableEq

/-- What is sent on `read.responseTx`, together with the read and its key. -/
structure ReadAnswer (I NID T Err : Type) where
  key : PendingReadKey I
  read : PendingRead I NID T
  result : Except Err (Linearizer NID)

/-- `PendingReadQueue`. -/
structure PendingReadQueue (I NID T : Type) [LinearOrder I] where
  nextSequence : Nat
  reads : SortedMap (PendingReadKey I) (PendingRead I NID T)
  deadlines : SortedMap (PendingReadDeadlineKey I) (PendingReadKey I)

/-- A queue after a drain, and the answers that the drain has given. -/
abbrev DrainedReads (I NID T Err : Type) [LinearOrder I] :=
  PendingReadQueue I NID T × List (ReadAnswer I NID T Err)

namespace PendingReadQueue

/-- `PendingReadQueue::default`. -/
def empty : PendingReadQueue I NID T := ⟨0, .empty, .empty⟩

/-- `PendingReadQueue::debug_assert_indexes_agree`. -/
def debugAssertIndexesAgree (q : PendingReadQueue I NID T) : Option (PendingReadQueue I NID T) :=
  if q.reads.entries.length = q.deadlines.entries.length then some q else none

/-- `PendingReadQueue::push`. -/
def push (q : PendingReadQueue I NID T) (minQuorumAckedAt : I) (read : PendingRead I NID T) :
    Option (PendingReadQueue I NID T) :=
  (addChecked 64 q.nextSequence 1).bind fun nextSequence =>
    let key : PendingReadKey I := ⟨minQuorumAckedAt, q.nextSequence⟩
    debugAssertIndexesAgree
      { nextSequence := nextSequence
        reads := q.reads.insert key read
        deadlines := q.deadlines.insert ⟨read.deadline, q.nextSequence⟩ key }

/-- The loop of `drain_expired`. -/
def drainExpiredLoop (now : I) (makeError : I → Err) :
    Nat → PendingReadQueue I NID T → Option (DrainedReads I NID T Err)
  | 0, q => some (q, [])
  | fuel + 1, q =>
    match q.deadlines.first? with
    | none => some (q, [])
    | some (deadlineKey, key) =>
      if now < deadlineKey.deadline then some (q, [])
      else
        (q.reads.remove? key).bind fun (read, reads) =>
          (drainExpiredLoop now makeError fuel
            { q with reads := reads, deadlines := q.deadlines.popFirst }).map fun (q, answers) =>
              (q, ⟨key, read, .error (makeError key.minQuorumAckedAt)⟩ :: answers)

/-- `PendingReadQueue::drain_expired`. The loop takes one entry of `deadlines` a round. -/
def drainExpired (q : PendingReadQueue I NID T) (now : I) (makeError : I → Err) :
    Option (DrainedReads I NID T Err) :=
  (drainExpiredLoop now makeError q.deadlines.entries.length q).bind fun (q, answers) =>
    q.debugAssertIndexesAgree.map fun q => (q, answers)

/-- The loop of `drain_satisfied`. -/
def drainSatisfiedLoop (quorumAckedAt : I) (applied : Option (LogId NID)) :
    Nat → PendingReadQueue I NID T → Option (DrainedReads I NID T Err)
  | 0, q => some (q, [])
  | fuel + 1, q =>
    match q.reads.first? with
    | none => some (q, [])
    | some (key, read) =>
      if quorumAckedAt ≤ key.minQuorumAckedAt then some (q, [])
      else
        (q.deadlines.remove? ⟨read.deadline, key.sequence⟩).bind fun (_, deadlines) =>
          (drainSatisfiedLoop quorumAckedAt applied fuel
            { q with reads := q.reads.popFirst, deadlines := deadlines }).map fun (q, answers) =>
              (q, ⟨key, read, .ok (read.linearizer.withApplied applied)⟩ :: answers)

/-- `PendingReadQueue::drain_satisfied`. The loop takes one entry of `reads` a round. -/
def drainSatisfied (q : PendingReadQueue I NID T) (quorumAckedAt : I)
    (applied : Option (LogId NID)) :
    Option (DrainedReads I NID T Err) :=
  (drainSatisfiedLoop quorumAckedAt applied q.reads.entries.length q).bind fun (q, answers) =>
    q.debugAssertIndexesAgree.map fun q => (q, answers)

/-- `PendingReadQueue::drain_all_with_error`. -/
def drainAllWithError (q : PendingReadQueue I NID T) (err : Err) :
    DrainedReads I NID T Err :=
  ({ q with reads := .empty, deadlines := .empty },
    q.reads.entries.map fun (key, read) => ⟨key, read, .error err⟩)

/-- `PendingReadQueue::earliest_deadline`. -/
def earliestDeadline (q : PendingReadQueue I NID T) : Option I :=
  q.deadlines.first?.map fun (deadlineKey, _) => deadlineKey.deadline

/-! ## The two indexes -/

/-- The entry of `deadlines` for an entry of `reads`. -/
def deadlineEntry (e : PendingReadKey I × PendingRead I NID T) :
    PendingReadDeadlineKey I × PendingReadKey I :=
  (⟨e.2.deadline, e.1.sequence⟩, e.1)

/-- The two indexes describe the same reads, and their numbers are used up. -/
structure Agrees (q : PendingReadQueue I NID T) : Prop where
  same : q.deadlines.entries.Perm (q.reads.entries.map deadlineEntry)
  sequence : ∀ e ∈ q.reads.entries, e.1.sequence < q.nextSequence

/-- The waiting reads with their thresholds. -/
def waiting (q : PendingReadQueue I NID T) : List (I × PendingRead I NID T) :=
  q.reads.entries.map fun e => (e.1.minQuorumAckedAt, e.2)

variable {q : PendingReadQueue I NID T}

theorem Agrees.empty : (empty : PendingReadQueue I NID T).Agrees :=
  ⟨.refl _, fun _ he => absurd he List.not_mem_nil⟩

theorem Agrees.debugAssert (h : q.Agrees) : q.debugAssertIndexesAgree = some q :=
  if_pos (by simpa using h.same.length_eq.symm)

theorem Agrees.push (h : q.Agrees) (hroom : q.nextSequence + 1 < 2 ^ 64) (minQuorumAckedAt : I)
    (read : PendingRead I NID T) :
    ∃ q', q.push minQuorumAckedAt read = some q' ∧ q'.Agrees ∧
      q'.nextSequence = q.nextSequence + 1 ∧
      q'.waiting.Perm ((minQuorumAckedAt, read) :: q.waiting) := by
  obtain ⟨key, hkey⟩ : ∃ key : PendingReadKey I, key = ⟨minQuorumAckedAt, q.nextSequence⟩ :=
    ⟨_, rfl⟩
  have hseq : key.sequence = q.nextSequence := by rw [hkey]
  have hfresh : ∀ e ∈ q.reads.entries, e.1 ≠ key := by
    intro e he heq
    have := h.sequence e he
    rw [heq, hseq] at this
    omega
  have hfresh' : ∀ e ∈ q.deadlines.entries, e.1 ≠ ⟨read.deadline, q.nextSequence⟩ := by
    intro e he heq
    obtain ⟨r, hr, rfl⟩ := List.mem_map.1 (h.same.mem_iff.1 he)
    have hsame : r.1.sequence = q.nextSequence := congrArg PendingReadDeadlineKey.sequence heq
    have := h.sequence r hr
    omega
  have hreads := SortedMap.insert_perm read hfresh
  have hdeadlines := SortedMap.insert_perm key hfresh'
  have hagrees : Agrees
      { nextSequence := q.nextSequence + 1
        reads := q.reads.insert key read
        deadlines := q.deadlines.insert ⟨read.deadline, q.nextSequence⟩ key } := by
    refine ⟨?_, fun e he => ?_⟩
    · refine hdeadlines.trans (.trans ?_ (hreads.map deadlineEntry).symm)
      rw [List.map_cons, deadlineEntry, hseq]
      exact h.same.cons _
    · rcases List.mem_cons.1 (hreads.mem_iff.1 he) with rfl | he
      · exact hseq ▸ Nat.lt_succ_self _
      · exact (h.sequence e he).trans (Nat.lt_succ_self _)
  refine ⟨_, ?_, hagrees, rfl, ?_⟩
  · unfold PendingReadQueue.push
    rw [addChecked_of_lt hroom, Option.bind_some, ← hkey]
    exact hagrees.debugAssert
  · have hperm := hreads.map fun e => (e.1.minQuorumAckedAt, e.2)
    rw [List.map_cons, hkey] at hperm
    rw [hkey]
    exact hperm

/-- The first deadline names a read, and without the two the indexes still agree. -/
theorem Agrees.popDeadline (h : q.Agrees) {deadlineKey : PendingReadDeadlineKey I}
    {key : PendingReadKey I} (hfirst : q.deadlines.first? = some (deadlineKey, key)) :
    ∃ read reads, q.reads.remove? key = some (read, reads) ∧
      deadlineKey = ⟨read.deadline, key.sequence⟩ ∧
      q.reads.entries.Perm ((key, read) :: reads.entries) ∧
      Agrees { q with reads := reads, deadlines := q.deadlines.popFirst } := by
  have hentries := SortedMap.entries_of_first? hfirst
  have hmem : (deadlineKey, key) ∈ q.deadlines.entries := by
    rw [hentries]
    exact List.mem_cons_self
  obtain ⟨⟨key', read⟩, hread, heq⟩ := List.mem_map.1 (h.same.mem_iff.1 hmem)
  obtain ⟨hkey, rfl⟩ : (⟨read.deadline, key'.sequence⟩ : PendingReadDeadlineKey I) = deadlineKey ∧
      key' = key := Prod.mk.inj heq
  obtain ⟨reads, hremove, hperm⟩ := SortedMap.remove?_of_mem hread
  refine ⟨read, reads, hremove, hkey.symm, hperm, ?_, fun e he => ?_⟩
  · have hsame := h.same.trans (hperm.map deadlineEntry)
    rw [hentries, List.map_cons, ← heq] at hsame
    exact hsame.cons_inv
  · exact h.sequence e (hperm.mem_iff.2 (List.mem_cons_of_mem _ he))

/-- The first read has a deadline, and without the two the indexes still agree. -/
theorem Agrees.popRead (h : q.Agrees) {key : PendingReadKey I} {read : PendingRead I NID T}
    (hfirst : q.reads.first? = some (key, read)) :
    ∃ deadlines, q.deadlines.remove? ⟨read.deadline, key.sequence⟩ = some (key, deadlines) ∧
      Agrees { q with reads := q.reads.popFirst, deadlines := deadlines } := by
  have hentries := SortedMap.entries_of_first? hfirst
  have hmem : deadlineEntry (key, read) ∈ q.deadlines.entries := by
    refine h.same.mem_iff.2 (List.mem_map_of_mem ?_)
    rw [hentries]
    exact List.mem_cons_self
  obtain ⟨deadlines, hremove, hperm⟩ := SortedMap.remove?_of_mem hmem
  refine ⟨deadlines, hremove, ?_, fun e he => ?_⟩
  · have hsame := hperm.symm.trans h.same
    rw [hentries, List.map_cons] at hsame
    exact hsame.cons_inv
  · refine h.sequence e ?_
    rw [hentries]
    exact List.mem_cons_of_mem _ he

/-! ## Drains -/

/-- A drain of `q` that has left `q'`: the indexes agree, and each read that waited is answered,
    with `P`, or still waits. -/
structure Drains (P : ReadAnswer I NID T Err → Prop) (q q' : PendingReadQueue I NID T)
    (answers : List (ReadAnswer I NID T Err)) : Prop where
  agrees : q'.Agrees
  nextSequence : q'.nextSequence = q.nextSequence
  reads : q.reads.entries.Perm ((answers.map fun a => (a.key, a.read)) ++ q'.reads.entries)
  answered : ∀ a ∈ answers, P a

theorem Drains.refl {P : ReadAnswer I NID T Err → Prop} (h : q.Agrees) : Drains P q q [] :=
  ⟨h, rfl, .refl _, fun _ ha => absurd ha List.not_mem_nil⟩

theorem Drains.cons {P : ReadAnswer I NID T Err → Prop} {a : ReadAnswer I NID T Err}
    {answers : List (ReadAnswer I NID T Err)} {q₁ q' : PendingReadQueue I NID T}
    (h : Drains P q₁ q' answers) (hnext : q₁.nextSequence = q.nextSequence)
    (hreads : q.reads.entries.Perm ((a.key, a.read) :: q₁.reads.entries)) (ha : P a) :
    Drains P q q' (a :: answers) := by
  refine ⟨h.agrees, h.nextSequence.trans hnext, hreads.trans (h.reads.cons _), fun b hb => ?_⟩
  rcases List.mem_cons.1 hb with rfl | hb
  · exact ha
  · exact h.answered b hb

/-- With a round for each deadline, the loop answers the reads that have expired and only these. -/
theorem drainExpiredLoop_spec (now : I) (makeError : I → Err) (fuel : Nat) (h : q.Agrees)
    (hfuel : q.deadlines.entries.length ≤ fuel) :
    ∃ q' answers, drainExpiredLoop now makeError fuel q = some (q', answers) ∧
      Drains (fun a => a.read.deadline ≤ now ∧
        a.result = .error (makeError a.key.minQuorumAckedAt)) q q' answers ∧
      ∀ e ∈ q'.deadlines.entries, now < e.1.deadline := by
  induction fuel generalizing q with
  | zero =>
    refine ⟨q, [], rfl, .refl h, fun e he => ?_⟩
    rw [List.eq_nil_of_length_eq_zero (Nat.le_zero.1 hfuel)] at he
    cases he
  | succ fuel ih =>
    unfold drainExpiredLoop
    cases hfirst : q.deadlines.first? with
    | none =>
      refine ⟨q, [], rfl, .refl h, fun e he => ?_⟩
      rw [SortedMap.entries_of_first?_none hfirst] at he
      cases he
    | some e =>
      obtain ⟨deadlineKey, key⟩ := e
      dsimp only
      split
      · -- the other deadlines are not before the first
        rename_i hnow
        refine ⟨q, [], rfl, .refl h, fun e he => ?_⟩
        exact hnow.trans_le
          (PendingReadDeadlineKey.deadline_le_of_le (SortedMap.first?_le hfirst e he))
      · rename_i hnow
        obtain ⟨read, reads, hremove, hkey, hperm, hagrees⟩ := h.popDeadline hfirst
        have hlen := congrArg List.length (SortedMap.entries_of_first? hfirst)
        rw [List.length_cons] at hlen
        obtain ⟨q', answers, hrun, hdrains, hrest⟩ := ih hagrees (by dsimp only; omega)
        rw [hremove, Option.bind_some, hrun, Option.map_some]
        refine ⟨q', _, rfl, hdrains.cons rfl hperm ⟨?_, rfl⟩, hrest⟩
        rw [hkey] at hnow
        exact not_lt.1 hnow

/-- With a round for each read, the loop answers the reads whose threshold is exceeded and only
    these. -/
theorem drainSatisfiedLoop_spec (quorumAckedAt : I) (applied : Option (LogId NID)) (fuel : Nat)
    (h : q.Agrees) (hfuel : q.reads.entries.length ≤ fuel) :
    ∃ q' answers, drainSatisfiedLoop quorumAckedAt applied fuel q = some (q', answers) ∧
      Drains (fun a : ReadAnswer I NID T Err => a.key.minQuorumAckedAt < quorumAckedAt ∧
        a.result = .ok (a.read.linearizer.withApplied applied)) q q' answers ∧
      ∀ e ∈ q'.reads.entries, quorumAckedAt ≤ e.1.minQuorumAckedAt := by
  induction fuel generalizing q with
  | zero =>
    refine ⟨q, [], rfl, .refl h, fun e he => ?_⟩
    rw [List.eq_nil_of_length_eq_zero (Nat.le_zero.1 hfuel)] at he
    cases he
  | succ fuel ih =>
    unfold drainSatisfiedLoop
    cases hfirst : q.reads.first? with
    | none =>
      refine ⟨q, [], rfl, .refl h, fun e he => ?_⟩
      rw [SortedMap.entries_of_first?_none hfirst] at he
      cases he
    | some e =>
      obtain ⟨key, read⟩ := e
      dsimp only
      split
      · -- the other thresholds are not before the first
        rename_i hacked
        refine ⟨q, [], rfl, .refl h, fun e he => ?_⟩
        exact hacked.trans (PendingReadKey.min_le_of_le (SortedMap.first?_le hfirst e he))
      · rename_i hacked
        obtain ⟨deadlines, hremove, hagrees⟩ := h.popRead hfirst
        have hentries := SortedMap.entries_of_first? hfirst
        have hlen := congrArg List.length hentries
        rw [List.length_cons] at hlen
        obtain ⟨q', answers, hrun, hdrains, hrest⟩ := ih hagrees (by dsimp only; omega)
        rw [hremove, Option.bind_some, hrun, Option.map_some]
        refine ⟨q', _, rfl, hdrains.cons rfl ?_ ⟨not_le.1 hacked, rfl⟩, hrest⟩
        exact .of_eq hentries

end PendingReadQueue

/-! ## Operations -/

/-- What RaftCore does with the queue. -/
inductive ReadOp (I NID T Err : Type) where
  | push (minQuorumAckedAt : I) (read : PendingRead I NID T)
  | drainExpired (now : I) (makeError : I → Err)
  | drainSatisfied (quorumAckedAt : I) (applied : Option (LogId NID))
  | drainAllWithError (err : Err)

namespace ReadOp

/-- The read that an operation brings, with its threshold. -/
def pushed : ReadOp I NID T Err → List (I × PendingRead I NID T)
  | .push minQuorumAckedAt read => [(minQuorumAckedAt, read)]
  | _ => []

/-- What an operation may answer. -/
def Justifies (a : ReadAnswer I NID T Err) : ReadOp I NID T Err → Prop
  | .push _ _ => False
  | .drainExpired now makeError =>
    a.read.deadline ≤ now ∧ a.result = .error (makeError a.key.minQuorumAckedAt)
  | .drainSatisfied quorumAckedAt applied =>
    a.key.minQuorumAckedAt < quorumAckedAt ∧
      a.result = .ok (a.read.linearizer.withApplied applied)
  | .drainAllWithError err => a.result = .error err

/-- An operation leaves no read that it should have answered. -/
def Clears (q : PendingReadQueue I NID T) : ReadOp I NID T Err → Prop
  | .push _ _ => True
  | .drainExpired now _ => ∀ e ∈ q.reads.entries, now < e.2.deadline
  | .drainSatisfied quorumAckedAt _ => ∀ e ∈ q.reads.entries, quorumAckedAt ≤ e.1.minQuorumAckedAt
  | .drainAllWithError _ => q.reads.entries = []

end ReadOp

/-- An operation on the queue, and the answers it gives. -/
def PendingReadQueue.perform (q : PendingReadQueue I NID T) :
    ReadOp I NID T Err → Option (DrainedReads I NID T Err)
  | .push minQuorumAckedAt read => (q.push minQuorumAckedAt read).map fun q => (q, [])
  | .drainExpired now makeError => q.drainExpired now makeError
  | .drainSatisfied quorumAckedAt applied => q.drainSatisfied quorumAckedAt applied
  | .drainAllWithError err => some (q.drainAllWithError err)

/-- What an operation does to a queue whose indexes agree. -/
structure PendingReadQueue.Performs (op : ReadOp I NID T Err) (q q' : PendingReadQueue I NID T)
    (answers : List (ReadAnswer I NID T Err)) : Prop where
  agrees : q'.Agrees
  nextSequence : q'.nextSequence = q.nextSequence + op.pushed.length
  waiting : (op.pushed ++ q.waiting).Perm
    ((answers.map fun a => (a.key.minQuorumAckedAt, a.read)) ++ q'.waiting)
  justified : ∀ a ∈ answers, op.Justifies a
  clears : op.Clears q'

namespace PendingReadQueue

variable {q q' : PendingReadQueue I NID T} {answers : List (ReadAnswer I NID T Err)}

theorem Drains.performs {op : ReadOp I NID T Err} {P : ReadAnswer I NID T Err → Prop}
    (h : Drains P q q' answers) (hpushed : op.pushed = []) (hP : ∀ a, P a → op.Justifies a)
    (hclears : op.Clears q') : Performs op q q' answers := by
  refine ⟨h.agrees, by rw [hpushed]; exact h.nextSequence, ?_, fun a ha => hP a (h.answered a ha),
    hclears⟩
  have hperm := h.reads.map fun e => (e.1.minQuorumAckedAt, e.2)
  rw [List.map_append, List.map_map] at hperm
  rw [hpushed]
  exact hperm

/-- Every operation succeeds, as long as there are numbers left for a push. -/
theorem Agrees.perform (h : q.Agrees) (op : ReadOp I NID T Err)
    (hroom : q.nextSequence + op.pushed.length < 2 ^ 64) :
    ∃ q' answers, q.perform op = some (q', answers) ∧ Performs op q q' answers := by
  cases op with
  | push minQuorumAckedAt read =>
    obtain ⟨q', hpush, hagrees, hnext, hwaiting⟩ := h.push hroom minQuorumAckedAt read
    refine ⟨q', [], ?_, hagrees, hnext, hwaiting.symm,
      fun _ ha => absurd ha List.not_mem_nil, trivial⟩
    show (q.push minQuorumAckedAt read).map (fun q => (q, [])) = _
    rw [hpush]
    rfl
  | drainExpired now makeError =>
    obtain ⟨q', answers, hrun, hdrains, hrest⟩ :=
      drainExpiredLoop_spec now makeError _ h le_rfl
    refine ⟨q', answers, ?_, hdrains.performs rfl (fun _ ha => ha) fun e he => ?_⟩
    · show q.drainExpired now makeError = _
      unfold PendingReadQueue.drainExpired
      rw [hrun, Option.bind_some]
      dsimp only
      rw [hdrains.agrees.debugAssert]
      rfl
    · exact hrest _ (hdrains.agrees.same.mem_iff.2 (List.mem_map_of_mem he))
  | drainSatisfied quorumAckedAt applied =>
    obtain ⟨q', answers, hrun, hdrains, hrest⟩ :=
      drainSatisfiedLoop_spec quorumAckedAt applied _ h le_rfl
    refine ⟨q', answers, ?_, hdrains.performs rfl (fun _ ha => ha) hrest⟩
    show q.drainSatisfied quorumAckedAt applied = _
    unfold PendingReadQueue.drainSatisfied
    rw [hrun, Option.bind_some]
    dsimp only
    rw [hdrains.agrees.debugAssert]
    rfl
  | drainAllWithError err =>
    refine ⟨_, _, rfl, Drains.performs (P := fun a => a.result = .error err) ?_ rfl
      (fun _ ha => ha) rfl⟩
    refine ⟨⟨.refl _, fun _ he => absurd he List.not_mem_nil⟩, rfl, ?_, fun a ha => ?_⟩
    · rw [List.map_map]
      exact .of_eq ((List.append_nil _).trans (List.map_id _)).symm
    · obtain ⟨e, -, rfl⟩ := List.mem_map.1 ha
      rfl

end PendingReadQueue

/-! ## Runs -/

/-- A queue with what has happened to it: the reads that came in, and the answers with the
    operations that gave them. -/
structure ReadHistory (I NID T Err : Type) [LinearOrder I] where
  queue : PendingReadQueue I NID T
  pushed : List (I × PendingRead I NID T)
  answers : List (ReadOp I NID T Err × ReadAnswer I NID T Err)

namespace ReadHistory

/-- Nothing has happened. -/
def start : ReadHistory I NID T Err := ⟨.empty, [], []⟩

/-- One more operation. -/
def step (h : ReadHistory I NID T Err) (op : ReadOp I NID T Err) :
    Option (ReadHistory I NID T Err) :=
  (h.queue.perform op).map fun (queue, answers) =>
    ⟨queue, h.pushed ++ op.pushed, h.answers ++ answers.map fun a => (op, a)⟩

/-- What holds of a queue at any time: its indexes agree, each read is answered once or waits, and
    each answer has a reason. -/
structure Serves (h : ReadHistory I NID T Err) : Prop where
  agrees : h.queue.Agrees
  nextSequence : h.queue.nextSequence = h.pushed.length
  once : h.pushed.Perm
    ((h.answers.map fun a => (a.2.key.minQuorumAckedAt, a.2.read)) ++ h.queue.waiting)
  justified : ∀ a ∈ h.answers, a.1.Justifies a.2

theorem Serves.step {h : ReadHistory I NID T Err} (hs : h.Serves) (op : ReadOp I NID T Err)
    (hroom : (h.pushed ++ op.pushed).length < 2 ^ 64) :
    ∃ h', h.step op = some h' ∧ h'.Serves ∧ h'.pushed = h.pushed ++ op.pushed ∧
      op.Clears h'.queue := by
  rw [List.length_append, ← hs.nextSequence] at hroom
  obtain ⟨q', answers, hperform, hp⟩ := hs.agrees.perform op hroom
  refine ⟨⟨q', h.pushed ++ op.pushed, h.answers ++ answers.map fun a => (op, a)⟩, ?_,
    ⟨hp.agrees, ?_, ?_, ?_⟩, rfl, hp.clears⟩
  · unfold ReadHistory.step
    rw [hperform]
    rfl
  · rw [List.length_append, ← hs.nextSequence]
    exact hp.nextSequence
  · -- what waited or came in is answered now or waits
    have hmap : (h.answers ++ answers.map fun a => (op, a)).map
        (fun a => (a.2.key.minQuorumAckedAt, a.2.read)) =
        (h.answers.map fun a => (a.2.key.minQuorumAckedAt, a.2.read)) ++
          answers.map fun a => (a.key.minQuorumAckedAt, a.read) := by
      rw [List.map_append, List.map_map]
      rfl
    rw [hmap, List.append_assoc]
    refine (hs.once.append_right _).trans ?_
    rw [List.append_assoc]
    exact (List.perm_append_comm.trans hp.waiting).append_left _
  · intro a ha
    rcases List.mem_append.1 ha with ha | ha
    · exact hs.justified a ha
    · obtain ⟨b, hb, rfl⟩ := List.mem_map.1 ha
      exact hp.justified b hb

/-- The reads that operations bring. -/
def pushes (ops : List (ReadOp I NID T Err)) : List (I × PendingRead I NID T) :=
  ops.flatMap ReadOp.pushed

/-- A run from a history that serves its reads. -/
theorem Serves.run {h : ReadHistory I NID T Err} (hs : h.Serves) (ops : List (ReadOp I NID T Err))
    (hroom : (h.pushed ++ pushes ops).length < 2 ^ 64) :
    ∃ h', runPartial ReadHistory.step h ops = some h' ∧ h'.Serves ∧
      h'.pushed = h.pushed ++ pushes ops ∧ ∀ op ∈ ops.getLast?, op.Clears h'.queue := by
  induction ops generalizing h with
  | nil =>
    exact ⟨h, rfl, hs, (List.append_nil _).symm, fun _ hop => absurd hop (Option.not_mem_none _)⟩
  | cons op ops ih =>
    have hcons : h.pushed ++ pushes (op :: ops) = h.pushed ++ op.pushed ++ pushes ops := by
      rw [pushes, List.flatMap_cons, List.append_assoc]
      rfl
    rw [hcons] at hroom ⊢
    obtain ⟨h₁, hstep, hs₁, hpushed, hclears⟩ := hs.step op (by
      rw [List.length_append] at hroom
      omega)
    rw [← hpushed] at hroom ⊢
    obtain ⟨h', hrun, hs', hpushed', hclears'⟩ := ih hs₁ hroom
    refine ⟨h', ?_, hs', hpushed', fun last hlast => ?_⟩
    · unfold runPartial
      rw [hstep]
      exact hrun
    · cases ops with
      | nil =>
        obtain rfl := Option.some.inj hlast
        cases hrun
        exact hclears
      | cons op' ops => exact hclears' last hlast

/-- Whatever is done with a queue, with fewer than 2^64 pushes: no operation fails, the indexes
    agree, each read is answered once or waits, each answer has a reason, and the last operation
    leaves no read that it should have answered. -/
theorem run_serves (ops : List (ReadOp I NID T Err)) (hroom : (pushes ops).length < 2 ^ 64) :
    ∃ h, runPartial step start ops = some h ∧ h.Serves ∧ h.pushed = pushes ops ∧
      ∀ op ∈ ops.getLast?, op.Clears h.queue :=
  Serves.run ⟨.empty, rfl, .refl _, fun _ ha => absurd ha List.not_mem_nil⟩ ops hroom

/-- Three reads, two of them with one threshold and one deadline: a quorum acknowledges instant 5,
    then instant 20 comes. -/
def tied : List (ReadOp Nat Nat Nat Nat) :=
  [.push 5 ⟨20, ⟨0, ⟨⟨1, none⟩, 7⟩, none⟩, 1⟩, .push 3 ⟨30, ⟨0, ⟨⟨1, none⟩, 7⟩, none⟩, 2⟩,
    .push 5 ⟨20, ⟨0, ⟨⟨1, none⟩, 7⟩, none⟩, 3⟩, .drainSatisfied 5 none, .drainExpired 20 fun i => i]

/-- The read below the quorum is answered, the tied ones expire. -/
theorem run_serves_tied :
    (runPartial step start tied).map (fun h => h.answers.map fun a => a.2.read.responseTx) =
        some [2, 1, 3] ∧
      ∃ h, runPartial step start tied = some h ∧ h.Serves ∧ h.pushed = pushes tied ∧
        ∀ op ∈ tied.getLast?, op.Clears h.queue :=
  ⟨by decide +kernel, run_serves tied (by decide)⟩

end ReadHistory

end ZenohRaft
