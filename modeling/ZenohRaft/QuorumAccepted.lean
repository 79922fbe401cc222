/-
  What `quorum_accepted` of a `VecProgress` is.

  `Accepted p v`: the voters whose value is at least `v` form a quorum. The tracker never
  computes this set for a value of its own choice. It keeps the voters above `quorum_accepted`
  sorted, and after an update it looks at the prefixes that end at or behind the moved entry.

  * `le_raiseLoop`, `accepted_raiseLoop`: the walk finds the greatest accepted value among those
    that the moved entry can have changed.
  * `updateEntryWith_step`, `resetEntryWith_step`: what one call does.
  * `quorumAccepted_of_calls`: what a whole sequence of calls does.

  The walk tests a prefix only when it ends at a voter, so it never asks about the empty set of
  voters. If that set is a quorum, every value is accepted, also those that no voter has reached
  (`not_isGreatest_of_no_config`); the theorem asks that it is none. Learners may have any ids.
-/
import Mathlib.Order.Bounds.Basic
import ZenohRaft.VecProgress

namespace ZenohRaft

/-- Adding ids to a quorum leaves a quorum. An iterator stands for the set of ids it yields. -/
def QuorumSet.UpwardClosed {QS NID : Type} [QuorumSet QS NID] (qs : QS) : Prop :=
  ∀ ids ids' : List NID, ids.Nodup → ids'.Nodup → ids ⊆ ids' →
    QuorumSet.isQuorum qs ids = true → QuorumSet.isQuorum qs ids' = true

namespace VecProgress

variable {NID QS : Type} [DecidableEq NID] [QuorumSet QS NID]
variable {P A : Type} [LinearOrder P] [Inhabited P]

/-! ## Accepted values -/

/-- The ids of the entries whose value is at least `v`. -/
def idsFrom (items : List (ProgressItem NID P A)) (v : P) : List NID :=
  (items.filter fun x => decide (v ≤ x.progress)).map (·.id)

/-- The entries whose value is at least `v` form a quorum. -/
def AcceptedBy (qs : QS) (items : List (ProgressItem NID P A)) (v : P) : Prop :=
  QuorumSet.isQuorum qs (idsFrom items v) = true

/-- The voters whose value is at least `v` form a quorum. -/
def Accepted (p : VecProgress NID QS P A) (v : P) : Prop :=
  AcceptedBy p.quorumSet p.voters v

section

omit [DecidableEq NID] [Inhabited P]

theorem mem_idsFrom {items : List (ProgressItem NID P A)} {v : P} {id : NID} :
    id ∈ idsFrom items v ↔ ∃ x ∈ items, v ≤ x.progress ∧ x.id = id := by
  simp [idsFrom, and_assoc]

theorem nodup_idsFrom {items : List (ProgressItem NID P A)} (hnd : (items.map (·.id)).Nodup)
    (v : P) : (idsFrom items v).Nodup :=
  hnd.sublist (List.Sublist.map _ List.filter_sublist)

/-- A quorum of entries that are all at or above `v`. -/
theorem acceptedBy_of_subset {qs : QS} (hqs : QuorumSet.UpwardClosed qs)
    {items : List (ProgressItem NID P A)} (hnd : (items.map (·.id)).Nodup) {v : P}
    {ids : List NID} (hids : ids.Nodup) (hq : QuorumSet.isQuorum qs ids = true)
    (hsub : ∀ id ∈ ids, ∃ x ∈ items, v ≤ x.progress ∧ x.id = id) : AcceptedBy qs items v :=
  hqs _ _ hids (nodup_idsFrom hnd v) (fun id hid => mem_idsFrom.2 (hsub id hid)) hq

/-- Acceptance goes over to a list in which every entry that counted still counts. -/
theorem AcceptedBy.mono {qs : QS} (hqs : QuorumSet.UpwardClosed qs)
    {items items' : List (ProgressItem NID P A)} (hnd : (items.map (·.id)).Nodup)
    (hnd' : (items'.map (·.id)).Nodup) {v v' : P} (h : AcceptedBy qs items v)
    (hsub : ∀ x ∈ items, v ≤ x.progress → ∃ y ∈ items', v' ≤ y.progress ∧ y.id = x.id) :
    AcceptedBy qs items' v' := by
  refine acceptedBy_of_subset hqs hnd' (nodup_idsFrom hnd v) h ?_
  intro id hid
  obtain ⟨x, hx, hv, rfl⟩ := mem_idsFrom.1 hid
  exact hsub x hx hv

end

/-! ## The walk -/

omit [DecidableEq NID] [Inhabited P] in
/-- No accepted value that an entry still to visit has reached lies above the result. -/
theorem le_raiseLoop {qs : QS} (hqs : QuorumSet.UpwardClosed qs) {qa v : P}
    {first rest : List (ProgressItem NID P A)} (hsorted : SortedAbove qa rest)
    (hnd : ((first ++ rest).map (·.id)).Nodup) (hacc : AcceptedBy qs (first ++ rest) v)
    (hrest : ∃ x ∈ rest, v ≤ x.progress) : v ≤ raiseLoop qs qa (first.map (·.id)) rest := by
  induction rest generalizing first with
  | nil =>
    obtain ⟨x, hx, -⟩ := hrest
    cases hx
  | cons x rest ih =>
    obtain ⟨hx, hsorted'⟩ := List.pairwise_cons.1 hsorted
    -- the first entry bounds the others, as far as they are above `qa`
    have hbound : v ≤ max x.progress qa := by
      obtain ⟨y, hy, hv⟩ := hrest
      rcases List.mem_cons.1 hy with rfl | hy
      · exact hv.trans (le_max_left _ _)
      · exact hv.trans (hx y hy)
    unfold raiseLoop
    split
    · rename_i hle
      rwa [max_eq_right hle] at hbound
    rename_i hgt
    rw [max_eq_left (not_le.1 hgt).le] at hbound
    split
    · exact hbound
    rename_i hnq
    have happ : first ++ x :: rest = first ++ [x] ++ rest := by simp
    have hmap : first.map (·.id) ++ [x.id] = (first ++ [x]).map (·.id) := by simp
    rw [hmap]
    rw [happ] at hnd hacc
    by_cases hmore : ∃ y ∈ rest, v ≤ y.progress
    · exact ih hsorted' hnd hacc hmore
    · -- the entries that count are among those tested already
      refine absurd ?_ hnq
      rw [hmap]
      refine hqs _ _ (nodup_idsFrom hnd v) ?_ ?_ hacc
      · rw [List.map_append] at hnd
        exact (List.nodup_append.1 hnd).1
      · intro id hid
        obtain ⟨y, hy, hv, rfl⟩ := mem_idsFrom.1 hid
        rcases List.mem_append.1 hy with hy | hy
        · exact List.mem_map.2 ⟨y, hy, rfl⟩
        · exact absurd ⟨y, hy, hv⟩ hmore

omit [DecidableEq NID] [Inhabited P] in
/-- A value above `qa` that the walk yields is accepted. -/
theorem accepted_raiseLoop {qs : QS} (hqs : QuorumSet.UpwardClosed qs) {qa : P}
    {first rest : List (ProgressItem NID P A)} (hsorted : SortedAbove qa (first ++ rest))
    (hnd : ((first ++ rest).map (·.id)).Nodup) :
    raiseLoop qs qa (first.map (·.id)) rest = qa ∨
      qa < raiseLoop qs qa (first.map (·.id)) rest ∧
        AcceptedBy qs (first ++ rest) (raiseLoop qs qa (first.map (·.id)) rest) := by
  rcases raiseLoop_spec qs qa (first.map (·.id)) rest with h | ⟨pre, y, suf, hrest, hval, hy, hq⟩
  · exact Or.inl h
  · right
    rw [hval]
    refine ⟨hy, ?_⟩
    have happ : first ++ rest = first ++ pre ++ [y] ++ suf := by simp [hrest]
    rw [happ] at hnd hsorted ⊢
    have hmap : first.map (·.id) ++ (pre ++ [y]).map (·.id) = (first ++ pre ++ [y]).map (·.id) := by
      simp
    rw [hmap] at hq
    refine acceptedBy_of_subset hqs hnd ?_ hq ?_
    · rw [List.map_append] at hnd
      exact (List.nodup_append.1 hnd).1
    · intro id hid
      obtain ⟨x, hx, rfl⟩ := List.mem_map.1 hid
      refine ⟨x, List.mem_append.2 (Or.inl hx), ?_, rfl⟩
      rcases List.mem_append.1 hx with hx | hx
      · -- an entry before `y` is at or above it, because `y` is above `qa`
        have hpair := (List.pairwise_append.1 (List.pairwise_append.1 hsorted).1).2.2
        rcases le_max_iff.1 (hpair x hx y (by simp)) with h | h
        · exact h
        · exact absurd hy (not_lt.2 h)
      · rw [List.mem_singleton.1 hx]

/-! ## One call -/

/-- What holds of the voters between two calls. -/
structure VotersInOrder (p : VecProgress NID QS P A) : Prop where
  nodup : (p.voters.map (·.id)).Nodup
  sorted : SortedAbove p.quorumAccepted p.voters

/-- One voter changes from `x` to `x'`, and no other. -/
def ChangesTo (p p' : VecProgress NID QS P A) (x x' : ProgressItem NID P A) : Prop :=
  x'.id = x.id ∧ ∃ others, p.voters.Perm (x :: others) ∧ p'.voters.Perm (x' :: others)

omit [DecidableEq NID] [QuorumSet QS NID] [LinearOrder P] [Inhabited P] in
theorem ChangesTo.ids_perm {p p' : VecProgress NID QS P A} {x x' : ProgressItem NID P A}
    (h : ChangesTo p p' x x') : (p'.voters.map (·.id)).Perm (p.voters.map (·.id)) := by
  obtain ⟨hid, others, hp, hp'⟩ := h
  have hmap := (hp.map (·.id)).symm
  have hmap' := hp'.map (·.id)
  rw [List.map_cons] at hmap hmap'
  rw [hid] at hmap'
  exact hmap'.trans hmap

omit [DecidableEq NID] [QuorumSet QS NID] [LinearOrder P] [Inhabited P] in
theorem ChangesTo.nodup {p p' : VecProgress NID QS P A} {x x' : ProgressItem NID P A}
    (h : ChangesTo p p' x x') (hnd : (p.voters.map (·.id)).Nodup) :
    (p'.voters.map (·.id)).Nodup :=
  h.ids_perm.nodup_iff.2 hnd

omit [DecidableEq NID] [Inhabited P] in
/-- Acceptance goes over to the changed voters if the one that changed still counts. -/
theorem ChangesTo.accepted {p p' : VecProgress NID QS P A} {x x' : ProgressItem NID P A}
    (h : ChangesTo p p' x x') (hqs : QuorumSet.UpwardClosed p.quorumSet)
    (hset : p'.quorumSet = p.quorumSet) (hnd : (p.voters.map (·.id)).Nodup) {v v' : P}
    (hv : v' ≤ v) (hx : v ≤ x.progress → v' ≤ x'.progress) (hacc : p.Accepted v) :
    p'.Accepted v' := by
  have hnd' := h.nodup hnd
  obtain ⟨hid, others, hp, hp'⟩ := h
  unfold Accepted at *
  rw [hset]
  refine hacc.mono hqs hnd hnd' ?_
  intro y hy hvy
  rcases List.mem_cons.1 (hp.mem_iff.1 hy) with rfl | hy
  · exact ⟨x', hp'.mem_iff.2 (by simp), hx hvy, hid⟩
  · exact ⟨y, hp'.mem_iff.2 (by simp [hy]), hv.trans hvy, rfl⟩

omit [DecidableEq NID] [QuorumSet QS NID] [LinearOrder P] [Inhabited P] in
theorem ChangesTo.symm {p p' : VecProgress NID QS P A} {x x' : ProgressItem NID P A}
    (h : ChangesTo p p' x x') : ChangesTo p' p x' x := by
  obtain ⟨hid, others, hp, hp'⟩ := h
  exact ⟨hid.symm, others, hp', hp⟩

/-- What an update that raises a value does to the tracker. -/
structure UpdateStep (p p' : VecProgress NID QS P A) : Prop where
  quorumSet : p'.quorumSet = p.quorumSet
  ids : (p'.voters.map (·.id)).Perm (p.voters.map (·.id))
  inOrder : p'.VotersInOrder
  le : p.quorumAccepted ≤ p'.quorumAccepted
  accepted : p.quorumAccepted < p'.quorumAccepted → p'.Accepted p'.quorumAccepted
  keeps : ∀ v, p.Accepted v → p'.Accepted v
  greatest : (∀ v, p.Accepted v → v ≤ p.quorumAccepted) →
    ∀ v, p'.Accepted v → v ≤ p'.quorumAccepted

omit [DecidableEq NID] [Inhabited P] in
/-- A call that leaves the voters and `quorum_accepted` alone. -/
theorem UpdateStep.of_voters_eq {p p' : VecProgress NID QS P A} (h : p.VotersInOrder)
    (hset : p'.quorumSet = p.quorumSet) (hqa : p'.quorumAccepted = p.quorumAccepted)
    (hvoters : p'.voters = p.voters) : UpdateStep p p' := by
  have hacc : ∀ v, p'.Accepted v ↔ p.Accepted v := by
    intro v
    unfold Accepted
    rw [hset, hvoters]
  refine ⟨hset, by rw [hvoters],
    ⟨by rw [hvoters]; exact h.nodup, by rw [hvoters, hqa]; exact h.sorted⟩,
    hqa.ge, ?_, fun v => (hacc v).2, ?_⟩
  · intro hlt
    exact absurd hlt (hqa ▸ lt_irrefl _)
  · intro hmax v hv
    rw [hqa]
    exact hmax v ((hacc v).1 hv)

omit [DecidableEq NID] [Inhabited P] in
/-- `update_at` of a voter that is raised. -/
theorem updateAt_step {p : VecProgress NID QS P A} {before behind : List (ProgressItem NID P A)}
    {x x' : ProgressItem NID P A} (hqs : QuorumSet.UpwardClosed p.quorumSet)
    (h : p.VotersInOrder) (he : p.entries = before ++ x :: behind)
    (hv : before.length < p.voterCount) (hid : x'.id = x.id) (hle : x.progress ≤ x'.progress) :
    ∃ p', p.updateAt before x' behind x.progress = some p' ∧ UpdateStep p p' := by
  obtain ⟨p', above, run, rest, hu, hset, -, hvoters, hvoters', hsorted, hqa⟩ :=
    updateAt_voters he hv h.sorted hle
  refine ⟨p', hu, ?_⟩
  have hchange : ChangesTo p p' x x' := by
    refine ⟨hid, above ++ (run ++ rest), ?_, ?_⟩
    · rw [hvoters, ← List.append_assoc above run rest]
      exact List.perm_middle
    · rw [hvoters']
      exact List.perm_middle
  have hnd' := hchange.nodup h.nodup
  have hkeeps : ∀ v, p.Accepted v → p'.Accepted v := fun v =>
    hchange.accepted hqs hset h.nodup le_rfl fun hx => hx.trans hle
  have hback : ∀ v v', v' ≤ v → (v ≤ x'.progress → v' ≤ x.progress) → p'.Accepted v →
      p.Accepted v' := fun v v' hvv hx =>
    hchange.symm.accepted (hset ▸ hqs) hset.symm hnd' hvv hx
  have hwalk : raiseLoop p.quorumSet p.quorumAccepted (above.map (·.id)) (x' :: (run ++ rest)) =
      p.quorumAccepted ∨
      p.quorumAccepted <
        raiseLoop p.quorumSet p.quorumAccepted (above.map (·.id)) (x' :: (run ++ rest)) ∧
      AcceptedBy p.quorumSet (above ++ x' :: (run ++ rest))
        (raiseLoop p.quorumSet p.quorumAccepted (above.map (·.id)) (x' :: (run ++ rest))) :=
    accepted_raiseLoop hqs (hvoters' ▸ hsorted) (hvoters' ▸ hnd')
  have hrise : p'.quorumAccepted = p.quorumAccepted ∨
      p.quorumAccepted < p'.quorumAccepted ∧ p'.Accepted p'.quorumAccepted := by
    unfold Accepted
    rw [hset, hvoters', hqa]
    split
    · exact hwalk
    · exact Or.inl rfl
  have hge : p.quorumAccepted ≤ p'.quorumAccepted := by
    rcases hrise with h | h
    · exact h.ge
    · exact h.1.le
  refine ⟨hset, hchange.ids_perm, ⟨hnd', hsorted.mono hge⟩, hge, ?_, hkeeps, ?_⟩
  · intro hlt
    rcases hrise with h | h
    · exact absurd hlt (h ▸ lt_irrefl _)
    · exact h.2
  · intro hmax v hacc
    by_cases hlow : v ≤ x.progress
    · exact (hmax v (hback v v le_rfl (fun _ => hlow) hacc)).trans hge
    by_cases hhigh : v ≤ x'.progress
    · -- the values between the old and the new progress are the ones that can be new
      by_cases hprev : x.progress ≤ p.quorumAccepted
      · by_cases hnew : p.quorumAccepted < x'.progress
        · rw [hqa, if_pos ⟨hprev, hnew⟩]
          unfold Accepted at hacc
          rw [hset, hvoters'] at hacc
          rw [hvoters'] at hnd' hsorted
          exact le_raiseLoop hqs (List.pairwise_append.1 hsorted).2.1 hnd' hacc
            ⟨x', by simp, hhigh⟩
        · exact (hhigh.trans (not_lt.1 hnew)).trans hge
      · -- the old progress would have been accepted already
        have hold := hback v x.progress (not_le.1 hlow).le (fun _ => le_rfl) hacc
        exact absurd (hmax _ hold) hprev
    · exact (hmax v (hback v v le_rfl (fun hv => absurd hv hhigh) hacc)).trans hge

omit [Inhabited P] in
/-- `update_entry_with` of an entry that it does not lower. -/
theorem updateEntryWith_step {p : VecProgress NID QS P A} {id : NID}
    {f : ProgressItem NID P A → ProgressItem NID P A}
    (hqs : QuorumSet.UpwardClosed p.quorumSet) (h : p.VotersInOrder)
    (hf : ∀ x, p.tryGet id = some x → (f x).id = x.id ∧ x.progress ≤ (f x).progress) :
    ∃ found p', p.updateEntryWith id f = some (found, p') ∧ UpdateStep p p' := by
  unfold updateEntryWith
  rcases hspan : p.entries.span (fun item => decide (item.id ≠ id)) with ⟨before, _ | ⟨x, behind⟩⟩
  · rw [hspan]
    exact ⟨false, p, rfl, .of_voters_eq h rfl rfl rfl⟩
  · rw [hspan]
    obtain ⟨he, hget⟩ := entries_of_span hspan
    obtain ⟨hid, hle⟩ := hf x hget
    dsimp only
    by_cases hv : before.length < p.voterCount
    · obtain ⟨p', hu, hstep⟩ := updateAt_step hqs h he hv hid hle
      exact ⟨true, p', by rw [hu]; rfl, hstep⟩
    · -- a learner changes in place
      have hu : p.updateAt before (f x) behind x.progress =
          some { p with entries := before ++ f x :: behind } := by
        unfold updateAt
        rw [if_neg (not_lt.2 hle), if_pos (Or.inr (not_lt.1 hv))]
      refine ⟨true, { p with entries := before ++ f x :: behind }, by rw [hu]; rfl,
        .of_voters_eq h rfl rfl ?_⟩
      unfold voters
      dsimp only
      rw [he, List.take_append_of_le_length (not_lt.1 hv),
        List.take_append_of_le_length (not_lt.1 hv)]

omit [DecidableEq NID] [Inhabited P] in
/-- Moving a lowered entry behind the greater ones right behind it keeps the order. -/
theorem SortedAbove.moveDownLoop {qa : P} {behind : List (ProgressItem NID P A)}
    (h : SortedAbove qa behind) (y : ProgressItem NID P A) :
    SortedAbove qa (VecProgress.moveDownLoop y behind) := by
  unfold SortedAbove at *
  induction behind with
  | nil => exact List.pairwise_singleton _ _
  | cons a behind ih =>
    obtain ⟨ha, hbehind⟩ := List.pairwise_cons.1 h
    unfold VecProgress.moveDownLoop
    split
    · rename_i hlt
      refine List.pairwise_cons.2 ⟨?_, ih hbehind⟩
      intro b hb
      rcases List.mem_cons.1 ((moveDownLoop_perm y behind).mem_iff.1 hb) with rfl | hb
      · exact hlt.le.trans (le_max_left _ _)
      · exact ha b hb
    · rename_i hge
      refine List.pairwise_cons.2 ⟨?_, h⟩
      intro b hb
      rcases List.mem_cons.1 hb with rfl | hb
      · exact (not_lt.1 hge).trans (le_max_left _ _)
      · exact (ha b hb).trans (max_le_max (not_lt.1 hge) le_rfl)

/-- What a reset that lowers a value does to the tracker. -/
structure ResetStep (p p' : VecProgress NID QS P A) : Prop where
  quorumSet : p'.quorumSet = p.quorumSet
  inOrder : p'.VotersInOrder
  quorumAccepted : p'.quorumAccepted = p.quorumAccepted

omit [Inhabited P] [QuorumSet QS NID] in
/-- `reset_entry_with` of an entry that it does not raise. -/
theorem resetEntryWith_step {p : VecProgress NID QS P A} {id : NID}
    {f : ProgressItem NID P A → ProgressItem NID P A} (h : p.VotersInOrder)
    (hf : ∀ x, p.tryGet id = some x → (f x).id = x.id ∧ (f x).progress ≤ x.progress) :
    ResetStep p (p.resetEntryWith id f) := by
  unfold resetEntryWith
  rcases hspan : p.entries.span (fun item => decide (item.id ≠ id)) with ⟨before, _ | ⟨x, behind⟩⟩
  · rw [hspan]
    exact ⟨rfl, h, rfl⟩
  rw [hspan]
  obtain ⟨he, hget⟩ := entries_of_span hspan
  obtain ⟨hid, hle⟩ := hf x hget
  have hnd := h.nodup
  have hsorted := h.sorted
  unfold voters at hnd hsorted
  rw [he] at hnd hsorted
  dsimp only
  by_cases hv : before.length < p.voterCount
  · obtain ⟨k, hk⟩ : ∃ k, p.voterCount - before.length - 1 = k := ⟨_, rfl⟩
    rw [take_append_cons _ _ _ hv, hk] at hnd hsorted
    rw [hk]
    have hpair := List.pairwise_append.1 hsorted
    have hbehind := (List.pairwise_cons.1 hpair.2.1).2
    have hmoved : SortedAbove p.quorumAccepted
        (before ++ VecProgress.moveDownLoop (f x) (behind.take k)) := by
      refine List.pairwise_append.2 ⟨hpair.1, SortedAbove.moveDownLoop hbehind (f x), ?_⟩
      intro a ha b hb
      rcases List.mem_cons.1 ((moveDownLoop_perm (f x) _).mem_iff.1 hb) with rfl | hb
      · exact hle.trans (hpair.2.2 a ha x (by simp))
      · exact hpair.2.2 a ha b (by simp [hb])
    have hids : ((before ++ f x :: behind.take k).map (·.id)).Nodup := by
      simpa [hid] using hnd
    split
    · have htake : (before ++ (VecProgress.moveDownLoop (f x) (behind.take k) ++
          behind.drop k)).take p.voterCount =
          before ++ VecProgress.moveDownLoop (f x) (behind.take k) := by
        have hlen := (moveDownLoop_perm (f x) (behind.take k)).length_eq
        rw [List.length_cons, List.length_take] at hlen
        rw [← List.append_assoc, List.take_append, List.length_append, hlen,
          List.take_of_length_le (by rw [List.length_append, hlen]; omega)]
        have hnil : (behind.drop k).take
            (p.voterCount - (before.length + (min k behind.length + 1))) = [] := by
          rw [List.take_eq_nil_iff, List.drop_eq_nil_iff]
          omega
        rw [hnil, List.append_nil]
      refine ⟨rfl, ⟨?_, ?_⟩, rfl⟩
      · unfold voters
        rw [htake]
        have hperm := ((moveDownLoop_perm (f x) (behind.take k)).append_left before).map (·.id)
        exact hperm.nodup_iff.2 hids
      · unfold voters
        rw [htake]
        exact hmoved
    · rename_i hstays
      have hsame : (f x).progress = x.progress :=
        le_antisymm hle (not_lt.1 fun hlt => hstays ⟨hv, hlt⟩)
      have htake : (before ++ f x :: behind).take p.voterCount =
          before ++ f x :: behind.take k := by
        rw [take_append_cons _ _ _ hv, hk]
      refine ⟨rfl, ⟨?_, ?_⟩, rfl⟩
      · unfold voters
        rw [htake]
        exact hids
      · unfold voters
        rw [htake]
        exact hsorted.replace hsame.ge (Or.inr hsame)
  · rw [if_neg fun h => hv h.1]
    have htake : (before ++ f x :: behind).take p.voterCount =
        (before ++ x :: behind).take p.voterCount := by
      rw [List.take_append_of_le_length (not_lt.1 hv), List.take_append_of_le_length (not_lt.1 hv)]
    exact ⟨rfl, ⟨by unfold voters; rw [htake]; exact hnd,
      by unfold voters; rw [htake]; exact hsorted⟩,
      rfl⟩

/-! ## Sequences of calls -/

/-- A call that changes an entry by `f`. -/
inductive Call (NID P A : Type) where
  | updateEntryWith (id : NID) (f : ProgressItem NID P A → ProgressItem NID P A)
  | resetEntryWith (id : NID) (f : ProgressItem NID P A → ProgressItem NID P A)

/-- The tracker after a call, `none` if an assertion fails. -/
def call (p : VecProgress NID QS P A) : Call NID P A → Option (VecProgress NID QS P A)
  | .updateEntryWith id f => (p.updateEntryWith id f).map (·.2)
  | .resetEntryWith id f => some (p.resetEntryWith id f)

/-- The tracker after a sequence of calls. -/
def calls (p : VecProgress NID QS P A) : List (Call NID P A) → Option (VecProgress NID QS P A)
  | [] => some p
  | c :: cs => (p.call c).bind fun p => p.calls cs

/-- No call changes the id of an entry, an update does not lower its value, and a reset does not
    raise it. -/
def Call.Fits (p : VecProgress NID QS P A) : Call NID P A → Prop
  | .updateEntryWith id f =>
    ∀ x, p.tryGet id = some x → (f x).id = x.id ∧ x.progress ≤ (f x).progress
  | .resetEntryWith id f =>
    ∀ x, p.tryGet id = some x → (f x).id = x.id ∧ (f x).progress ≤ x.progress

/-- Every call of a sequence fits the tracker it finds. -/
def CallsFit : VecProgress NID QS P A → List (Call NID P A) → Prop
  | _, [] => True
  | p, c :: cs => c.Fits p ∧ ∀ p', p.call c = some p' → CallsFit p' cs

/-- Only updates. -/
def OnlyUpdates (cs : List (Call NID P A)) : Prop :=
  ∀ c ∈ cs, ∃ id f, c = .updateEntryWith id f

/-- What every call keeps. -/
structure CallStep (p p' : VecProgress NID QS P A) : Prop where
  quorumSet : p'.quorumSet = p.quorumSet
  inOrder : p'.VotersInOrder
  le : p.quorumAccepted ≤ p'.quorumAccepted
  accepted : p.quorumAccepted < p'.quorumAccepted → p'.Accepted p'.quorumAccepted

omit [Inhabited P] in
theorem call_step {p : VecProgress NID QS P A} (hqs : QuorumSet.UpwardClosed p.quorumSet)
    (h : p.VotersInOrder) {c : Call NID P A} (hc : c.Fits p) :
    ∃ p', p.call c = some p' ∧ CallStep p p' ∧
      ((∃ id f, c = .updateEntryWith id f) → UpdateStep p p') := by
  cases c with
  | updateEntryWith id f =>
    obtain ⟨found, p', hu, hstep⟩ := updateEntryWith_step hqs h hc
    exact ⟨p', by simp [call, hu], ⟨hstep.quorumSet, hstep.inOrder, hstep.le, hstep.accepted⟩,
      fun _ => hstep⟩
  | resetEntryWith id f =>
    have hstep := resetEntryWith_step h hc
    refine ⟨_, rfl, ⟨hstep.quorumSet, hstep.inOrder, hstep.quorumAccepted.ge, ?_⟩, ?_⟩
    · intro hlt
      exact absurd hlt (hstep.quorumAccepted ▸ lt_irrefl _)
    · rintro ⟨id', f', hcon⟩
      cases hcon

/-- What raising calls keep: no value above `quorum_accepted` is accepted, and if the voters
    together are a quorum, `quorum_accepted` is accepted. -/
structure Greatest (p : VecProgress NID QS P A) : Prop where
  max : ∀ v, p.Accepted v → v ≤ p.quorumAccepted
  accepted : QuorumSet.isQuorum p.quorumSet (p.voters.map (·.id)) = true →
    p.Accepted p.quorumAccepted

omit [DecidableEq NID] [Inhabited P] in
/-- If any value is accepted, the voters together are a quorum. -/
theorem Greatest.isGreatest {p : VecProgress NID QS P A} (hg : p.Greatest)
    (hqs : QuorumSet.UpwardClosed p.quorumSet) (h : p.VotersInOrder) (hex : ∃ v, p.Accepted v) :
    IsGreatest {v | p.Accepted v} p.quorumAccepted := by
  obtain ⟨v, hv⟩ := hex
  refine ⟨hg.accepted ?_, fun w hw => hg.max w hw⟩
  refine hqs _ _ (nodup_idsFrom h.nodup v) h.nodup ?_ hv
  intro id hmem
  obtain ⟨x, hx, -, rfl⟩ := mem_idsFrom.1 hmem
  exact List.mem_map.2 ⟨x, hx, rfl⟩

omit [DecidableEq NID] [Inhabited P] in
theorem UpdateStep.preserves_greatest {p p' : VecProgress NID QS P A}
    (hqs : QuorumSet.UpwardClosed p.quorumSet) (h : p.VotersInOrder) (hstep : UpdateStep p p')
    (hg : p.Greatest) : p'.Greatest := by
  refine ⟨hstep.greatest hg.max, ?_⟩
  intro hall
  rcases hstep.le.lt_or_eq with hlt | heq
  · exact hstep.accepted hlt
  · rw [← heq]
    refine hstep.keeps _ (hg.accepted ?_)
    rw [hstep.quorumSet] at hall
    exact hqs _ _ hstep.inOrder.nodup h.nodup hstep.ids.subset hall

omit [Inhabited P] in
/-- The run lemma. -/
theorem calls_step {p : VecProgress NID QS P A} (hqs : QuorumSet.UpwardClosed p.quorumSet)
    (h : p.VotersInOrder) {cs : List (Call NID P A)} (hcs : CallsFit p cs) :
    ∃ p', p.calls cs = some p' ∧ p'.quorumSet = p.quorumSet ∧ p'.VotersInOrder ∧
      (OnlyUpdates cs → p.Greatest → p'.Greatest) := by
  induction cs generalizing p with
  | nil => exact ⟨p, rfl, rfl, h, fun _ hg => hg⟩
  | cons c cs ih =>
    obtain ⟨q, hq, hstep, hupdate⟩ := call_step hqs h hcs.1
    obtain ⟨p', hp', hset, horder, hgreatest⟩ :=
      ih (hstep.quorumSet ▸ hqs) hstep.inOrder (hcs.2 q hq)
    refine ⟨p', by simp [calls, hq, hp'], hset.trans hstep.quorumSet, horder, ?_⟩
    intro honly hg
    refine hgreatest (fun c' hc' => honly c' (by simp [hc'])) ?_
    exact (hupdate (honly c (by simp))).preserves_greatest hqs h hg

section New

variable {qs : QS} {learnerIds : List NID} {defaultEntry : NID → ProgressItem NID P A}

omit [DecidableEq NID] [LinearOrder P] in
theorem voters_new : (new qs learnerIds defaultEntry).voters =
    (QuorumSet.ids qs).map defaultEntry := by
  unfold voters new
  dsimp only
  rw [List.map_append, List.take_append_of_le_length (by simp), List.take_of_length_le (by simp)]

omit [DecidableEq NID] [LinearOrder P] in
theorem ids_new (hid : ∀ id, (defaultEntry id).id = id) :
    (new qs learnerIds defaultEntry).voters.map (·.id) = QuorumSet.ids qs := by
  rw [voters_new, List.map_map]
  conv_rhs => rw [← List.map_id (QuorumSet.ids qs)]
  exact List.map_congr_left fun id _ => hid id

section

omit [DecidableEq NID]

/-- A fresh tracker: every value is the initial one. -/
theorem new_inOrder (hnd : (QuorumSet.ids qs).Nodup) (hid : ∀ id, (defaultEntry id).id = id)
    (hprog : ∀ id, (defaultEntry id).progress = default) :
    (new qs learnerIds defaultEntry).VotersInOrder := by
  refine ⟨by rw [ids_new hid]; exact hnd, ?_⟩
  unfold SortedAbove
  rw [voters_new, List.pairwise_map]
  exact List.pairwise_iff_forall_sublist.2 fun _ => by simp [hprog]

theorem idsFrom_new (hid : ∀ id, (defaultEntry id).id = id)
    (hprog : ∀ id, (defaultEntry id).progress = default) (v : P) :
    idsFrom (new qs learnerIds defaultEntry).voters v =
      if v ≤ default then QuorumSet.ids qs else [] := by
  have hvalue : ∀ x ∈ (new qs learnerIds defaultEntry).voters, x.progress = default := by
    rw [voters_new]
    intro x hx
    obtain ⟨id, -, rfl⟩ := List.mem_map.1 hx
    exact hprog id
  unfold idsFrom
  split
  · rename_i hv
    rw [List.filter_eq_self.2 fun x hx => by simpa [hvalue x hx] using hv, ids_new hid]
  · rename_i hv
    rw [List.filter_eq_nil_iff.2 fun x hx => by simpa [hvalue x hx] using hv, List.map_nil]

theorem new_greatest (hempty : QuorumSet.isQuorum qs [] = false)
    (hid : ∀ id, (defaultEntry id).id = id)
    (hprog : ∀ id, (defaultEntry id).progress = default) :
    (new qs learnerIds defaultEntry).Greatest := by
  constructor
  · intro v hv
    unfold Accepted AcceptedBy at hv
    rw [idsFrom_new hid hprog] at hv
    show v ≤ default
    by_contra hgt
    rw [if_neg hgt] at hv
    exact absurd (hempty.symm.trans hv) (by simp)
  · intro hall
    have hqa : (new qs learnerIds defaultEntry).quorumAccepted ≤ default := le_rfl
    unfold Accepted AcceptedBy
    rw [idsFrom_new hid hprog, if_pos hqa]
    rw [ids_new hid] at hall
    exact hall

end

/-- A tracker after any sequence of calls. With updates only, `quorum_accepted` is the greatest
    accepted value, if any value is accepted and the empty set of voters is not a quorum. With
    resets in between, every further call leaves `quorum_accepted` or raises it to a value that
    is accepted then. -/
theorem quorumAccepted_of_calls (hqs : QuorumSet.UpwardClosed qs) (hnd : (QuorumSet.ids qs).Nodup)
    (hid : ∀ id, (defaultEntry id).id = id)
    (hprog : ∀ id, (defaultEntry id).progress = default) {cs : List (Call NID P A)}
    (hcs : CallsFit (new qs learnerIds defaultEntry) cs) :
    ∃ p, (new qs learnerIds defaultEntry).calls cs = some p ∧
      (OnlyUpdates cs → QuorumSet.isQuorum qs [] = false → (∃ v, p.Accepted v) →
        IsGreatest {v | p.Accepted v} p.quorumAccepted) ∧
      ∀ c : Call NID P A, c.Fits p → ∃ p', p.call c = some p' ∧
        p.quorumAccepted ≤ p'.quorumAccepted ∧
        (p.quorumAccepted < p'.quorumAccepted → p'.Accepted p'.quorumAccepted) := by
  obtain ⟨p, hp, hset, horder, hgreatest⟩ := calls_step hqs (new_inOrder hnd hid hprog) hcs
  have hset : p.quorumSet = qs := hset
  refine ⟨p, hp, ?_, ?_⟩
  · intro honly hempty hex
    exact (hgreatest honly (new_greatest hempty hid hprog)).isGreatest (hset ▸ hqs) horder hex
  · intro c hc
    obtain ⟨p', hp', hstep, -⟩ := call_step (hset ▸ hqs) horder hc
    exact ⟨p', hp', hstep.le, hstep.accepted⟩

end New

end VecProgress

/-! ## The quorum sets of the source -/

section Joint

variable {NID : Type} [LinearOrder NID]

/-- The quorum set of a joint config is upward closed. -/
theorem upwardClosed_joint (configs : List (Finset NID)) : QuorumSet.UpwardClosed configs := by
  intro ids ids' hnd hnd' hsub hq
  have hq : jointIsQuorum configs ids = true := hq
  show jointIsQuorum configs ids' = true
  rw [jointIsQuorum_iff _ hnd] at hq
  rw [jointIsQuorum_iff _ hnd']
  intro c hc
  have hmajority := hq c hc
  have hcard : (ids.toFinset ∩ c).card ≤ (ids'.toFinset ∩ c).card := by
    refine Finset.card_le_card (Finset.inter_subset_inter_right ?_)
    intro x hx
    exact List.mem_toFinset.2 (hsub (List.mem_toFinset.1 hx))
  unfold Lib.IsMajority at *
  omega

end Joint

namespace VecProgress

/-- Three voters and a learner: two voters have reached 3. -/
theorem quorumAccepted_of_calls_three :
    ∃ p, (new [{1, 2, 3}] [4] fun id => ⟨id, 0, ()⟩ :
        VecProgress Nat (List (Finset Nat)) Nat Unit).calls
        [.updateEntryWith 1 fun x => { x with progress := max x.progress 5 },
         .updateEntryWith 2 fun x => { x with progress := max x.progress 3 }] = some p ∧
      p.quorumAccepted = 3 ∧ IsGreatest {v | p.Accepted v} 3 := by
  have hcs : CallsFit (new [{1, 2, 3}] [4] fun id => ⟨id, 0, ()⟩ :
      VecProgress Nat (List (Finset Nat)) Nat Unit)
      [.updateEntryWith 1 fun x => { x with progress := max x.progress 5 },
       .updateEntryWith 2 fun x => { x with progress := max x.progress 3 }] :=
    ⟨fun x _ => ⟨rfl, le_max_left _ _⟩, fun _ _ => ⟨fun x _ => ⟨rfl, le_max_left _ _⟩,
      fun _ _ => trivial⟩⟩
  obtain ⟨p, hp, hgreatest, -⟩ := quorumAccepted_of_calls (upwardClosed_joint _)
    (Lib.nodup_sortedList _) (fun _ => rfl) (fun _ => rfl) hcs
  have hqa : (some p).map (·.quorumAccepted) = some 3 := by
    rw [← hp]
    decide
  have hacc : (some p).map (fun p => QuorumSet.isQuorum p.quorumSet (idsFrom p.voters 3)) =
      some true := by
    rw [← hp]
    decide
  have hqa : p.quorumAccepted = 3 := Option.some.inj hqa
  refine ⟨p, hp, hqa, ?_⟩
  rw [← hqa]
  refine hgreatest ?_ rfl ⟨3, Option.some.inj hacc⟩
  intro c hc
  simp only [List.mem_cons, List.not_mem_nil, or_false] at hc
  rcases hc with rfl | rfl
  · exact ⟨_, _, rfl⟩
  · exact ⟨_, _, rfl⟩

/-- Without a config the empty set is a quorum: the value `true` is accepted, and the tracker
    stays at `false`. -/
theorem not_isGreatest_of_no_config :
    QuorumSet.UpwardClosed ([] : List (Finset Nat)) ∧
      (QuorumSet.ids ([] : List (Finset Nat))).Nodup ∧
      (new [] [] fun id => ⟨id, false, ()⟩ :
        VecProgress Nat (List (Finset Nat)) Bool Unit).Accepted true ∧
      ¬ IsGreatest {v | (new [] [] fun id => ⟨id, false, ()⟩ :
          VecProgress Nat (List (Finset Nat)) Bool Unit).Accepted v}
        (new [] [] fun id => ⟨id, false, ()⟩ :
          VecProgress Nat (List (Finset Nat)) Bool Unit).quorumAccepted := by
  refine ⟨upwardClosed_joint _, Lib.nodup_sortedList _, rfl, ?_⟩
  rintro ⟨-, hmax⟩
  have hle := hmax (show _ = true from rfl : (new [] [] fun id => ⟨id, false, ()⟩ :
    VecProgress Nat (List (Finset Nat)) Bool Unit).Accepted true)
  exact absurd hle (by decide)

end VecProgress

end ZenohRaft
