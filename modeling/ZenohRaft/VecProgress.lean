/-
  The progress tracker: `progress/vec_progress.rs`.

  `VecProgress` lists the voters first and the learners after them. The voters whose progress
  is above `quorumAccepted` stand at the front in descending order, which is what lets one
  update find the new quorum-accepted value by a short walk. `VecProgress.Sound` is that
  invariant together with what the value means: some quorum of voters has reached it. Every
  operation keeps it (`new_sound`, `updateEntryWith_spec`, `upgradeQuorumSet_spec`).

  The tracker is generic in the quorum set, the ids and the progress values, as in the source.
  The source asserts in debug builds that an update does not lower a progress. The order of the
  voters depends on it, so the model keeps the assertion: `none` means that it failed.

  Left out: the counters of `ProgressStats`.
-/
import Mathlib.Data.List.TakeWhile
import ZenohRaft.Quorum

namespace ZenohRaft

open Lib

variable {NID QS : Type} [DecidableEq NID]

/-! ## VecProgress -/

/-- `VecProgressEntry`: an id, its progress, and data that goes along with it. -/
structure ProgressItem (NID P A : Type) where
  id : NID
  progress : P
  data : A

/-- `VecProgress`. -/
structure VecProgress (NID QS P A : Type) where
  quorumSet : QS
  quorumAccepted : P
  voterCount : Nat
  entries : List (ProgressItem NID P A)

namespace VecProgress

variable [QuorumSet QS NID] {P A : Type} [LinearOrder P] [Inhabited P]

/-- `VecProgress::new`. -/
def new (quorumSet : QS) (learnerIds : List NID)
    (defaultEntry : NID → ProgressItem NID P A) : VecProgress NID QS P A :=
  { quorumSet := quorumSet
    quorumAccepted := default
    voterCount := (QuorumSet.ids quorumSet).length
    entries := (QuorumSet.ids quorumSet ++ learnerIds).map defaultEntry }

/-- `VecProgress::try_get`. -/
def tryGet (p : VecProgress NID QS P A) (id : NID) : Option (ProgressItem NID P A) :=
  p.entries.find? fun item => decide (item.id = id)

/-- The loop of `VecProgress::move_up`: `x` changes places with the entry before it while that
    one is smaller. `before` holds the entries before `x` from the nearest on, `passed` those
    that `x` has overtaken. -/
def moveUpLoop (x : ProgressItem NID P A) :
    List (ProgressItem NID P A) → List (ProgressItem NID P A) →
      List (ProgressItem NID P A) × List (ProgressItem NID P A)
  | [], passed => ([], passed)
  | a :: before, passed =>
    if a.progress < x.progress then moveUpLoop x before (a :: passed)
    else (a :: before, passed)

/-- The loop of `VecProgress::move_down` over the voters behind `x`. -/
def moveDownLoop (x : ProgressItem NID P A) :
    List (ProgressItem NID P A) → List (ProgressItem NID P A)
  | [] => [x]
  | a :: behind =>
    if x.progress < a.progress then a :: moveDownLoop x behind else x :: a :: behind

/-- The loop of `VecProgress::update_at` that raises `quorum_accepted`. `ids` are the voters
    before the ones still to visit. -/
def raiseLoop (quorumSet : QS) (quorumAccepted : P) :
    List NID → List (ProgressItem NID P A) → P
  | _, [] => quorumAccepted
  | ids, x :: rest =>
    if x.progress ≤ quorumAccepted then quorumAccepted
    else if QuorumSet.isQuorum quorumSet (ids ++ [x.id]) then x.progress
    else raiseLoop quorumSet quorumAccepted (ids ++ [x.id]) rest

/-- `VecProgress::update_at`, for the entry `x` at `index` whose progress was `prev`. The
    entries before and behind it are given separately. -/
def updateAt (p : VecProgress NID QS P A) (before : List (ProgressItem NID P A))
    (x : ProgressItem NID P A) (behind : List (ProgressItem NID P A)) (prev : P) :
    Option (VecProgress NID QS P A) :=
  if x.progress < prev then none
  else if prev = x.progress ∨ p.voterCount ≤ before.length then
    some { p with entries := before ++ x :: behind }
  else if p.quorumAccepted < x.progress then
    let (above, passed) := moveUpLoop x before.reverse []
    let entries := above.reverse ++ x :: (passed ++ behind)
    if prev ≤ p.quorumAccepted then
      let rest := (entries.take p.voterCount).drop above.length
      some { p with
        entries := entries
        quorumAccepted := raiseLoop p.quorumSet p.quorumAccepted
          (above.reverse.map (·.id)) rest }
    else some { p with entries := entries }
  else some { p with entries := before ++ x :: behind }

/-- `VecProgress::update_entry_with`. The flag says whether the entry exists. -/
def updateEntryWith (p : VecProgress NID QS P A) (id : NID)
    (f : ProgressItem NID P A → ProgressItem NID P A) : Option (Bool × VecProgress NID QS P A) :=
  match p.entries.span (fun item => decide (item.id ≠ id)) with
  | (_, []) => some (false, p)
  | (before, x :: behind) =>
    (p.updateAt before (f x) behind x.progress).map fun p => (true, p)

/-- `VecProgress::update_data_with`. -/
def updateDataWith (p : VecProgress NID QS P A) (id : NID) (f : A → A) : VecProgress NID QS P A :=
  match p.entries.span (fun item => decide (item.id ≠ id)) with
  | (_, []) => p
  | (before, x :: behind) => { p with entries := before ++ { x with data := f x.data } :: behind }

/-- `VecProgress::reset_entry_with`. -/
def resetEntryWith (p : VecProgress NID QS P A) (id : NID)
    (f : ProgressItem NID P A → ProgressItem NID P A) : VecProgress NID QS P A :=
  match p.entries.span (fun item => decide (item.id ≠ id)) with
  | (_, []) => p
  | (before, x :: behind) =>
    let y := f x
    if before.length < p.voterCount ∧ y.progress < x.progress then
      let voters := behind.take (p.voterCount - before.length - 1)
      let learners := behind.drop (p.voterCount - before.length - 1)
      { p with entries := before ++ (moveDownLoop y voters ++ learners) }
    else { p with entries := before ++ y :: behind }

/-- `VecProgress::increase_to`. -/
def increaseTo (p : VecProgress NID QS P A) (id : NID) (value : P) :
    Option (Bool × VecProgress NID QS P A) :=
  p.updateEntryWith id fun x => if x.progress < value then { x with progress := value } else x

/-- `VecProgress::update`. -/
def update (p : VecProgress NID QS P A) (id : NID) (value : P) :
    Option (Bool × VecProgress NID QS P A) :=
  p.updateEntryWith id fun x => { x with progress := value }

/-- The loop of `VecProgress::upgrade_quorum_set`: `replace` for every old entry. -/
def replaceLoop (p : VecProgress NID QS P A) :
    List (ProgressItem NID P A) → Option (VecProgress NID QS P A)
  | [] => some p
  | x :: rest => (p.updateEntryWith x.id fun _ => x).bind fun r => r.2.replaceLoop rest

/-- `VecProgress::upgrade_quorum_set`. -/
def upgradeQuorumSet (p : VecProgress NID QS P A) (quorumSet : QS)
    (learnerIds : List NID) (defaultEntry : NID → ProgressItem NID P A) :
    Option (VecProgress NID QS P A) :=
  (new quorumSet learnerIds defaultEntry).replaceLoop p.entries

/-- The entries that count for a quorum. -/
def voters (p : VecProgress NID QS P A) : List (ProgressItem NID P A) :=
  p.entries.take p.voterCount

/-! ### The invariant -/

/-- Some quorum of the entries has reached `qa`, or `qa` is still the initial value. -/
def Reached (m : QS) (qa : P) (entries : List (ProgressItem NID P A)) : Prop :=
  qa = default ∨ ∃ ids : List NID, ids.Nodup ∧ QuorumSet.isQuorum m ids = true ∧
    ∀ id ∈ ids, ∃ item ∈ entries, item.id = id ∧ qa ≤ item.progress

/-- An entry above `qa` has every entry before it at or above itself. -/
def SortedAbove (qa : P) (voters : List (ProgressItem NID P A)) : Prop :=
  voters.Pairwise fun a b => b.progress ≤ max a.progress qa

/-- The invariant of `VecProgress`. -/
structure Sound (p : VecProgress NID QS P A) : Prop where
  nodup : (p.entries.map (·.id)).Nodup
  sorted : SortedAbove p.quorumAccepted p.voters
  reached : Reached p.quorumSet p.quorumAccepted p.entries

omit [DecidableEq NID] [Inhabited P] in
/-- What `moveUpLoop` does: `x` overtakes the run of smaller entries right before it. -/
theorem moveUpLoop_spec (x : ProgressItem NID P A) (before passed : List (ProgressItem NID P A)) :
    ∃ run, before.reverse = (moveUpLoop x before passed).1.reverse ++ run ∧
      (moveUpLoop x before passed).2 = run ++ passed ∧
      (∀ a ∈ run, a.progress < x.progress) ∧
      ∀ a ∈ (moveUpLoop x before passed).1.head?, x.progress ≤ a.progress := by
  induction before generalizing passed with
  | nil => exact ⟨[], by simp [moveUpLoop], by simp [moveUpLoop], by simp, by simp [moveUpLoop]⟩
  | cons a before ih =>
    unfold moveUpLoop
    split
    · rename_i hlt
      obtain ⟨run, hrev, hpassed, hrun, hhead⟩ := ih (a :: passed)
      refine ⟨run ++ [a], ?_, ?_, ?_, hhead⟩
      · rw [List.reverse_cons, hrev, List.append_assoc]
      · rw [hpassed, List.append_assoc, List.singleton_append]
      · intro b hb
        rcases List.mem_append.1 hb with hb | hb
        · exact hrun b hb
        · rw [List.mem_singleton.1 hb]
          exact hlt
    · rename_i hge
      exact ⟨[], by simp, by simp, by simp, by simpa using hge⟩

omit [Inhabited P] [DecidableEq NID] in
/-- What `raiseLoop` does: it keeps the value, or finds a quorum that ends at the entry with
    the new one. -/
theorem raiseLoop_spec (m : QS) (qa : P) (ids : List NID)
    (rest : List (ProgressItem NID P A)) :
    raiseLoop m qa ids rest = qa ∨
      ∃ pre y suf, rest = pre ++ y :: suf ∧ raiseLoop m qa ids rest = y.progress ∧
        qa < y.progress ∧ QuorumSet.isQuorum m (ids ++ (pre ++ [y]).map (·.id)) = true := by
  induction rest generalizing ids with
  | nil => exact Or.inl rfl
  | cons x rest ih =>
    unfold raiseLoop
    split
    · exact Or.inl rfl
    · rename_i hgt
      split
      · rename_i hq
        exact Or.inr ⟨[], x, rest, rfl, rfl, not_le.1 hgt, by simpa using hq⟩
      · rcases ih (ids ++ [x.id]) with h | ⟨pre, y, suf, hrest, hval, hy, hq⟩
        · exact Or.inl h
        · exact Or.inr ⟨x :: pre, y, suf, by rw [hrest]; rfl, hval, hy, by simpa using hq⟩

omit [DecidableEq NID] in
/-- Raising the progress of an entry keeps what a quorum has reached. -/
theorem Reached.raise {m : QS} {qa : P} {before behind : List (ProgressItem NID P A)}
    {x x' : ProgressItem NID P A} (h : Reached m qa (before ++ x :: behind)) (hid : x'.id = x.id)
    (hle : x.progress ≤ x'.progress) {entries : List (ProgressItem NID P A)}
    (hperm : entries.Perm (before ++ x' :: behind)) : Reached m qa entries := by
  rcases h with h | ⟨ids, hnd, hq, hids⟩
  · exact Or.inl h
  · refine Or.inr ⟨ids, hnd, hq, ?_⟩
    intro id hmem
    obtain ⟨item, hitem, hitem_id, hqa⟩ := hids id hmem
    have hcase : item ∈ before ∨ item = x ∨ item ∈ behind := by simpa using hitem
    rcases hcase with hb | rfl | hb
    · exact ⟨item, hperm.mem_iff.2 (by simp [hb]), hitem_id, hqa⟩
    · exact ⟨x', hperm.mem_iff.2 (by simp), by rw [hid, hitem_id], hqa.trans hle⟩
    · exact ⟨item, hperm.mem_iff.2 (by simp [hb]), hitem_id, hqa⟩

section

omit [DecidableEq NID] [Inhabited P]

theorem SortedAbove.mono {qa qa' : P} {voters : List (ProgressItem NID P A)}
    (h : SortedAbove qa voters) (hle : qa ≤ qa') : SortedAbove qa' voters :=
  List.Pairwise.imp (fun hab => hab.trans (max_le_max le_rfl hle)) h

/-- Raising an entry in place keeps the order if it stays at or below `qa`. -/
theorem SortedAbove.replace {qa : P} {before behind : List (ProgressItem NID P A)}
    {x x' : ProgressItem NID P A} (h : SortedAbove qa (before ++ x :: behind))
    (hle : x.progress ≤ x'.progress) (hx' : x'.progress ≤ qa ∨ x'.progress = x.progress) :
    SortedAbove qa (before ++ x' :: behind) := by
  unfold SortedAbove at *
  rw [List.pairwise_append, List.pairwise_cons] at *
  obtain ⟨hb, ⟨hx, hbehind⟩, hcross⟩ := h
  refine ⟨hb, ⟨?_, hbehind⟩, ?_⟩
  · intro b hmem
    exact (hx b hmem).trans (max_le_max hle le_rfl)
  · intro a ha b hmem
    rcases List.mem_cons.1 hmem with rfl | hmem
    · rcases hx' with hx' | hx'
      · exact hx'.trans (le_max_right _ _)
      · rw [hx']
        exact hcross a ha x (by simp)
    · exact hcross a ha b (by simp [hmem])

/-- Moving a raised entry before the smaller ones right before it keeps the order. -/
theorem SortedAbove.moveUp {qa : P} {above run behind : List (ProgressItem NID P A)}
    {x x' : ProgressItem NID P A} (h : SortedAbove qa ((above.reverse ++ run) ++ x :: behind))
    (hle : x.progress ≤ x'.progress) (hrun : ∀ a ∈ run, a.progress < x'.progress)
    (hhead : ∀ a ∈ above.head?, x'.progress ≤ a.progress) :
    SortedAbove qa (above.reverse ++ x' :: (run ++ behind)) := by
  unfold SortedAbove at *
  simp only [List.pairwise_append, List.pairwise_cons] at *
  obtain ⟨⟨habove, hrun', hcross⟩, ⟨hx, hbehind⟩, hcross'⟩ := h
  refine ⟨habove, ⟨?_, hrun', hbehind, ?_⟩, ?_⟩
  · intro b hb
    rcases List.mem_append.1 hb with hb | hb
    · exact (hrun b hb).le.trans (le_max_left _ _)
    · exact (hx b hb).trans (max_le_max hle le_rfl)
  · intro a ha b hb
    exact hcross' a (List.mem_append.2 (Or.inr ha)) b (List.mem_cons.2 (Or.inr hb))
  · intro a ha b hb
    rcases List.mem_cons.1 hb with rfl | hb
    · -- the nearest entry that was not overtaken is above the moved one, and below the rest
      cases above with
      | nil => simp at ha
      | cons c above =>
        have hc : b.progress ≤ c.progress := hhead c (by simp)
        rw [List.reverse_cons] at ha habove
        rcases List.mem_append.1 ha with ha | ha
        · have hac := (List.pairwise_append.1 habove).2.2 a ha c (by simp)
          exact hc.trans hac
        · rw [List.mem_singleton.1 ha]
          exact hc.trans (le_max_left _ _)
    · rcases List.mem_append.1 hb with hb | hb
      · exact hcross a ha b hb
      · exact hcross' a (List.mem_append.2 (Or.inl ha)) b (List.mem_cons.2 (Or.inr hb))

end

theorem take_append_cons {α : Type} (before : List α) (x : α) (behind : List α) {n : Nat}
    (h : before.length < n) : (before ++ x :: behind).take n =
      before ++ x :: behind.take (n - before.length - 1) := by
  have hn : n - before.length = (n - before.length - 1) + 1 := by omega
  rw [List.take_append, List.take_of_length_le h.le, hn, List.take_succ_cons]
  simp

omit [DecidableEq NID] in
/-- A value found by `raiseLoop` has been reached by a quorum. -/
theorem reached_raiseLoop {m : QS} {qa : P}
    {first rest : List (ProgressItem NID P A)} (others : List (ProgressItem NID P A))
    (hsorted : SortedAbove qa (first ++ rest))
    (hnodup : ((first ++ rest ++ others).map (·.id)).Nodup)
    (hreached : Reached m qa (first ++ rest ++ others)) :
    Reached m (raiseLoop m qa (first.map (·.id)) rest) (first ++ rest ++ others) ∧
      qa ≤ raiseLoop m qa (first.map (·.id)) rest := by
  rcases raiseLoop_spec m qa (first.map (·.id)) rest with h | ⟨pre, y, suf, hrest, hval, hy, hq⟩
  · rw [h]
    exact ⟨hreached, le_rfl⟩
  · rw [hval]
    refine ⟨Or.inr ⟨_, ?_, hq, ?_⟩, hy.le⟩
    · refine hnodup.sublist ?_
      rw [hrest, ← List.map_append]
      refine List.Sublist.map _ ?_
      have hsub : (first ++ (pre ++ [y])).Sublist (first ++ (pre ++ y :: suf)) := by
        refine List.Sublist.append_left (List.Sublist.append_left ?_ pre) first
        simp
      exact hsub.trans (List.sublist_append_left _ _)
    · intro id hid
      rw [← List.map_append, List.mem_map] at hid
      obtain ⟨item, hitem, rfl⟩ := hid
      refine ⟨item, ?_, rfl, ?_⟩
      · rw [hrest]
        simp only [List.mem_append, List.mem_cons, List.not_mem_nil, or_false] at hitem ⊢
        tauto
      · -- every entry before `y` is at or above it, because `y` is above `qa`
        rw [hrest, ← List.append_assoc] at hsorted
        have hbefore := (List.pairwise_append.1 hsorted).2.2
        have hcase : item ∈ first ++ pre ∨ item = y := by
          simp only [List.mem_append, List.mem_cons, List.not_mem_nil, or_false] at hitem ⊢
          tauto
        rcases hcase with hmem | rfl
        · rcases le_max_iff.1 (hbefore item hmem y (by simp)) with h | h
          · exact h
          · exact absurd hy (not_lt.2 h)
        · exact le_rfl

omit [DecidableEq NID] [Inhabited P] in
/-- What `update_at` does to a voter that is not lowered: it stays or moves before a run of
    voters right before it, and the walk starts at its place. -/
theorem updateAt_voters {p : VecProgress NID QS P A} {before behind : List (ProgressItem NID P A)}
    {x x' : ProgressItem NID P A} (he : p.entries = before ++ x :: behind)
    (hv : before.length < p.voterCount) (hsorted : SortedAbove p.quorumAccepted p.voters)
    (hle : x.progress ≤ x'.progress) :
    ∃ p' above run rest, p.updateAt before x' behind x.progress = some p' ∧
      p'.quorumSet = p.quorumSet ∧ p'.voterCount = p.voterCount ∧
      p.voters = above ++ run ++ x :: rest ∧ p'.voters = above ++ x' :: (run ++ rest) ∧
      SortedAbove p.quorumAccepted p'.voters ∧
      p'.quorumAccepted =
        if x.progress ≤ p.quorumAccepted ∧ p.quorumAccepted < x'.progress then
          raiseLoop p.quorumSet p.quorumAccepted (above.map (·.id)) (x' :: (run ++ rest))
        else p.quorumAccepted := by
  have hvoters : p.voters = before ++ x :: behind.take (p.voterCount - before.length - 1) := by
    unfold voters
    rw [he, take_append_cons _ _ _ hv]
  rw [hvoters] at hsorted
  unfold updateAt
  rw [if_neg (not_lt.2 hle)]
  by_cases hsame : x.progress = x'.progress
  · refine ⟨_, before, [], _, if_pos (Or.inl hsame), rfl, rfl, by rw [hvoters]; simp,
      take_append_cons _ _ _ hv, ?_, ?_⟩
    · unfold voters
      dsimp only
      rw [take_append_cons _ _ _ hv]
      exact hsorted.replace hle (Or.inr hsame.symm)
    · rw [if_neg]
      rintro ⟨h, h'⟩
      rw [hsame] at h
      exact absurd h' (not_lt.2 h)
  rw [if_neg (by rintro (h | h); exacts [hsame h, absurd hv (not_lt.2 h)])]
  by_cases hqa : p.quorumAccepted < x'.progress
  · rw [if_pos hqa]
    obtain ⟨run, hrev, hpassed, hrun, hhead⟩ := moveUpLoop_spec x' before.reverse []
    rw [List.reverse_reverse] at hrev
    simp only [hpassed, List.append_nil]
    generalize (moveUpLoop x' before.reverse []).1 = above at *
    subst hrev
    generalize hk : p.voterCount - (above.reverse ++ run).length - 1 = k at hsorted hvoters
    have htake : (above.reverse ++ x' :: (run ++ behind)).take p.voterCount =
        above.reverse ++ x' :: (run ++ behind.take k) := by
      rw [List.length_append, List.length_reverse] at hv hk
      rw [take_append_cons _ _ _ (by rw [List.length_reverse]; omega), List.take_append,
        List.length_reverse, List.take_of_length_le (by omega)]
      congr 4
      omega
    have hdrop : (above.reverse ++ x' :: (run ++ behind.take k)).drop above.length =
        x' :: (run ++ behind.take k) := by
      rw [List.drop_append_of_le_length (by simp), List.drop_of_length_le (by simp)]
      rfl
    have hsorted' := hsorted.moveUp hle hrun hhead
    by_cases hprev : x.progress ≤ p.quorumAccepted
    · rw [if_pos hprev]
      refine ⟨_, above.reverse, run, behind.take k, rfl, rfl, rfl, hvoters, htake, ?_, ?_⟩
      · unfold voters
        rw [htake]
        exact hsorted'
      · rw [htake, hdrop, if_pos ⟨hprev, hqa⟩]
    · rw [if_neg hprev]
      refine ⟨_, above.reverse, run, behind.take k, rfl, rfl, rfl, hvoters, htake, ?_,
        (if_neg fun h => hprev h.1).symm⟩
      unfold voters
      rw [htake]
      exact hsorted'
  · rw [if_neg hqa]
    refine ⟨_, before, [], _, rfl, rfl, rfl, by rw [hvoters]; simp,
      take_append_cons _ _ _ hv, ?_, (if_neg fun h => hqa h.2).symm⟩
    unfold voters
    dsimp only
    rw [take_append_cons _ _ _ hv]
    exact hsorted.replace hle (Or.inl (not_lt.1 hqa))

omit [Inhabited P] [DecidableEq NID] in
/-- `update_at` rearranges the entries. -/
theorem updateAt_perm {p p' : VecProgress NID QS P A} {before behind : List (ProgressItem NID P A)}
    {x : ProgressItem NID P A} {prev : P} (hu : p.updateAt before x behind prev = some p') :
    p'.entries.Perm (before ++ x :: behind) := by
  unfold updateAt at hu
  split at hu
  · cases hu
  split at hu
  · obtain rfl := Option.some.inj hu
    exact List.Perm.refl _
  split at hu
  · obtain ⟨run, hrev, hpassed, -, -⟩ := moveUpLoop_spec x before.reverse []
    rw [List.reverse_reverse] at hrev
    have hperm : ((moveUpLoop x before.reverse []).1.reverse ++
        x :: ((moveUpLoop x before.reverse []).2 ++ behind)).Perm (before ++ x :: behind) := by
      rw [hpassed, List.append_nil]
      conv_rhs => rw [hrev, List.append_assoc]
      exact List.Perm.append_left _ List.perm_middle.symm
    dsimp only at hu
    split at hu
    · obtain rfl := Option.some.inj hu
      exact hperm
    · obtain rfl := Option.some.inj hu
      exact hperm
  · obtain rfl := Option.some.inj hu
    exact List.Perm.refl _

omit [DecidableEq NID] in
/-- `update_at` keeps the invariant, rearranges the entries and never lowers
    `quorum_accepted`. -/
theorem updateAt_spec {p p' : VecProgress NID QS P A} {before behind : List (ProgressItem NID P A)}
    {x x' : ProgressItem NID P A} (h : p.Sound) (he : p.entries = before ++ x :: behind)
    (hid : x'.id = x.id) (hu : p.updateAt before x' behind x.progress = some p') :
    p'.Sound ∧ p'.entries.Perm (before ++ x' :: behind) ∧ p'.quorumSet = p.quorumSet ∧
      p'.voterCount = p.voterCount ∧ x.progress ≤ x'.progress := by
  have hperm := updateAt_perm hu
  have hle : x.progress ≤ x'.progress := by
    by_contra hlt
    unfold updateAt at hu
    rw [if_pos (not_le.1 hlt)] at hu
    cases hu
  have hnodup : (p'.entries.map (·.id)).Nodup := by
    have hnd := h.nodup
    rw [he] at hnd
    refine (hperm.map _).nodup_iff.2 ?_
    simpa [hid] using hnd
  have hreached : Reached p.quorumSet p.quorumAccepted p'.entries := by
    have hold := h.reached
    rw [he] at hold
    exact hold.raise hid hle hperm
  by_cases hv : before.length < p.voterCount
  · obtain ⟨q, above, run, rest, hq, hset, hcount, -, hvoters, hsorted, hqa⟩ :=
      updateAt_voters he hv h.sorted hle
    obtain rfl : q = p' := Option.some.inj (hq.symm.trans hu)
    have hsplit : q.entries = above ++ x' :: (run ++ rest) ++ q.entries.drop q.voterCount := by
      rw [← hvoters]
      exact (List.take_append_drop _ _).symm
    have hraise : Reached p.quorumSet q.quorumAccepted q.entries ∧
        p.quorumAccepted ≤ q.quorumAccepted := by
      rw [hqa]
      split
      · rw [hvoters] at hsorted
        rw [hsplit] at hnodup hreached ⊢
        exact reached_raiseLoop _ hsorted hnodup hreached
      · exact ⟨hreached, le_rfl⟩
    exact ⟨⟨hnodup, hsorted.mono hraise.2, hset ▸ hraise.1⟩, hperm, hset, hcount, hle⟩
  · -- a learner changes in place
    unfold updateAt at hu
    rw [if_neg (not_lt.2 hle), if_pos (Or.inr (not_lt.1 hv))] at hu
    obtain rfl := Option.some.inj hu
    refine ⟨⟨hnodup, ?_, hreached⟩, hperm, rfl, rfl, hle⟩
    have hsorted := h.sorted
    unfold voters at hsorted ⊢
    rw [he, List.take_append_of_le_length (not_lt.1 hv)] at hsorted
    rw [List.take_append_of_le_length (not_lt.1 hv)]
    exact hsorted

omit [LinearOrder P] [Inhabited P] in
/-- The entry with a given id, with the entries before and behind it. -/
theorem span_id (entries : List (ProgressItem NID P A)) (id : NID) :
    (∃ before, entries.span (fun item => decide (item.id ≠ id)) = (before, []) ∧
      ∀ item ∈ entries, item.id ≠ id) ∨
    ∃ before x behind, entries.span (fun item => decide (item.id ≠ id)) = (before, x :: behind) ∧
      entries = before ++ x :: behind ∧ x.id = id := by
  rw [List.span_eq_takeWhile_dropWhile]
  cases hd : entries.dropWhile (fun item => decide (item.id ≠ id)) with
  | nil =>
    refine Or.inl ⟨_, rfl, ?_⟩
    intro item hmem
    have := List.dropWhile_eq_nil_iff.1 hd item hmem
    simpa using this
  | cons x behind =>
    refine Or.inr ⟨_, x, behind, rfl, ?_, ?_⟩
    · rw [← hd, List.takeWhile_append_dropWhile]
    · have := List.head?_dropWhile_not (fun item : ProgressItem NID P A => decide (item.id ≠ id))
        entries
      rw [hd] at this
      simpa using this

omit [LinearOrder P] [Inhabited P] [QuorumSet QS NID] in
/-- `update_entry_with` and `reset_entry_with` change the entry that `try_get` returns. -/
theorem entries_of_span {p : VecProgress NID QS P A} {id : NID} {x : ProgressItem NID P A}
    {before behind : List (ProgressItem NID P A)}
    (hspan : p.entries.span (fun item => decide (item.id ≠ id)) = (before, x :: behind)) :
    p.entries = before ++ x :: behind ∧ p.tryGet id = some x := by
  rw [List.span_eq_takeWhile_dropWhile] at hspan
  obtain ⟨hbefore, hx⟩ := Prod.mk.inj hspan
  have hhead := List.head?_dropWhile_not (fun item : ProgressItem NID P A => decide (item.id ≠ id))
    p.entries
  rw [hx] at hhead
  have hid : x.id = id := by simpa using hhead
  have hnone : before.find? (fun item => decide (item.id = id)) = none := by
    rw [List.find?_eq_none, ← hbefore]
    intro y hy
    have := List.mem_takeWhile_imp hy
    simpa using this
  have he : p.entries = before ++ x :: behind := by
    rw [← hbefore, ← hx, List.takeWhile_append_dropWhile]
  refine ⟨he, ?_⟩
  unfold tryGet
  rw [he, List.find?_append, hnone, Option.none_or, List.find?_cons_of_pos (by simp [hid])]

/-- The entries with the one of `id` changed by `f`. -/
def mapEntry (entries : List (ProgressItem NID P A)) (id : NID)
    (f : ProgressItem NID P A → ProgressItem NID P A) : List (ProgressItem NID P A) :=
  entries.map fun x => if x.id = id then f x else x

omit [LinearOrder P] [Inhabited P] in
theorem mapEntry_of_ne {entries : List (ProgressItem NID P A)} {id : NID}
    (h : ∀ x ∈ entries, x.id ≠ id) (f : ProgressItem NID P A → ProgressItem NID P A) :
    mapEntry entries id f = entries := by
  unfold mapEntry
  conv_rhs => rw [← List.map_id entries]
  refine List.map_congr_left ?_
  intro x hx
  simp [h x hx]

omit [LinearOrder P] [Inhabited P] in
/-- Ids are distinct, so that one entry changes only. -/
theorem mapEntry_eq {before behind : List (ProgressItem NID P A)} {x : ProgressItem NID P A}
    (hnd : ((before ++ x :: behind).map (·.id)).Nodup)
    (f : ProgressItem NID P A → ProgressItem NID P A) :
    mapEntry (before ++ x :: behind) x.id f = before ++ f x :: behind := by
  have hothers : ∀ y ∈ before ++ behind, y.id ≠ x.id := by
    intro y hy hyid
    rw [List.map_append, List.map_cons, List.nodup_middle, List.nodup_cons,
      ← List.map_append] at hnd
    exact hnd.1 (List.mem_map.2 ⟨y, hy, hyid⟩)
  have hb := mapEntry_of_ne (fun y hy => hothers y (List.mem_append.2 (Or.inl hy))) f
  have hb' := mapEntry_of_ne (fun y hy => hothers y (List.mem_append.2 (Or.inr hy))) f
  unfold mapEntry at *
  rw [List.map_append, List.map_cons, hb, hb', if_pos rfl]

/-- `update_entry_with` keeps the invariant and changes the entry of `id` by `f`. -/
theorem updateEntryWith_spec {p p' : VecProgress NID QS P A} {id : NID} {found : Bool}
    {f : ProgressItem NID P A → ProgressItem NID P A} (h : p.Sound)
    (hf : ∀ x, x.id = id → (f x).id = id)
    (hu : p.updateEntryWith id f = some (found, p')) :
    p'.Sound ∧ p'.quorumSet = p.quorumSet ∧ p'.voterCount = p.voterCount ∧
      p'.entries.Perm (mapEntry p.entries id f) := by
  unfold updateEntryWith at hu
  rcases span_id p.entries id with ⟨b, hspan, hne⟩ | ⟨before, x, behind, hspan, he, rfl⟩
  · rw [hspan] at hu
    simp only [Option.some.injEq, Prod.mk.injEq] at hu
    obtain ⟨-, rfl⟩ := hu
    exact ⟨h, rfl, rfl, by rw [mapEntry_of_ne hne]⟩
  · rw [hspan] at hu
    simp only [Option.map_eq_some_iff, Prod.mk.injEq] at hu
    obtain ⟨q, hq, -, rfl⟩ := hu
    obtain ⟨hsound, hperm, hset, hcount, -⟩ := updateAt_spec h he (hf x rfl) hq
    refine ⟨hsound, hset, hcount, ?_⟩
    rw [he, mapEntry_eq (by rw [← he]; exact h.nodup)]
    exact hperm

omit [LinearOrder P] [Inhabited P] [QuorumSet QS NID] in
theorem updateDataWith_eq {p : VecProgress NID QS P A} (hnd : (p.entries.map (·.id)).Nodup)
    (id : NID) (f : A → A) : p.updateDataWith id f =
      { p with entries := mapEntry p.entries id fun x => { x with data := f x.data } } := by
  unfold updateDataWith
  rcases span_id p.entries id with ⟨b, hspan, hne⟩ | ⟨before, x, behind, hspan, he, rfl⟩
  · rw [mapEntry_of_ne hne, hspan]
  · rw [hspan]
    dsimp only
    rw [he] at hnd ⊢
    rw [mapEntry_eq hnd]

omit [LinearOrder P] [Inhabited P] [QuorumSet QS NID] in
theorem updateDataWith_perm {p : VecProgress NID QS P A} (hnd : (p.entries.map (·.id)).Nodup)
    (id : NID) (f : A → A) : (p.updateDataWith id f).entries.Perm
      (mapEntry p.entries id fun x => { x with data := f x.data }) := by
  rw [updateDataWith_eq hnd]

omit [DecidableEq NID] [Inhabited P] in
theorem moveDownLoop_perm (x : ProgressItem NID P A) (behind : List (ProgressItem NID P A)) :
    (moveDownLoop x behind).Perm (x :: behind) := by
  induction behind with
  | nil => exact List.Perm.refl _
  | cons a behind ih =>
    unfold moveDownLoop
    split
    · exact (ih.cons a).trans (List.Perm.swap x a behind)
    · exact List.Perm.refl _

section

omit [Inhabited P]

/-- `update_entry_with` changes the entry of `id` by `f`, and the order of the entries. -/
theorem updateEntryWith_perm {p p' : VecProgress NID QS P A} {id : NID} {found : Bool}
    {f : ProgressItem NID P A → ProgressItem NID P A} (hnd : (p.entries.map (·.id)).Nodup)
    (hu : p.updateEntryWith id f = some (found, p')) :
    p'.entries.Perm (mapEntry p.entries id f) := by
  unfold updateEntryWith at hu
  rcases span_id p.entries id with ⟨b, hspan, hne⟩ | ⟨before, x, behind, hspan, he, rfl⟩
  · rw [hspan] at hu
    simp only [Option.some.injEq, Prod.mk.injEq] at hu
    rw [mapEntry_of_ne hne, hu.2]
  · rw [hspan] at hu
    simp only [Option.map_eq_some_iff, Prod.mk.injEq] at hu
    obtain ⟨q, hq, -, rfl⟩ := hu
    rw [he, mapEntry_eq (by rw [← he]; exact hnd)]
    exact updateAt_perm hq

theorem updateEntryWith_not_found {p p' : VecProgress NID QS P A} {id : NID}
    {f : ProgressItem NID P A → ProgressItem NID P A}
    (hu : p.updateEntryWith id f = some (false, p')) : p' = p := by
  unfold updateEntryWith at hu
  split at hu
  · simp only [Option.some.injEq, Prod.mk.injEq] at hu
    exact hu.2.symm
  · simp at hu

theorem tryGet_of_not_found {p p' : VecProgress NID QS P A} {id : NID}
    {f : ProgressItem NID P A → ProgressItem NID P A}
    (hu : p.updateEntryWith id f = some (false, p')) : p.tryGet id = none := by
  unfold updateEntryWith at hu
  rcases span_id p.entries id with ⟨-, -, hne⟩ | ⟨before, x, behind, hspan, -, -⟩
  · unfold tryGet
    rw [List.find?_eq_none]
    intro x hx
    simpa using hne x hx
  · rw [hspan] at hu
    simp at hu

end

omit [Inhabited P] [QuorumSet QS NID] in
/-- So does `reset_entry_with`. -/
theorem resetEntryWith_perm {p : VecProgress NID QS P A} (hnd : (p.entries.map (·.id)).Nodup)
    (id : NID) (f : ProgressItem NID P A → ProgressItem NID P A) :
    (p.resetEntryWith id f).entries.Perm (mapEntry p.entries id f) := by
  unfold resetEntryWith
  rcases span_id p.entries id with ⟨b, hspan, hne⟩ | ⟨before, x, behind, hspan, he, rfl⟩
  · rw [mapEntry_of_ne hne, hspan]
  · rw [hspan]
    dsimp only
    rw [he, mapEntry_eq (by rw [← he]; exact hnd)]
    split
    · refine List.Perm.append_left _ ?_
      have hsplit := List.take_append_drop (p.voterCount - before.length - 1) behind
      conv_rhs => rw [← hsplit]
      exact (moveDownLoop_perm (f x) _).append_right _
    · exact List.Perm.refl _

section

omit [LinearOrder P] [Inhabited P] [QuorumSet QS NID]

theorem tryGet_id {p : VecProgress NID QS P A} {id : NID} {x : ProgressItem NID P A}
    (h : p.tryGet id = some x) : x.id = id := by
  unfold tryGet at h
  have hid := List.find?_some h
  exact of_decide_eq_true hid

/-- Ids are distinct, so that an entry is found by its id. -/
theorem tryGet_eq_some {p : VecProgress NID QS P A} (hnd : (p.entries.map (·.id)).Nodup) {id : NID}
    {x : ProgressItem NID P A} : p.tryGet id = some x ↔ x ∈ p.entries ∧ x.id = id := by
  unfold tryGet
  constructor
  · intro h
    exact ⟨List.mem_of_find?_eq_some h, tryGet_id h⟩
  · rintro ⟨hmem, rfl⟩
    obtain ⟨before, behind, he⟩ := List.append_of_mem hmem
    rw [he] at hnd ⊢
    rw [List.map_append, List.map_cons, List.nodup_append] at hnd
    have hbefore : before.find? (fun item => decide (item.id = x.id)) = none := by
      rw [List.find?_eq_none]
      intro y hy hyx
      exact hnd.2.2 _ (List.mem_map.2 ⟨y, hy, rfl⟩) _ List.mem_cons_self (of_decide_eq_true hyx)
    rw [List.find?_append, hbefore, Option.none_or, List.find?_cons_of_pos (by simp)]

/-- What is found after the entry of `id` was changed by `f`. -/
theorem tryGet_of_perm {p p' : VecProgress NID QS P A} {id : NID}
    {f : ProgressItem NID P A → ProgressItem NID P A} (hnd : (p.entries.map (·.id)).Nodup)
    (hf : ∀ x, (f x).id = x.id) (hperm : p'.entries.Perm (mapEntry p.entries id f)) :
    (p'.entries.map (·.id)).Nodup ∧ ∀ i x, p.tryGet i = some x →
      p'.tryGet i = some (if i = id then f x else x) := by
  have hids : (mapEntry p.entries id f).map (·.id) = p.entries.map (·.id) := by
    unfold mapEntry
    rw [List.map_map]
    refine List.map_congr_left fun x _ => ?_
    simp only [Function.comp_apply]
    split
    · exact hf x
    · rfl
  have hnd' : (p'.entries.map (·.id)).Nodup := by
    rw [(hperm.map _).nodup_iff, hids]
    exact hnd
  refine ⟨hnd', ?_⟩
  intro i x hx
  obtain ⟨hmem, rfl⟩ := (tryGet_eq_some hnd).1 hx
  refine (tryGet_eq_some hnd').2 ⟨?_, ?_⟩
  · rw [hperm.mem_iff]
    exact List.mem_map.2 ⟨x, hmem, rfl⟩
  · split
    · exact hf x
    · rfl

end

omit [DecidableEq NID] in
theorem new_sound {quorumSet : QS} {learnerIds : List NID}
    {defaultEntry : NID → ProgressItem NID P A}
    (hnd : (QuorumSet.ids quorumSet ++ learnerIds).Nodup)
    (hid : ∀ id, (defaultEntry id).id = id)
    (hprog : ∀ id, (defaultEntry id).progress = default) :
    (new quorumSet learnerIds defaultEntry).Sound := by
  refine ⟨?_, ?_, Or.inl rfl⟩
  · have : (new quorumSet learnerIds defaultEntry).entries.map (·.id) =
        QuorumSet.ids quorumSet ++ learnerIds := by
      unfold new
      dsimp only
      rw [List.map_map]
      conv_rhs => rw [← List.map_id (QuorumSet.ids quorumSet ++ learnerIds)]
      exact List.map_congr_left fun id _ => hid id
    rw [this]
    exact hnd
  · unfold SortedAbove voters new
    dsimp only
    rw [← List.map_take, List.pairwise_map]
    exact List.pairwise_iff_forall_sublist.2 fun _ => by simp [hprog]

omit [Inhabited P] [DecidableEq NID] in
/-- A new `quorum_accepted` is the progress of some entry. -/
theorem updateAt_quorumAccepted {p p' : VecProgress NID QS P A}
    {before behind : List (ProgressItem NID P A)} {x : ProgressItem NID P A} {prev : P}
    (hu : p.updateAt before x behind prev = some p') : p'.quorumAccepted = p.quorumAccepted ∨
      ∃ y ∈ p'.entries, p'.quorumAccepted = y.progress := by
  unfold updateAt at hu
  split at hu
  · cases hu
  split at hu
  · obtain rfl := Option.some.inj hu
    exact Or.inl rfl
  split at hu
  · dsimp only at hu
    split at hu
    · obtain rfl := Option.some.inj hu
      rcases raiseLoop_spec p.quorumSet p.quorumAccepted
          ((moveUpLoop x before.reverse []).1.reverse.map (·.id))
          ((((moveUpLoop x before.reverse []).1.reverse ++
            x :: ((moveUpLoop x before.reverse []).2 ++ behind)).take p.voterCount).drop
              (moveUpLoop x before.reverse []).1.length) with hsame | ⟨pre, y, suf, hrest, hval, -⟩
      · exact Or.inl hsame
      · refine Or.inr ⟨y, ?_, hval⟩
        have hy : y ∈ pre ++ y :: suf := by simp
        rw [← hrest] at hy
        exact List.mem_of_mem_take (List.mem_of_mem_drop hy)
    · obtain rfl := Option.some.inj hu
      exact Or.inl rfl
  · obtain rfl := Option.some.inj hu
    exact Or.inl rfl

omit [Inhabited P] in
theorem updateEntryWith_quorumAccepted {p p' : VecProgress NID QS P A} {id : NID} {found : Bool}
    {f : ProgressItem NID P A → ProgressItem NID P A}
    (hu : p.updateEntryWith id f = some (found, p')) : p'.quorumAccepted = p.quorumAccepted ∨
      ∃ y ∈ p'.entries, p'.quorumAccepted = y.progress := by
  unfold updateEntryWith at hu
  split at hu
  · simp only [Option.some.injEq, Prod.mk.injEq] at hu
    exact Or.inl (by rw [hu.2])
  · simp only [Option.map_eq_some_iff, Prod.mk.injEq] at hu
    obtain ⟨q, hq, -, rfl⟩ := hu
    exact updateAt_quorumAccepted hq

omit [LinearOrder P] [Inhabited P] [QuorumSet QS NID] in
theorem span_replace {before behind : List (ProgressItem NID P A)} {x : ProgressItem NID P A}
    {id : NID} (hbefore : ∀ y ∈ before, y.id ≠ id) (hx : x.id = id) :
    (before ++ x :: behind).span (fun item => decide (item.id ≠ id)) = (before, x :: behind) := by
  have hpos : ∀ y ∈ before, decide (y.id ≠ id) = true := fun y hy => decide_eq_true (hbefore y hy)
  rw [List.span_eq_takeWhile_dropWhile, List.takeWhile_append_of_pos hpos,
    List.dropWhile_append_of_pos hpos, List.takeWhile_cons_of_neg (by simp [hx]),
    List.dropWhile_cons_of_neg (by simp [hx]), List.append_nil]

omit [Inhabited P] in
/-- Changing the data of an entry and then the entry is one change. -/
theorem updateEntryWith_updateDataWith (p : VecProgress NID QS P A) (id : NID) (f : A → A)
    (g : ProgressItem NID P A → ProgressItem NID P A) :
    (p.updateDataWith id f).updateEntryWith id g =
      p.updateEntryWith id (fun x => g { x with data := f x.data }) := by
  rcases hspan : p.entries.span (fun item => decide (item.id ≠ id)) with ⟨before, _ | ⟨x, behind⟩⟩
  · have hdata : p.updateDataWith id f = p := by
      unfold updateDataWith
      rw [hspan]
    rw [hdata]
    unfold updateEntryWith
    rw [hspan]
  · have hdata : p.updateDataWith id f =
        { p with entries := before ++ { x with data := f x.data } :: behind } := by
      unfold updateDataWith
      rw [hspan]
    have hbefore : ∀ y ∈ before, y.id ≠ id := by
      intro y hy
      rw [List.span_eq_takeWhile_dropWhile] at hspan
      rw [← (Prod.mk.inj hspan).1] at hy
      simpa using List.mem_takeWhile_imp hy
    have hid : x.id = id := by
      have hget := (entries_of_span hspan).2
      have hx := List.find?_some hget
      exact of_decide_eq_true hx
    rw [hdata]
    unfold updateEntryWith
    dsimp only
    rw [hspan, span_replace (x := ⟨x.id, x.progress, f x.data⟩) hbefore hid]
    rfl

/-! ### Facts about every entry -/

/-- Every entry is in `I`, and `quorum_accepted` is in `R`. -/
structure Each (I : ProgressItem NID P A → Prop) (R : P → Prop) (p : VecProgress NID QS P A) :
    Prop where
  entries : ∀ x ∈ p.entries, I x
  accepted : R p.quorumAccepted

omit [DecidableEq NID] [LinearOrder P] [Inhabited P] [QuorumSet QS NID] in
theorem Each.imp {I I' : ProgressItem NID P A → Prop} {R R' : P → Prop}
    {p : VecProgress NID QS P A} (h : p.Each I R) (hI : ∀ x, I x → I' x) (hR : ∀ a, R a → R' a) :
    p.Each I' R' :=
  ⟨fun x hx => hI x (h.entries x hx), hR _ h.accepted⟩

omit [Inhabited P] in
/-- The entry that is changed stays in `I`, and what is in `I` has its progress in `R`. -/
theorem Each.updateEntryWith {I : ProgressItem NID P A → Prop} {R : P → Prop}
    {p p' : VecProgress NID QS P A} {id : NID} {found : Bool}
    {f : ProgressItem NID P A → ProgressItem NID P A} (h : p.Each I R)
    (hR : ∀ x, I x → R x.progress) (hf : ∀ x, p.tryGet id = some x → I x → I (f x))
    (hu : p.updateEntryWith id f = some (found, p')) : p'.Each I R := by
  have hentries : ∀ x ∈ p'.entries, I x := by
    unfold VecProgress.updateEntryWith at hu
    rcases hspan : p.entries.span (fun item => decide (item.id ≠ id)) with
      ⟨before, _ | ⟨x, behind⟩⟩
    · rw [hspan] at hu
      simp only [Option.some.injEq, Prod.mk.injEq] at hu
      rw [← hu.2]
      exact h.entries
    · rw [hspan] at hu
      simp only [Option.map_eq_some_iff, Prod.mk.injEq] at hu
      obtain ⟨q, hq, -, rfl⟩ := hu
      obtain ⟨he, hget⟩ := entries_of_span hspan
      intro y hy
      rw [(updateAt_perm hq).mem_iff, List.mem_append, List.mem_cons] at hy
      rcases hy with hy | rfl | hy
      · exact h.entries y (by rw [he]; simp [hy])
      · exact hf x hget (h.entries x (by rw [he]; simp))
      · exact h.entries y (by rw [he]; simp [hy])
  refine ⟨hentries, ?_⟩
  rcases updateEntryWith_quorumAccepted hu with hsame | ⟨y, hy, hval⟩
  · rw [hsame]
    exact h.accepted
  · rw [hval]
    exact hR y (hentries y hy)

omit [Inhabited P] [QuorumSet QS NID] in
theorem Each.resetEntryWith {I : ProgressItem NID P A → Prop} {R : P → Prop}
    {p : VecProgress NID QS P A} {id : NID} {f : ProgressItem NID P A → ProgressItem NID P A}
    (h : p.Each I R) (hf : ∀ x, p.tryGet id = some x → I x → I (f x)) :
    (p.resetEntryWith id f).Each I R := by
  unfold VecProgress.resetEntryWith
  rcases hspan : p.entries.span (fun item => decide (item.id ≠ id)) with ⟨before, _ | ⟨x, behind⟩⟩
  · rw [hspan]
    exact h
  · rw [hspan]
    obtain ⟨he, hget⟩ := entries_of_span hspan
    have hx : I (f x) := hf x hget (h.entries x (by rw [he]; simp))
    have hothers : ∀ y, y ∈ before ∨ y = f x ∨ y ∈ behind → I y := by
      rintro y (hy | rfl | hy)
      · exact h.entries y (by rw [he]; simp [hy])
      · exact hx
      · exact h.entries y (by rw [he]; simp [hy])
    dsimp only
    split
    · refine ⟨fun y hy => hothers y ?_, h.accepted⟩
      rw [List.mem_append, List.mem_append, (moveDownLoop_perm _ _).mem_iff, List.mem_cons] at hy
      rcases hy with hy | (hy | hy) | hy
      · exact Or.inl hy
      · exact Or.inr (Or.inl hy)
      · exact Or.inr (Or.inr (List.mem_of_mem_take hy))
      · exact Or.inr (Or.inr (List.mem_of_mem_drop hy))
    · refine ⟨fun y hy => hothers y ?_, h.accepted⟩
      simpa using hy

omit [LinearOrder P] [Inhabited P] [QuorumSet QS NID] in
theorem Each.updateDataWith {I : ProgressItem NID P A → Prop} {R : P → Prop}
    {p : VecProgress NID QS P A} {id : NID} {f : A → A} (h : p.Each I R)
    (hf : ∀ x, p.tryGet id = some x → I x → I { x with data := f x.data }) :
    (p.updateDataWith id f).Each I R := by
  unfold VecProgress.updateDataWith
  rcases hspan : p.entries.span (fun item => decide (item.id ≠ id)) with ⟨before, _ | ⟨x, behind⟩⟩
  · rw [hspan]
    exact h
  · rw [hspan]
    obtain ⟨he, hget⟩ := entries_of_span hspan
    refine ⟨fun y hy => ?_, h.accepted⟩
    have hy : y ∈ before ∨ y = { x with data := f x.data } ∨ y ∈ behind := by simpa using hy
    rcases hy with hy | rfl | hy
    · exact h.entries y (by rw [he]; simp [hy])
    · exact hf x hget (h.entries x (by rw [he]; simp))
    · exact h.entries y (by rw [he]; simp [hy])

omit [Inhabited P] in
theorem Each.replaceLoop {I : ProgressItem NID P A → Prop} {R : P → Prop}
    {p p' : VecProgress NID QS P A} {old : List (ProgressItem NID P A)} (h : p.Each I R)
    (hR : ∀ x, I x → R x.progress) (hold : ∀ x ∈ old, I x) (hu : p.replaceLoop old = some p') :
    p'.Each I R := by
  induction old generalizing p with
  | nil =>
    obtain rfl := Option.some.inj hu
    exact h
  | cons y old ih =>
    simp only [VecProgress.replaceLoop, Option.bind_eq_some_iff] at hu
    obtain ⟨⟨found, q⟩, hq, hrest⟩ := hu
    exact ih (h.updateEntryWith hR (fun _ _ _ => hold y (by simp)) hq)
      (fun x hx => hold x (by simp [hx])) hrest

theorem Each.upgradeQuorumSet {I : ProgressItem NID P A → Prop} {R : P → Prop}
    {p : VecProgress NID QS P A} {quorumSet : QS} {learnerIds : List NID}
    {defaultEntry : NID → ProgressItem NID P A} (h : p.Each I R) (hR : ∀ x, I x → R x.progress)
    (hdefault : ∀ id, I (defaultEntry id)) (hinit : R default) :
    ((p.upgradeQuorumSet quorumSet learnerIds defaultEntry).getD p).Each I R := by
  have hnew : (new quorumSet learnerIds defaultEntry).Each I R := by
    refine ⟨fun x hx => ?_, hinit⟩
    obtain ⟨id, -, rfl⟩ := List.mem_map.1 hx
    exact hdefault id
  cases hu : p.upgradeQuorumSet quorumSet learnerIds defaultEntry with
  | none => exact h
  | some p' => exact hnew.replaceLoop hR h.entries hu

/-- The progress without the data that goes along with it. -/
def strip (p : VecProgress NID QS P A) : VecProgress NID QS P Unit :=
  { p with entries := p.entries.map fun x => ⟨x.id, x.progress, ()⟩ }

omit [DecidableEq NID] [LinearOrder P] [Inhabited P] [QuorumSet QS NID] in
theorem each_strip {I : ProgressItem NID P Unit → Prop} {R : P → Prop}
    {p : VecProgress NID QS P A} :
    p.strip.Each I R ↔ p.Each (fun x => I ⟨x.id, x.progress, ()⟩) R := by
  constructor
  · intro h
    exact ⟨fun x hx => h.entries _ (List.mem_map.2 ⟨x, hx, rfl⟩), h.accepted⟩
  · intro h
    refine ⟨fun x hx => ?_, h.accepted⟩
    obtain ⟨y, hy, rfl⟩ := List.mem_map.1 hx
    exact h.entries y hy

end VecProgress

end ZenohRaft
