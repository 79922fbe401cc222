/-
  The memory of an engine and the log that its storage will have.

  `LogMem mode h id X s` says that the state `s` of an engine agrees with the view `X`, the log of
  the node once every command is carried out, and with the history `h`:

  * the log ids are those of the log, and the accepted io is in it and in the log of the leader;
  * what is committed, snapshotted or purged is in the log, in this order;
  * the effective membership is the last one of the log, and the committed one is committed.

  Each handler that writes a log gets one lemma: from `LogMem` before, `LogMem` after, for the view
  that the commands it pushes lead to (`Moves`).
-/
import ZenohRaft.Log.Frame
import ZenohRaft.Log.View

namespace ZenohRaft

open Lib

variable {NID N D : Type} [LinearOrder NID]

/-! ## Memberships of a log -/

omit [LinearOrder NID] in
theorem exists_of_mem_storedMemberships {l : List (Entry NID N D)} {m : StoredMembership NID N}
    (h : m ∈ storedMemberships l) : ∃ ent ∈ l, m.logId = some ent.logId ∧
      ent.payload.getMembership = some m.membership := by
  obtain ⟨ent, hent, hm⟩ := List.mem_filterMap.1 h
  obtain ⟨m', hm', rfl⟩ := Option.map_eq_some_iff.1 hm
  exact ⟨ent, hent, rfl, hm'⟩

namespace MembershipState

variable {ms new : List (StoredMembership NID N)} {s : MembershipState NID N}

/-- The last one of some memberships. -/
def lastOf (ms : List (StoredMembership NID N)) : StoredMembership NID N :=
  ms.getLast?.getD .default

omit [LinearOrder NID] in
theorem lastOf_append (ms : List (StoredMembership NID N)) (m : StoredMembership NID N) :
    lastOf (ms ++ [m]) = m := by
  simp [lastOf]

omit [LinearOrder NID] in
theorem lastOf_mem (h : ms ≠ []) : lastOf ms ∈ ms := by
  rw [lastOf, List.getLast?_eq_some_getLast h, Option.getD_some]
  exact List.getLast_mem h

/-- The effective membership is the last one, and the committed one is it or the one before. -/
structure Tracks (ms : List (StoredMembership NID N)) (s : MembershipState NID N) : Prop where
  effective : s.effective = lastOf ms
  committed : s.committed = lastOf ms ∨ s.committed = lastOf ms.dropLast

section

omit [LinearOrder NID]

theorem Tracks.append (h : Tracks ms s) (m : StoredMembership NID N) :
    Tracks (ms ++ [m]) (s.append m) := by
  refine ⟨(lastOf_append ms m).symm, Or.inr ?_⟩
  rw [List.dropLast_concat]
  exact h.effective

theorem Tracks.foldl_append (h : Tracks ms s) (new : List (StoredMembership NID N)) :
    Tracks (ms ++ new) (new.foldl MembershipState.append s) := by
  induction new generalizing ms s with
  | nil =>
    rw [List.append_nil]
    exact h
  | cons m new ih =>
    have hstep := ih (h.append m)
    rw [List.append_assoc] at hstep
    exact hstep

/-- Only the last two memberships of a request count. -/
theorem foldl_append_lastTwo (new : List (StoredMembership NID N)) (s : MembershipState NID N) :
    (new.drop (new.length - 2)).foldl MembershipState.append s =
      new.foldl MembershipState.append s := by
  induction new generalizing s with
  | nil => rfl
  | cons a new ih =>
    match new, ih with
    | [], _ => rfl
    | [b], _ => rfl
    | b :: c :: rest, ih =>
      have hdrop : (a :: b :: c :: rest).drop ((a :: b :: c :: rest).length - 2) =
          (b :: c :: rest).drop ((b :: c :: rest).length - 2) := by
        simp
      rw [hdrop, ih]
      rfl

end

theorem Tracks.commit (h : Tracks ms s) (c : Option (LogId NID)) : Tracks ms (s.commit c) := by
  unfold MembershipState.commit
  split
  · exact ⟨h.effective, Or.inl h.effective⟩
  · exact h

/-- Two lists of memberships, the second one from an index on. -/
structure SplitAt (n : Nat) (ms1 ms2 : List (StoredMembership NID N)) : Prop where
  before : ∀ m ∈ ms1, nextIndex m.logId ≤ n
  after : ∀ m ∈ ms2, n < nextIndex m.logId

section Split

variable {n : Nat} {ms1 ms2 : List (StoredMembership NID N)}

section

omit [LinearOrder NID]

theorem SplitAt.nextIndex_lastOf (h : SplitAt n ms1 ms2) : nextIndex (lastOf ms1).logId ≤ n := by
  by_cases hms : ms1 = []
  · subst hms
    exact Nat.zero_le _
  · exact h.before _ (lastOf_mem hms)

theorem lastOf_append_of_ne (h : ms2 ≠ []) : lastOf (ms1 ++ ms2) = lastOf ms2 := by
  unfold lastOf
  rw [List.getLast?_append, List.getLast?_eq_some_getLast h]
  rfl

theorem SplitAt.lt_nextIndex_lastOf (h : SplitAt n ms1 ms2) (hms : ms2 ≠ []) :
    n < nextIndex (lastOf (ms1 ++ ms2)).logId := by
  rw [lastOf_append_of_ne hms]
  exact h.after _ (lastOf_mem hms)

/-- A committed membership before the index is the last one there, if another one follows. -/
theorem Tracks.committed_eq (h : Tracks (ms1 ++ ms2) s) (hsplit : SplitAt n ms1 ms2)
    (hms : ms2 ≠ []) (hc : nextIndex s.committed.logId ≤ n) : s.committed = lastOf ms1 := by
  rcases h.committed with hcom | hcom
  · rw [hcom] at hc
    exact absurd (hsplit.lt_nextIndex_lastOf hms) (by omega)
  · rw [List.dropLast_append_of_ne_nil hms] at hcom
    by_cases hdrop : ms2.dropLast = []
    · rw [hdrop, List.append_nil] at hcom
      exact hcom
    · have hsplit' : SplitAt n ms1 ms2.dropLast :=
        ⟨hsplit.before, fun m hm => hsplit.after m (List.dropLast_subset _ hm)⟩
      rw [hcom] at hc
      exact absurd (hsplit'.lt_nextIndex_lastOf hdrop) (by omega)

theorem some_le_optIndex {x : Option (LogId NID)} : some n ≤ optIndex x ↔ n < nextIndex x := by
  cases x with
  | none => simp [optIndex]
  | some x =>
    show some n ≤ some x.index ↔ _
    rw [Option.some_le_some, nextIndex_some]
    exact Nat.lt_succ_iff.symm

theorem Tracks.truncate (h : Tracks (ms1 ++ ms2) s) (hsplit : SplitAt n ms1 ms2)
    (hc : nextIndex s.committed.logId ≤ n) : Tracks ms1 (s.truncate n) := by
  unfold MembershipState.truncate
  by_cases hms : ms2 = []
  · subst hms
    rw [List.append_nil] at h
    have heff := hsplit.nextIndex_lastOf
    rw [if_neg (by rw [some_le_optIndex, h.effective]; omega)]
    exact h
  · have heff := hsplit.lt_nextIndex_lastOf hms
    rw [if_pos (by rw [some_le_optIndex, h.effective]; omega)]
    have hcom := h.committed_eq hsplit hms hc
    exact ⟨hcom, Or.inl hcom⟩

theorem optIndex_le_some {x : Option (LogId NID)} : optIndex x ≤ some n ↔ nextIndex x ≤ n + 1 := by
  cases x with
  | none => simp [optIndex]
  | some x =>
    show some x.index ≤ some n ↔ _
    simp

end

/-- A snapshot that ends in the log does not move the memberships: what it has is the last one
    up to there. -/
theorem Tracks.install (h : Tracks (ms1 ++ ms2) s) (hsplit : SplitAt (n + 1) ms1 ms2)
    (hord : ∀ m ∈ ms1, ∀ m' ∈ ms2, m.logId < m'.logId) :
    Tracks (ms1 ++ ms2) (s.installMembershipSnapshot (lastOf ms1) n) ∧
      ((s.installMembershipSnapshot (lastOf ms1) n).committed = lastOf ms1 ∨
        (s.installMembershipSnapshot (lastOf ms1) n).committed = s.committed) := by
  unfold MembershipState.installMembershipSnapshot
  by_cases hms : ms2 = []
  · subst hms
    rw [List.append_nil] at h ⊢
    have heff := hsplit.nextIndex_lastOf
    rw [if_pos (by rw [h.effective, optIndex_le_some]; exact heff)]
    exact ⟨⟨rfl, Or.inl rfl⟩, Or.inl rfl⟩
  · have heff := hsplit.lt_nextIndex_lastOf hms
    have hm := hsplit.nextIndex_lastOf
    rw [if_neg (by rw [h.effective, optIndex_le_some]; omega)]
    dsimp only
    have hnot : ¬ optIndex s.effective.logId ≤ optIndex (lastOf ms1).logId := by
      intro hle
      rw [h.effective] at hle
      have hn : optIndex (lastOf ms1).logId ≤ some n := optIndex_le_some.2 hm
      have := optIndex_le_some.1 (hle.trans hn)
      omega
    rw [if_neg hnot]
    by_cases hlt : s.committed.logId < (lastOf ms1).logId
    · rw [if_pos hlt]
      -- the committed membership would be before the last one up to the end of the snapshot
      exfalso
      have hcase : ∀ t, (∀ m ∈ t, m ∈ ms2) → s.committed ≠ lastOf (ms1 ++ t) := by
        intro t ht hc
        by_cases htn : t = []
        · rw [htn, List.append_nil] at hc
          rw [hc] at hlt
          exact lt_irrefl _ hlt
        · rw [lastOf_append_of_ne htn] at hc
          by_cases hms1 : ms1 = []
          · rw [hms1] at hlt
            exact absurd hlt (by simp [lastOf, StoredMembership.default])
          · rw [hc] at hlt
            exact lt_asymm hlt (hord _ (lastOf_mem hms1) _ (ht _ (lastOf_mem htn)))
      rcases h.committed with hc | hc
      · exact hcase ms2 (fun _ hm => hm) hc
      · rw [List.dropLast_append_of_ne_nil hms] at hc
        exact hcase ms2.dropLast (fun _ hm => List.dropLast_subset _ hm) hc
    · rw [if_neg hlt]
      exact ⟨⟨h.effective, h.committed⟩, Or.inr rfl⟩

end Split

end MembershipState

section

omit [LinearOrder NID]

/-- The memberships of a log before and from an index on. -/
theorem splitAt_storedMemberships {l : List (Entry NID N D)} (hl : IndexedFrom 0 l) (n : Nat) :
    MembershipState.SplitAt n (storedMemberships (l.take n)) (storedMemberships (l.drop n)) := by
  refine ⟨?_, ?_⟩
  · intro m hm
    obtain ⟨ent, hent, hid, -⟩ := exists_of_mem_storedMemberships hm
    obtain ⟨i, hi⟩ := List.mem_iff_getElem?.1 hent
    rw [List.getElem?_take] at hi
    split at hi
    · have := hl i ent hi
      rw [hid, nextIndex_some]
      omega
    · cases hi
  · intro m hm
    obtain ⟨ent, hent, hid, -⟩ := exists_of_mem_storedMemberships hm
    obtain ⟨i, hi⟩ := List.mem_iff_getElem?.1 hent
    rw [List.getElem?_drop] at hi
    have := hl _ ent hi
    rw [hid, nextIndex_some]
    omega

theorem holds_lastOf {l : List (Entry NID N D)} (hl : IndexedFrom 0 l)
    {ms : List (StoredMembership NID N)} (hms : ∀ m ∈ ms, m ∈ storedMemberships l) :
    Holds l (MembershipState.lastOf ms).logId := by
  by_cases hnil : ms = []
  · subst hnil
    exact holds_none
  · obtain ⟨ent, hent, hid, -⟩ :=
      exists_of_mem_storedMemberships (hms _ (MembershipState.lastOf_mem hnil))
    rw [hid]
    exact holds_some.2 ((hasId_iff_mem hl).2 ⟨ent, hent, rfl⟩)

theorem storedMemberships_take_drop (l : List (Entry NID N D)) (n : Nat) :
    storedMemberships l = storedMemberships (l.take n) ++ storedMemberships (l.drop n) := by
  rw [← storedMemberships_append, List.take_append_drop]

theorem pairwise_storedMemberships {b : Nat} {l : List (Entry NID N D)} (hl : IndexedFrom b l) :
    (storedMemberships l).Pairwise fun m m' => nextIndex m.logId < nextIndex m'.logId := by
  induction l generalizing b with
  | nil => exact List.Pairwise.nil
  | cons ent l ih =>
    obtain ⟨hent, hl⟩ := indexedFrom_cons.1 hl
    have hrest := ih hl
    unfold storedMemberships at hrest ⊢
    rw [List.filterMap_cons]
    split
    · exact hrest
    · rename_i m hm
      refine List.pairwise_cons.2 ⟨?_, hrest⟩
      intro m' hm'
      obtain ⟨ent', hent', hid', -⟩ := exists_of_mem_storedMemberships hm'
      obtain ⟨_, -, rfl⟩ := Option.map_eq_some_iff.1 hm
      obtain ⟨i, hi⟩ := List.mem_iff_getElem?.1 hent'
      have := hl i ent' hi
      rw [hid', nextIndex_some, nextIndex_some]
      omega

end

omit [LinearOrder NID] in
/-- The last membership is behind every other one. -/
theorem nextIndex_le_lastOf {ms : List (StoredMembership NID N)}
    (hms : ms.Pairwise fun m m' => nextIndex m.logId < nextIndex m'.logId)
    {m : StoredMembership NID N} (hm : m ∈ ms) :
    nextIndex m.logId ≤ nextIndex (MembershipState.lastOf ms).logId := by
  rcases List.eq_nil_or_concat ms with rfl | ⟨ms, last, rfl⟩
  · cases hm
  · rw [List.concat_eq_append] at *
    rw [MembershipState.lastOf_append]
    rcases List.mem_append.1 hm with hm | hm
    · exact ((List.pairwise_append.1 hms).2.2 m hm last (List.mem_singleton_self last)).le
    · rw [List.mem_singleton.1 hm]

theorem Vote.rank_le_of_le {mode : LeaderIdMode} {l l' : LeaderId NID}
    (h : l.toCommitted mode ≤ l'.toCommitted mode) :
    Vote.rank mode ⟨l, true⟩ ≤ Vote.rank mode ⟨l', true⟩ :=
  Prod.Lex.le_iff.2 (h.lt_or_eq.imp id fun heq => ⟨heq, le_rfl⟩)

/-- A membership that another one follows in the log of a leader is committed. -/
theorem History.Sound.com_of_membership_before {mode : LeaderIdMode} {h : History NID N D}
    (hs : h.Sound mode) {V : LeaderId NID} {l : List (Entry NID N D)}
    (hl : l <+: h.log (V.toCommitted mode)) {ms : List (StoredMembership NID N)}
    {m m' : StoredMembership NID N} (hms : storedMemberships l = ms ++ [m']) (hm : m ∈ ms)
    {x : LogId NID} (hx : m.logId = some x) : h.Com mode ⟨V, true⟩ x := by
  have hindexed := (hs.indexed (V.toCommitted mode)).of_le hl
  have hmem : m ∈ storedMemberships l := by
    rw [hms]
    exact List.mem_append_left _ hm
  have hmem' : m' ∈ storedMemberships l := by
    rw [hms]
    simp
  have hlt : nextIndex m.logId < nextIndex m'.logId := by
    have hpair := pairwise_storedMemberships hindexed
    rw [hms] at hpair
    exact (List.pairwise_append.1 hpair).2.2 m hm m' (by simp)
  obtain ⟨ent, hent, hid, hpay⟩ := exists_of_mem_storedMemberships hmem
  obtain ⟨ent', hent', hid', hpay'⟩ := exists_of_mem_storedMemberships hmem'
  have hat : ∀ a ∈ l, (h.log (V.toCommitted mode))[a.logId.index]? = some a := by
    intro a ha
    obtain ⟨i, hi⟩ := List.mem_iff_getElem?.1 ha
    have hidx := hindexed i a hi
    rw [hidx, Nat.zero_add]
    obtain ⟨t, ht⟩ := hl
    rw [← ht, List.getElem?_append_left (List.getElem?_eq_some_iff.1 hi).1]
    exact hi
  rw [hid, hid', nextIndex_some, nextIndex_some] at hlt
  obtain ⟨W, hW, hepoch, hcom⟩ := hs.memb _ _ _ ent ent' (hat ent hent) (hat ent' hent')
    (by omega) (by rw [hpay]; rfl) (by rw [hpay']; rfl)
  have hxid : ent.logId = x := Option.some.inj (hid.symm.trans hx)
  refine ⟨W, hW, ?_, Vote.rank_le_of_le ?_⟩
  · rw [hepoch, ← hxid]
    exact hcom
  · rw [hepoch]
    exact hs.logs.epoch_le _ _ _
      ((hasId_iff_mem (hs.indexed _)).2 ⟨ent', List.mem_of_getElem? (hat ent' hent'), rfl⟩)

/-! ## Agreement with a view -/

/-- The vote that a node holds, given the one it has accepted: a leader that restarts without
    restoring its leadership goes back to its vote before it was granted. -/
def Vote.HeldAs (id : NID) (v held : Vote NID) : Prop :=
  held = v ∨ held = v.toNonCommitted ∧ v.leaderId.nodeId = id

theorem Vote.HeldAs.rank_le {mode : LeaderIdMode} {id : NID} {v held : Vote NID}
    (h : v.HeldAs id held) : held.rank mode ≤ v.rank mode := by
  rcases h with rfl | ⟨rfl, -⟩
  · exact le_rfl
  · refine Prod.Lex.le_iff.2 (Or.inr ⟨rfl, ?_⟩)
    exact Bool.false_le _

/-- The state `s` agrees with the view `X` of a history. -/
structure LogMem (mode : LeaderIdMode) (h : History NID N D) (id : NID) (X : View NID N D)
    (s : RaftState NID N) : Prop where
  vote : X.vote.HeldAs id s.voteRef
  logIds : s.logIds = ⟨X.purged, X.entries.map Entry.logId⟩
  ok : X.OK mode h
  accepted : ∃ a, s.acceptedLogIo = some a ∧ a.toVote = X.vote ∧
    X.submitted.lastLogId ≤ a.lastLogId ∧ (X.io ≠ none → tipId (X.full h) ≤ a.lastLogId) ∧
    Holds (X.full h) a.lastLogId ∧ Holds (h.log (X.vote.leaderId.toCommitted mode)) a.lastLogId
  committed : Holds (X.full h) s.localCommitted
  com : ∀ c, s.localCommitted = some c → h.Com mode X.vote c
  cluster : ∀ io, s.ioState.clusterCommitted = some io →
    Vote.rank mode ⟨io.committedVote, true⟩ ≤ X.vote.rank mode ∧
      ∀ c, io.logId = some c → h.leader io.committedVote ∧
        h.com (io.committedVote.toCommitted mode) c
  snapshot : Holds (X.full h) s.snapshotMeta.lastLogId
  snapshot_le : nextIndex s.snapshotMeta.lastLogId ≤ nextIndex s.localCommitted
  purgeUpto : Holds (X.full h) s.purgeUpto
  purgeUpto_le : nextIndex s.purgeUpto ≤ nextIndex s.snapshotMeta.lastLogId
  purged_le : nextIndex X.purged ≤ nextIndex s.purgeUpto
  membership : MembershipState.Tracks (storedMemberships (X.full h)) s.membershipState
  membership_com : ∀ x, s.membershipState.committed.logId = some x → h.Com mode X.vote x
  building : s.ioState.snapshot.accepted ≤ s.localCommitted

namespace LogMem

variable {mode : LeaderIdMode} {h : History NID N D} {id : NID} {X : View NID N D}
variable {s s' : RaftState NID N} {x y : LogId NID} {i : Nat}

theorem led (hm : LogMem mode h id X s) (hc : s.voteRef.committed = true) :
    h.leader s.voteRef.leaderId := by
  rcases hm.vote with hv | ⟨hv, -⟩
  · rw [hv] at hc ⊢
    exact hm.ok.led hc
  · rw [hv] at hc
    cases hc

theorem purgeUpto_le_committed (hm : LogMem mode h id X s) :
    nextIndex s.purgeUpto ≤ nextIndex s.localCommitted :=
  hm.purgeUpto_le.trans hm.snapshot_le

/-- Only what is committed is purged. -/
theorem purged_le_committed (hm : LogMem mode h id X s) :
    nextIndex X.purged ≤ nextIndex s.localCommitted :=
  hm.purged_le.trans hm.purgeUpto_le_committed

/-- What is scheduled to be purged is committed. -/
theorem com_purgeUpto (hs : h.Sound mode) (hm : LogMem mode h id X s) (hx : s.purgeUpto = some x) :
    h.Com mode X.vote x := by
  have hle := hm.purgeUpto_le_committed
  have hxl := hm.purgeUpto x hx
  cases hc : s.localCommitted with
  | none =>
    rw [hx, hc] at hle
    exact absurd hle (by simp)
  | some c =>
    rw [hx, hc, nextIndex_some, nextIndex_some] at hle
    refine hs.com_below (hm.com c hc) ?_
    rw [← hm.ok.log.take_eq_upTo (hm.committed c hc)]
    exact hasId_take_iff.2 ⟨by omega, hxl⟩

theorem holds_purged (hX : X.OK mode h) : Holds (X.full h) X.purged := by
  intro p hp
  refine At.mono (l := h.upTo X.purged) ?_ (List.prefix_append _ _)
  rw [hp]
  exact History.hasId_upTo (hX.purged p hp)

theorem hasId_entries (hX : X.OK mode h) {ent : Entry NID N D} (hent : ent ∈ X.entries) :
    HasId (X.full h) ent.logId :=
  (hasId_iff_mem hX.log.2).2 ⟨ent, List.mem_append_right _ hent, rfl⟩

/-- An id of the log from the first index on is among the entries. -/
theorem exists_entry (hX : X.OK mode h) (hx : HasId (X.full h) x)
    (hi : nextIndex X.purged ≤ x.index) : ∃ ent ∈ X.entries, ent.logId = x := by
  obtain ⟨ent, hent, hid⟩ := (hasId_iff_getElem? hX.log.2).1 hx
  refine ⟨ent, ?_, hid⟩
  rw [← hX.drop_full, List.mem_iff_getElem?]
  refine ⟨x.index - nextIndex X.purged, ?_⟩
  rw [List.getElem?_drop, Nat.add_sub_cancel' hi]
  exact hent

/-- The ids that the engine finds are those of the log, from the last purged one on. -/
theorem getLogId_eq_some (hm : LogMem mode h id X s) : s.getLogId i = some x ↔
    x.index = i ∧ HasId (X.full h) x ∧ nextIndex X.purged ≤ i + 1 := by
  have hX := hm.ok
  unfold RaftState.getLogId LogIds.refAt
  have hfirst : s.logIds.firstIndex = nextIndex X.purged := by
    rw [hm.logIds]
    rfl
  rw [hfirst]
  by_cases hi : i < nextIndex X.purged
  · rw [if_pos hi, hm.logIds, Option.filter_eq_some_iff, decide_eq_true_eq]
    constructor
    · rintro ⟨hp, hidx⟩
      refine ⟨hidx, holds_purged hX x hp, ?_⟩
      show nextIndex X.purged ≤ i + 1
      rw [show X.purged = some x from hp, nextIndex_some]
      omega
    · rintro ⟨hidx, hx, hle⟩
      refine ⟨?_, hidx⟩
      cases hp : X.purged with
      | none =>
        rw [hp] at hi
        exact absurd hi (Nat.not_lt_zero _)
      | some p =>
        rw [hp, nextIndex_some] at hi hle
        have hpx := (holds_purged hX p hp).eq_of_index hx (by omega)
        rw [hpx]
  · rw [if_neg hi, hm.logIds]
    constructor
    · intro hfind
      have hidx : x.index = i := by simpa using List.find?_some hfind
      obtain ⟨ent, hent, rfl⟩ := List.mem_map.1 (List.mem_of_find?_eq_some hfind)
      exact ⟨hidx, hasId_entries hX hent, by omega⟩
    · rintro ⟨hidx, hx, -⟩
      obtain ⟨ent, hent, hid⟩ := exists_entry hX hx (by omega)
      have hsome : ((X.entries.map Entry.logId).find? fun x => decide (x.index = i)).isSome =
          true := by
        rw [List.find?_isSome]
        exact ⟨x, List.mem_map.2 ⟨ent, hent, hid⟩, decide_eq_true hidx⟩
      obtain ⟨y, hy⟩ := Option.isSome_iff_exists.1 hsome
      have hyidx : y.index = i := by simpa using List.find?_some hy
      obtain ⟨ent', hent', rfl⟩ := List.mem_map.1 (List.mem_of_find?_eq_some hy)
      rw [hy, (hasId_entries hX hent').eq_of_index hx (by omega)]

/-- The last log id is the end of the log. -/
theorem lastLogId_eq (hm : LogMem mode h id X s) : s.lastLogId = tipId (X.full h) := by
  have hX := hm.ok
  unfold RaftState.lastLogId LogIds.last
  rw [hm.logIds]
  show (X.entries.map Entry.logId).getLast?.or X.purged =
    ((h.upTo X.purged ++ X.entries).getLast?).map _
  rw [List.getLast?_append, List.getLast?_map]
  cases hl : X.entries.getLast? with
  | some ent => rfl
  | none =>
    show X.purged = tipId (h.upTo X.purged)
    cases hp : X.purged with
    | none => rfl
    | some p =>
      have hlog := hX.log.of_le (List.prefix_append (h.upTo X.purged) X.entries)
      rw [hp] at hlog
      exact ((tipId_eq_some hlog.2).2
        ⟨History.hasId_upTo (hX.purged p hp), (History.length_upTo (hX.purged p hp)).symm⟩).symm

theorem nextIndex_lastLogId (hm : LogMem mode h id X s) :
    nextIndex s.lastLogId = (X.full h).length := by
  rw [hm.lastLogId_eq, nextIndex_tipId hm.ok.log.2]

/-- What is asked for from `local_committed` on is found if the log has it. -/
theorem prevLogId_eq (hm : LogMem mode h id X s) (hi : nextIndex s.localCommitted ≤ i)
    (hlen : i ≤ (X.full h).length) : nextIndex (s.prevLogId i) = i ∧
      Holds (X.full h) (s.prevLogId i) := by
  unfold RaftState.prevLogId
  by_cases hz : i = 0
  · rw [if_pos hz]
    exact ⟨hz.symm, holds_none⟩
  · rw [if_neg hz]
    obtain ⟨x, hx, hxl⟩ := exists_hasId (l := X.full h) (i := i - 1) (by omega)
    have hpurged := hm.purged_le_committed
    rw [hm.getLogId_eq_some.2 ⟨hx, hxl, by omega⟩]
    refine ⟨?_, holds_some.2 hxl⟩
    rw [nextIndex_some]
    omega

/-! ## States -/

/-- Another io is accepted. -/
theorem of_accepted (hm : LogMem mode h id X s) (hvote : s'.voteRef = s.voteRef)
    (hids : s'.logIds = s.logIds) (hmem : s'.membershipState = s.membershipState)
    (hsnap : s'.snapshotMeta = s.snapshotMeta) (hpurge : s'.purgeUpto = s.purgeUpto)
    (hlc : s'.localCommitted = s.localCommitted)
    (hcc : s'.ioState.clusterCommitted = s.ioState.clusterCommitted)
    (hbuild : s'.ioState.snapshot.accepted = s.ioState.snapshot.accepted)
    (hacc : ∃ a, s'.acceptedLogIo = some a ∧ a.toVote = X.vote ∧
      X.submitted.lastLogId ≤ a.lastLogId ∧ (X.io ≠ none → tipId (X.full h) ≤ a.lastLogId) ∧
      Holds (X.full h) a.lastLogId ∧
      Holds (h.log (X.vote.leaderId.toCommitted mode)) a.lastLogId) :
    LogMem mode h id X s' := by
  refine ⟨hvote ▸ hm.vote, hids ▸ hm.logIds, hm.ok, hacc, hlc ▸ hm.committed, hlc ▸ hm.com,
    hcc ▸ hm.cluster, hsnap ▸ hm.snapshot, ?_, hpurge ▸ hm.purgeUpto, ?_, hpurge ▸ hm.purged_le,
    hmem ▸ hm.membership, hmem ▸ hm.membership_com, ?_⟩
  · rw [hsnap, hlc]
    exact hm.snapshot_le
  · rw [hpurge, hsnap]
    exact hm.purgeUpto_le
  · rw [hbuild, hlc]
    exact hm.building

/-- Nothing but the role has changed. -/
theorem of_sameLog (hm : LogMem mode h id X s) (hs' : s.SameLog s') : LogMem mode h id X s' := by
  refine hm.of_accepted hs'.vote hs'.logIds hs'.membershipState hs'.snapshotMeta
    hs'.purgeUpto ?_ ?_ ?_ ?_
  · exact congrArg (fun io => io.applyProgress.accepted) hs'.ioState
  · rw [hs'.ioState]
  · rw [hs'.ioState]
  · have hacc : s'.acceptedLogIo = s.acceptedLogIo :=
      congrArg (fun io => io.logProgress.accepted) hs'.ioState
    rw [hacc]
    exact hm.accepted

/-- The streams have changed. -/
theorem of_view (hm : LogMem mode h id X s) {X' : View NID N D} (hok : X'.OK mode h)
    (hvote : X'.vote = X.vote) (hpurged : X'.purged = X.purged) (hentries : X'.entries = X.entries)
    (hio : X'.io = X.io) (hsub : X'.submitted = X.submitted) :
    LogMem mode h id X' s := by
  have hfull : X'.full h = X.full h := by
    unfold View.full
    rw [hpurged, hentries]
  refine ⟨?_, ?_, hok, ?_, ?_, ?_, ?_, ?_, hm.snapshot_le, ?_, hm.purgeUpto_le, ?_, ?_, ?_,
    hm.building⟩
  · rw [hvote]
    exact hm.vote
  · rw [hpurged, hentries]
    exact hm.logIds
  · rw [hvote, hio, hsub, hfull]
    exact hm.accepted
  · rw [hfull]
    exact hm.committed
  · rw [hvote]
    exact hm.com
  · rw [hvote]
    exact hm.cluster
  · rw [hfull]
    exact hm.snapshot
  · rw [hfull]
    exact hm.purgeUpto
  · rw [hpurged]
    exact hm.purged_le
  · rw [hfull]
    exact hm.membership
  · rw [hvote]
    exact hm.membership_com

/-- A greater vote is saved. -/
theorem saveVote (hm : LogMem mode h id X s) {v : Vote NID} (hv : X.vote.rank mode ≤ v.rank mode)
    (hled : v.committed = true → h.leader v.leaderId) (hvote : s'.voteRef = v)
    (hids : s'.logIds = s.logIds) (hmem : s'.membershipState = s.membershipState)
    (hsnap : s'.snapshotMeta = s.snapshotMeta) (hpurge : s'.purgeUpto = s.purgeUpto)
    (hlc : s'.localCommitted = s.localCommitted)
    (hcc : s'.ioState.clusterCommitted = s.ioState.clusterCommitted)
    (hbuild : s'.ioState.snapshot = s.ioState.snapshot)
    (hacc : s'.acceptedLogIo = some (.new v)) :
    LogMem mode h id (X.step (.saveVote v)) s' := by
  refine ⟨Or.inl hvote, hids ▸ hm.logIds, hm.ok.saveVote hv hled, ?_, ?_, ?_, ?_, ?_, ?_, ?_,
    ?_, ?_, ?_, ?_, ?_⟩
  · refine ⟨_, hacc, IOId.toVote_new v, le_rfl, fun hio => absurd rfl hio, ?_, ?_⟩
    · rw [IOId.lastLogId_new]
      exact holds_none
    · rw [IOId.lastLogId_new]
      exact holds_none
  · rw [hlc]
    exact hm.committed
  · intro c hc
    rw [hlc] at hc
    exact (hm.com c hc).mono hv
  · intro io hio
    rw [hcc] at hio
    exact ⟨(hm.cluster io hio).1.trans hv, (hm.cluster io hio).2⟩
  · rw [hsnap]
    exact hm.snapshot
  · rw [hsnap, hlc]
    exact hm.snapshot_le
  · rw [hpurge]
    exact hm.purgeUpto
  · rw [hpurge, hsnap]
    exact hm.purgeUpto_le
  · rw [hpurge]
    exact hm.purged_le
  · rw [hmem]
    exact hm.membership
  · intro x hx
    rw [hmem] at hx
    exact (hm.membership_com x hx).mono hv
  · rw [hbuild, hlc]
    exact hm.building

theorem holds_effective (hm : LogMem mode h id X s) :
    Holds (X.full h) s.membershipState.effective.logId := by
  rw [hm.membership.effective]
  exact holds_lastOf hm.ok.log.2 fun _ hm => hm

theorem holds_committed (hm : LogMem mode h id X s) :
    Holds (X.full h) s.membershipState.committed.logId := by
  rcases hm.membership.committed with hc | hc
  · rw [hc]
    exact holds_lastOf hm.ok.log.2 fun _ hm => hm
  · rw [hc]
    exact holds_lastOf hm.ok.log.2 fun _ hm => List.dropLast_subset _ hm

/-- More is committed. -/
theorem commit (hs : h.Sound mode) (hm : LogMem mode h id X s) {c : LogId NID}
    (hc : HasId (X.full h) c) (hcom : h.Com mode X.vote c)
    (hle : nextIndex s.localCommitted ≤ nextIndex (some c)) :
    LogMem mode h id X { s with
      ioState := { s.ioState with applyProgress := s.ioState.applyProgress.accept c }
      membershipState := s.membershipState.commit (some c) } := by
  have hmemb : ∀ x, (s.membershipState.commit (some c)).committed.logId = some x →
      h.Com mode X.vote x := by
    intro x hx
    unfold MembershipState.commit at hx
    split at hx
    · rename_i heff
      have hxl := hm.holds_effective x hx
      have hxc : x ≤ c := by
        have := heff.1
        rw [show s.membershipState.effective.logId = some x from hx] at this
        exact Option.some_le_some.1 this
      rw [hs.le_iff_index hm.ok.log hxl hc] at hxc
      refine hs.com_below hcom ?_
      rw [← hm.ok.log.take_eq_upTo hc]
      exact hasId_take_iff.2 ⟨by omega, hxl⟩
    · exact hm.membership_com x hx
  refine ⟨hm.vote, hm.logIds, hm.ok, hm.accepted, holds_some.2 hc, ?_, hm.cluster, hm.snapshot,
    hm.snapshot_le.trans hle, hm.purgeUpto, hm.purgeUpto_le, hm.purged_le,
    hm.membership.commit _, hmemb, hm.building.trans
      ((hs.le_iff_nextIndex hm.ok.log hm.committed (holds_some.2 hc)).2 hle)⟩
  intro y hy
  obtain rfl := Option.some.inj hy
  exact hcom

theorem updateLocalCommitted (hs : h.Sound mode) (hm : LogMem mode h id X s)
    {committed : Option (LogId NID)}
    (hc : ∀ c, committed = some c → HasId (X.full h) c ∧ h.Com mode X.vote c) :
    LogMem mode h id X (s.updateLocalCommitted committed) := by
  unfold RaftState.updateLocalCommitted
  cases committed with
  | none => exact hm
  | some c =>
    obtain ⟨hx, hcom⟩ := hc c rfl
    dsimp only
    split
    · rename_i hlt
      have hle := hlt.le
      rw [hs.le_iff_nextIndex hm.ok.log hm.committed (holds_some.2 hx)] at hle
      exact hm.commit hs hx hcom hle
    · exact hm

theorem tryUpdateClusterCommitted (hm : LogMem mode h id X s) (io : LogIOId NID)
    (hrank : Vote.rank mode ⟨io.committedVote, true⟩ ≤ X.vote.rank mode)
    (hcom : ∀ c, io.logId = some c → h.leader io.committedVote ∧
      h.com (io.committedVote.toCommitted mode) c) :
    LogMem mode h id X { s with ioState := s.ioState.tryUpdateClusterCommitted mode io } := by
  unfold IOState.tryUpdateClusterCommitted
  split
  · refine ⟨hm.vote, hm.logIds, hm.ok, hm.accepted, hm.committed, hm.com, ?_, hm.snapshot,
      hm.snapshot_le, hm.purgeUpto, hm.purgeUpto_le, hm.purged_le, hm.membership,
      hm.membership_com, hm.building⟩
    intro io' hio'
    obtain rfl := Option.some.inj hio'
    exact ⟨hrank, hcom⟩
  · exact hm

/-- Up to the accepted io the log is that of the leader. -/
theorem com_of_min (hs : h.Sound mode) (hm : LogMem mode h id X s) {V : LeaderId NID}
    (hXV : X.vote = ⟨V, true⟩) (hx : HasId (X.full h) x)
    (hxV : HasId (h.log (V.toCommitted mode)) x)
    (hy : h.com (V.toCommitted mode) y) {c : LogId NID} (hc : min (some x) (some y) = some c) :
    HasId (X.full h) c ∧ h.Com mode X.vote c := by
  have hlogV := hs.isLog_log (V.toCommitted mode)
  have hyV := hs.com_mem _ y hy
  have hV := hm.ok.leader_of hXV
  have hcom : ∀ z, HasId (h.log (V.toCommitted mode)) z → z.index ≤ y.index →
      h.Com mode X.vote z := by
    intro z hz hle
    refine ⟨V, hV, hs.com_down _ y z hy hz hle, ?_⟩
    rw [hXV]
  rcases le_total x y with hle | hle
  · have hle' : some x ≤ some y := Option.some_le_some.2 hle
    rw [min_eq_left hle'] at hc
    obtain rfl := Option.some.inj hc
    exact ⟨hx, hcom x hxV ((hs.le_iff_index hlogV hxV hyV).1 hle)⟩
  · have hle' : some y ≤ some x := Option.some_le_some.2 hle
    rw [min_eq_right hle'] at hc
    obtain rfl := Option.some.inj hc
    have hidx := (hs.le_iff_index hlogV hyV hxV).1 hle
    exact ⟨hlogV.hasId_of_hasId hm.ok.log hxV hx hyV hidx, hcom y hyV le_rfl⟩

/-- What a node derives to be committed is in its log and is committed. -/
theorem calculateLocalCommitted_spec (hs : h.Sound mode) (hm : LogMem mode h id X s)
    {c : LogId NID} (hc : s.ioState.calculateLocalCommitted mode = some c) :
    HasId (X.full h) c ∧ h.Com mode X.vote c := by
  obtain ⟨a, ha, hav, -, -, hal, hal'⟩ := hm.accepted
  have ha : s.ioState.logProgress.accepted = some a := ha
  unfold IOState.calculateLocalCommitted at hc
  rw [ha] at hc
  cases hcc : s.ioState.clusterCommitted with
  | none =>
    rw [hcc] at hc
    cases hc
  | some cc =>
    rw [hcc] at hc
    cases a with
    | vote V => cases hc
    | log a =>
      dsimp only at hc
      split at hc
      · have hXV : X.vote = ⟨a.committedVote, true⟩ := hav.symm
        rw [hXV] at hal'
        cases hx : a.logId with
        | none => simp [hx] at hc
        | some x =>
          cases hy : cc.logId with
          | none => simp [hx, hy] at hc
          | some y =>
            obtain ⟨hrank, hcom⟩ := hm.cluster cc hcc
            obtain ⟨hW, hcomW⟩ := hcom y hy
            rw [hXV] at hrank
            rw [hx, hy] at hc
            exact hm.com_of_min hs hXV (hal x hx) (hal' x hx)
              (hs.com_leader ⟨cc.committedVote, hW, hcomW, hrank⟩ (hm.ok.leader_of hXV)) hc
      · cases hc

theorem updateCommitted (hs : h.Sound mode) (hm : LogMem mode h id X s) {io : LogIOId NID}
    (hrank : Vote.rank mode ⟨io.committedVote, true⟩ ≤ X.vote.rank mode)
    (hcom : ∀ c, io.logId = some c → h.leader io.committedVote ∧
      h.com (io.committedVote.toCommitted mode) c) :
    LogMem mode h id X (s.updateCommitted mode io) := by
  have hm' := hm.tryUpdateClusterCommitted io hrank hcom
  exact hm'.updateLocalCommitted hs fun c hc => hm'.calculateLocalCommitted_spec hs hc

/-- Entries of the leader are appended. -/
theorem append (hs : h.Sound mode) (hm : LogMem mode h id X s) {V : LeaderId NID}
    {es : List (Entry NID N D)} (hes : X.AppendOK mode h V es) {a : IOId NID}
    (hvote : s'.voteRef = s.voteRef) (hids : s'.logIds = s.logIds.extend (es.map Entry.logId))
    (hmem : s'.membershipState =
      (storedMemberships es).foldl MembershipState.append s.membershipState)
    (hsnap : s'.snapshotMeta = s.snapshotMeta) (hpurge : s'.purgeUpto = s.purgeUpto)
    (hlc : s'.localCommitted = s.localCommitted)
    (hcc : s'.ioState.clusterCommitted = s.ioState.clusterCommitted)
    (hbuild : s'.ioState.snapshot = s.ioState.snapshot)
    (hacc : s'.acceptedLogIo = some a) (hav : a.toVote = X.vote) (htip : tipId es ≤ a.lastLogId)
    (hal : Holds (X.full h ++ es) a.lastLogId)
    (hal' : Holds (h.log (V.toCommitted mode)) a.lastLogId) :
    LogMem mode h id (X.step (.appendEntries V es)) s' := by
  have hfull := View.full_append (h := h) (X := X) V es
  have hle : X.full h <+: X.full h ++ es := List.prefix_append _ _
  have hXV := hes.1
  have hlog := hes.2.2.1
  refine ⟨hvote ▸ hm.vote, ?_, hm.ok.append hs hes, ?_, ?_, ?_, ?_, ?_, ?_, ?_, ?_, ?_, ?_, ?_,
    ?_⟩
  · rw [hids, hm.logIds]
    show (⟨X.purged, X.entries.map Entry.logId ++ es.map Entry.logId⟩ : LogIds NID) =
      ⟨X.purged, (X.entries ++ es).map Entry.logId⟩
    rw [List.map_append]
  · refine ⟨a, hacc, hav, htip, ?_, ?_, ?_⟩
    · intro _
      rw [hfull, tipId_append hes.2.1]
      exact htip
    · rw [hfull]
      exact hal
    · show Holds (h.log (X.vote.leaderId.toCommitted mode)) a.lastLogId
      rw [hXV]
      exact hal'
  · rw [hlc, hfull]
    exact hm.committed.mono hle
  · rw [hlc]
    exact hm.com
  · rw [hcc]
    exact hm.cluster
  · rw [hsnap, hfull]
    exact hm.snapshot.mono hle
  · rw [hsnap, hlc]
    exact hm.snapshot_le
  · rw [hpurge, hfull]
    exact hm.purgeUpto.mono hle
  · rw [hpurge, hsnap]
    exact hm.purgeUpto_le
  · rw [hpurge]
    exact hm.purged_le
  · rw [hfull, storedMemberships_append, hmem]
    exact hm.membership.foldl_append _
  · intro x hx
    rw [hmem] at hx
    rcases List.eq_nil_or_concat (storedMemberships es) with hnil | ⟨new, m, hnew⟩
    · rw [hnil] at hx
      exact hm.membership_com x hx
    · -- the committed membership is the one before the last
      rw [List.concat_eq_append] at hnew
      rw [hnew, List.foldl_append] at hx
      have heff := (hm.membership.foldl_append new).effective
      have hx : (new.foldl MembershipState.append s.membershipState).effective.logId = some x := hx
      rw [heff] at hx
      have hne : storedMemberships (X.full h) ++ new ≠ [] := by
        intro hnil
        rw [hnil] at hx
        cases hx
      have hms : storedMemberships (X.full h ++ es) =
          (storedMemberships (X.full h) ++ new) ++ [m] := by
        rw [storedMemberships_append, hnew, List.append_assoc]
      show h.Com mode X.vote x
      rw [hXV]
      exact hs.com_of_membership_before hlog hms (MembershipState.lastOf_mem hne) hx
  · rw [hbuild, hlc]
    exact hm.building

/-- The progress of an io is reported. -/
theorem report (hs : h.Sound mode) (hm : LogMem mode h id X s) {cond : Option (Condition NID)}
    {io : IOId NID} (hok : X.ReportOK mode h io) {a : IOId NID} (ha : s.acceptedLogIo = some a)
    (hle : io.lastLogId ≤ a.lastLogId) :
    LogMem mode h id (X.step (.updateIOProgress cond io)) s := by
  obtain ⟨a', ha', hav, -, hio, hal, hal'⟩ := hm.accepted
  obtain rfl := Option.some.inj (ha'.symm.trans ha)
  have hX : (X.step (.updateIOProgress cond io)).OK mode h :=
    hm.ok.step hs id (c := .updateIOProgress cond io) hok
  exact ⟨hm.vote, hm.logIds, hX, ⟨a', ha, hav, hle, hio, hal, hal'⟩, hm.committed, hm.com,
    hm.cluster, hm.snapshot, hm.snapshot_le, hm.purgeUpto, hm.purgeUpto_le, hm.purged_le,
    hm.membership, hm.membership_com, hm.building⟩

/-- What the log and that of the leader share is before what it lacks. -/
theorem lt_of_not_hasId (hs : h.Sound mode) (hm : LogMem mode h id X s) {k : CommittedLeaderId NID}
    {z : LogId NID} (hx : HasId (X.full h) x) (hxk : HasId (h.log k) x) (hz : HasId (h.log k) z)
    (hnot : ¬ HasId (X.full h) z) : x.index < z.index := by
  by_contra hlt
  exact hnot ((hs.isLog_log k).hasId_of_hasId hm.ok.log hxk hx hz (by omega))

/-- The log is cut before an index from which on nothing counts as committed. -/
theorem truncate (hs : h.Sound mode) (hm : LogMem mode h id X s) {after : Option (LogId NID)}
    {n : Nat}
    (hafter : nextIndex after = n) (hlc : nextIndex s.localCommitted ≤ n)
    (hmemb : nextIndex s.membershipState.committed.logId ≤ n)
    (hacc : ∀ a, s.acceptedLogIo = some a → nextIndex a.lastLogId ≤ n) :
    LogMem mode h id (X.step (.truncateLog after)) { s with
      logIds := s.logIds.truncate n
      membershipState := s.membershipState.truncate n } := by
  have hpurged : nextIndex X.purged ≤ nextIndex after := by
    rw [hafter]
    exact hm.purged_le_committed.trans hlc
  have hfull := View.full_truncate hm.ok hpurged
  rw [hafter] at hfull
  have hok : (X.step (.truncateLog after)).OK mode h := by
    refine hm.ok.of_le rfl rfl rfl rfl hm.ok.purged ?_
    rw [hfull]
    exact List.take_prefix _ _
  have hkeep : ∀ a, Holds (X.full h) a → nextIndex a ≤ n → Holds ((X.full h).take n) a := by
    intro a ha hle x hx
    rw [hx, nextIndex_some] at hle
    exact hasId_take_iff.2 ⟨by omega, ha x hx⟩
  refine ⟨hm.vote, ?_, hok, ?_, ?_, hm.com, hm.cluster, ?_, hm.snapshot_le, ?_, hm.purgeUpto_le,
    hm.purged_le, ?_, ?_, hm.building⟩
  · show s.logIds.truncate n = ⟨X.purged, _⟩
    rw [hm.logIds]
    show (⟨X.purged, (X.entries.map Entry.logId).filter fun x => decide (x.index < n)⟩ :
      LogIds NID) =
      ⟨X.purged, (X.entries.filter fun ent => decide (ent.logId.index < nextIndex after)).map
        Entry.logId⟩
    rw [hafter, List.filter_map]
    rfl
  · obtain ⟨a, ha, hav, hsub, hio, hal, hal'⟩ := hm.accepted
    refine ⟨a, ha, hav, hsub, ?_, ?_, hal'⟩
    · intro hne
      have htip := hio hne
      have hall := (hs.le_iff_nextIndex hm.ok.log (holds_tipId hm.ok.log.2) hal).1 htip
      rw [nextIndex_tipId hm.ok.log.2] at hall
      rw [hfull, List.take_of_length_le (hall.trans (hacc a ha))]
      exact htip
    · rw [hfull]
      exact hkeep _ hal (hacc a ha)
  · rw [hfull]
    exact hkeep _ hm.committed hlc
  · rw [hfull]
    exact hkeep _ hm.snapshot (hm.snapshot_le.trans hlc)
  · rw [hfull]
    exact hkeep _ hm.purgeUpto (hm.purgeUpto_le_committed.trans hlc)
  · rw [hfull]
    have htracks := hm.membership
    rw [storedMemberships_take_drop (X.full h) n] at htracks
    exact htracks.truncate (splitAt_storedMemberships hm.ok.log.2 n) hmemb
  · intro x hx
    refine hm.membership_com x ?_
    rw [← hx]
    show _ = (s.membershipState.truncate n).committed.logId
    unfold MembershipState.truncate
    split <;> rfl

theorem logIds_purge (hm : LogMem mode h id X s) {upto : LogId NID}
    (hx : HasId (X.full h) upto) (hlt : nextIndex X.purged ≤ upto.index) :
    s.logIds.purge upto = ⟨some upto,
      (X.entries.filter fun ent => decide (upto.index < ent.logId.index)).map Entry.logId⟩ := by
  have hlast : nextIndex s.logIds.last = (X.full h).length := hm.nextIndex_lastLogId
  have hfirst : s.logIds.firstIndex = nextIndex X.purged := by
    rw [hm.logIds]
    rfl
  have hlen := hx.lt_length
  unfold LogIds.purge
  rw [if_neg (by omega), if_neg (by omega), hm.logIds, List.filter_map]
  rfl

/-- What is in a snapshot is purged. -/
theorem purge (hs : h.Sound mode) (hm : LogMem mode h id X s) {upto : LogId NID}
    (hupto : s.purgeUpto = some upto) (hlt : nextIndex X.purged ≤ upto.index) :
    LogMem mode h id (X.step (.purgeLog upto)) { s with logIds := s.logIds.purge upto } := by
  have hx := hm.purgeUpto upto hupto
  have hfull := View.full_purge hm.ok hlt hx
  refine ⟨hm.vote, hm.logIds_purge hx hlt, hm.ok.purge hs ⟨hlt, Or.inl hx⟩, ?_, ?_, hm.com,
    hm.cluster, ?_, hm.snapshot_le, ?_, hm.purgeUpto_le, ?_, ?_, hm.membership_com, hm.building⟩
  · rw [hfull]
    exact hm.accepted
  · rw [hfull]
    exact hm.committed
  · rw [hfull]
    exact hm.snapshot
  · rw [hfull]
    exact hm.purgeUpto
  · show nextIndex (some upto) ≤ nextIndex s.purgeUpto
    rw [hupto]
  · rw [hfull]
    exact hm.membership

end LogMem

/-! ## Cursors -/

/-- No less is committed. -/
structure RaftState.Grows (s s' : RaftState NID N) : Prop where
  committed : s.localCommitted ≤ s'.localCommitted

namespace RaftState.Grows

variable {s s' s'' : RaftState NID N}

/-- The cursors stay. -/
theorem of_eq (hio : s'.ioState = s.ioState) : Grows s s' :=
  ⟨(congrArg (fun io => io.applyProgress.accepted) hio).ge⟩

theorem refl (s : RaftState NID N) : Grows s s := ⟨le_rfl⟩

theorem trans (h : Grows s s') (h' : Grows s' s'') : Grows s s'' :=
  ⟨h.committed.trans h'.committed⟩

theorem acceptLogIo (mode : LeaderIdMode) (s : RaftState NID N) (io : IOId NID) :
    Grows s (s.acceptLogIo mode io) := by
  rw [RaftState.acceptLogIo_eq]
  exact ⟨le_rfl⟩

theorem updateLocalCommitted (s : RaftState NID N) (committed : Option (LogId NID)) :
    Grows s (s.updateLocalCommitted committed) := by
  unfold RaftState.updateLocalCommitted
  cases committed with
  | none => exact refl s
  | some c =>
    dsimp only
    split
    · rename_i hlt
      exact ⟨hlt.le⟩
    · exact refl s

theorem tryUpdateClusterCommitted (mode : LeaderIdMode) (s : RaftState NID N) (io : LogIOId NID) :
    Grows s { s with ioState := s.ioState.tryUpdateClusterCommitted mode io } := by
  unfold IOState.tryUpdateClusterCommitted
  split
  · exact ⟨le_rfl⟩
  · exact refl s

theorem updateCommitted (mode : LeaderIdMode) (s : RaftState NID N) (io : LogIOId NID) :
    Grows s (s.updateCommitted mode io) :=
  (tryUpdateClusterCommitted mode s io).trans (updateLocalCommitted _ _)

end RaftState.Grows

/-! ## Handlers -/

namespace Engine

variable {h : History NID N D} {X X' X'' : View NID N D} {e e' e'' : Engine NID N D}

/-- From `e` to `e'` commands were pushed that are in order, and lead from `X` to `X'`. -/
structure Moves (h : History NID N D) (X : View NID N D) (e : Engine NID N D) (X' : View NID N D)
    (e' : Engine NID N D) : Prop where
  config : e'.config = e.config
  grows : RaftState.Grows e.state e'.state
  pending : e'.output.pendingResponds = e.output.pendingResponds
  commands : ∃ cs, Emits e e' cs ∧
    AllSteps View.step (fun X c => c.LogOK e.config.mode h e.config.id X) X cs ∧
    runOps View.step X cs = X'

namespace Moves

theorem refl (X : View NID N D) (e : Engine NID N D) : Moves h X e X e :=
  ⟨rfl, .refl _, rfl, [], .refl e, trivial, rfl⟩

theorem trans (hm : Moves h X e X' e') (hm' : Moves h X' e' X'' e'') : Moves h X e X'' e'' := by
  obtain ⟨cs, hcs, hok, rfl⟩ := hm.commands
  obtain ⟨cs', hcs', hok', rfl⟩ := hm'.commands
  rw [hm.config] at hok'
  exact ⟨hm'.config.trans hm.config, hm.grows.trans hm'.grows, hm'.pending.trans hm.pending,
    cs ++ cs', hcs.trans hcs', allSteps_append.2 ⟨hok, hok'⟩, runOps_append _ _ _⟩

/-- The state or the role has changed, and nothing is pushed. -/
theorem of_output (hc : e'.config = e.config) (ho : e'.output = e.output)
    (hg : RaftState.Grows e.state e'.state) : Moves h X e X e' :=
  ⟨hc, hg, by rw [ho], [], .of_eq (by rw [ho, List.append_nil]), trivial, rfl⟩

theorem push (c : Command NID N D) (hc : c.LogOK e.config.mode h e.config.id X) :
    Moves h X e (X.step c) (e.pushCommand c) :=
  ⟨rfl, .refl _, rfl, [c], .of_eq rfl, ⟨hc, trivial⟩, rfl⟩

theorem of_quiet (hq : Quiet e e') : Moves h X e X e' := by
  obtain ⟨cs, hcs, hidle⟩ := hq.commands
  have hstep : ∀ c ∈ cs, ∀ X : View NID N D,
      X.step c = X ∧ c.LogOK e.config.mode h e.config.id X := by
    intro c hc X
    have := hidle c hc
    cases c <;> first | exact ⟨rfl, trivial⟩ | cases this
  exact ⟨hq.config, .of_eq hq.state.ioState, hq.pending, cs, hcs,
    allSteps_of_idle fun c hc => hstep c hc X,
    runOps_eq_of_idle fun c hc X => (hstep c hc X).1⟩

/-- A change followed by a command. -/
theorem push_of_output (c : Command NID N D) (hc : e'.config = e.config)
    (ho : e'.output = e.output) (hg : RaftState.Grows e.state e'.state)
    (hok : c.LogOK e.config.mode h e.config.id X) : Moves h X e (X.step c) (e'.pushCommand c) := by
  rw [← hc] at hok
  exact (of_output hc ho hg).trans (push c hok)

end Moves

/-- The state of an engine agrees with a view. -/
def Mem (h : History NID N D) (X : View NID N D) (e : Engine NID N D) : Prop :=
  LogMem e.config.mode h e.config.id X e.state

end Engine

end ZenohRaft
