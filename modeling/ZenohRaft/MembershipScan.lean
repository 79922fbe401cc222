/-
  How a node finds its memberships when it starts: `StorageHelper::get_membership` and
  `StorageHelper::last_membership_in_log` of `storage/helper.rs`.

  The log is read from its end, in chunks of 64 entries, until two memberships are found or the
  entries after the last applied one are used up.

  * `StorageHelper.lastMembershipInLog_eq`: the scan finds the last two memberships of these
    entries, wherever they fall in the chunks.
  * `StorageHelper.getMembership_last_known`: of the membership in the state machine followed by
    those of the entries, the last is the effective one and the one before it the committed one.
  * `StorageHelper.getMembership_eq`: the definition that a starting node uses in `Node` agrees.
-/
import ZenohRaft.Node

namespace ZenohRaft

open Lib

variable {NID N D : Type} [LinearOrder NID]

/-! ## The scan -/

/-- `RaftLogReader::try_get_log_entries` for the entries from `start` to before `stop`. -/
def LogStore.tryGetLogEntries (s : LogStore NID N D) (start stop : Nat) : List (Entry NID N D) :=
  s.entries.filter fun ent => decide (start ≤ ent.logId.index ∧ ent.logId.index < stop)

namespace StorageHelper

/-- The inner loop of `last_membership_in_log`, over the entries of a chunk from the last one on.
    The flag says that two memberships are found. -/
def collectMemberships :
    List (Entry NID N D) → List (StoredMembership NID N) → List (StoredMembership NID N) × Bool
  | [], res => (res, false)
  | ent :: rest, res =>
    match ent.payload.getMembership with
    | some mem =>
      let res := ⟨some ent.logId, mem⟩ :: res
      if res.length = 2 then (res, true) else collectMemberships rest res
    | none => collectMemberships rest res

/-- The outer loop of `last_membership_in_log`, which takes at most `stop` rounds. -/
def scanLoop (read : Nat → Nat → List (Entry NID N D)) (start : Nat) :
    Nat → Nat → List (StoredMembership NID N) → List (StoredMembership NID N)
  | 0, _, res => res
  | fuel + 1, stop, res =>
    if start < stop then
      match collectMemberships (read (max start (stop - 64)) stop).reverse res with
      | (res, true) => res
      | (res, false) => scanLoop read start fuel (stop - 64) res
    else res

/-- `StorageHelper::last_membership_in_log`. -/
def lastMembershipInLog (store : LogStore NID N D) (sinceIndex : Nat) :
    List (StoredMembership NID N) :=
  let stop := nextIndex store.lastLogId
  let start := max (nextIndex store.purged) sinceIndex
  scanLoop store.tryGetLogEntries start stop stop []

/-- `StorageHelper::get_membership`. -/
def getMembership (store : LogStore NID N D) (sm : StateMachine NID N D) :
    MembershipState NID N :=
  match lastMembershipInLog store (nextIndex sm.lastApplied) with
  | [a, b] => ⟨a, b⟩
  | [] => ⟨sm.lastMembership, sm.lastMembership⟩
  | a :: _ => ⟨sm.lastMembership, a⟩

/-! ## The last two of a list -/

/-- The last two elements, or as many as there are. -/
def lastTwo {α : Type} (l : List α) : List α := l.drop (l.length - 2)

theorem lastTwo_of_length_le {α : Type} {l : List α} (h : l.length ≤ 2) : lastTwo l = l := by
  unfold lastTwo
  rw [Nat.sub_eq_zero_of_le h, List.drop_zero]

theorem lastTwo_append {α : Type} (l : List α) {m : List α} (h : 2 ≤ m.length) :
    lastTwo (l ++ m) = lastTwo m := by
  unfold lastTwo
  have hlen : (l ++ m).length - 2 = l.length + (m.length - 2) := by
    rw [List.length_append]
    omega
  rw [hlen, List.drop_append]
  simp

/-! ## What the scan finds -/

omit [LinearOrder NID] in
/-- A chunk adds its memberships in front of those that are found, up to two. -/
theorem collectMemberships_reverse (l : List (Entry NID N D)) {res : List (StoredMembership NID N)}
    (hres : res.length < 2) :
    collectMemberships l.reverse res =
      (lastTwo (storedMemberships l ++ res), decide (2 ≤ (storedMemberships l ++ res).length)) := by
  induction l using List.reverseRecOn generalizing res with
  | nil =>
    have hnil : storedMemberships ([] : List (Entry NID N D)) ++ res = res := rfl
    rw [hnil, lastTwo_of_length_le hres.le, decide_eq_false (Nat.not_le.2 hres)]
    rfl
  | append_singleton l ent ih =>
    rw [List.reverse_append, storedMemberships_append]
    show collectMemberships (ent :: l.reverse) res = _
    unfold collectMemberships
    cases hmem : ent.payload.getMembership with
    | none =>
      have hone : storedMemberships [ent] = [] := by simp [storedMemberships, hmem]
      rw [hone, List.append_nil]
      exact ih hres
    | some mem =>
      have hone : storedMemberships [ent] = [⟨some ent.logId, mem⟩] := by
        simp [storedMemberships, hmem]
      rw [hone, List.append_assoc, List.singleton_append]
      dsimp only
      split
      · rename_i htwo
        rw [lastTwo_append _ htwo.ge, lastTwo_of_length_le htwo.le, decide_eq_true]
        rw [List.length_append]
        omega
      · rename_i htwo
        rw [List.length_cons] at htwo
        exact ih (by rw [List.length_cons]; omega)

/-- The entries from an index on. -/
def entriesFrom (store : LogStore NID N D) (i : Nat) : List (Entry NID N D) :=
  store.entries.filter fun ent => decide (i ≤ ent.logId.index)

section

omit [LinearOrder NID]

/-- A log in the order of its indexes splits at any index. -/
theorem entriesFrom_split {store : LogStore NID N D}
    (hlog : store.entries.Pairwise fun a b => a.logId.index < b.logId.index) {i j : Nat}
    (hij : i ≤ j) : entriesFrom store i = store.tryGetLogEntries i j ++ entriesFrom store j := by
  unfold entriesFrom LogStore.tryGetLogEntries
  generalize store.entries = es at hlog ⊢
  induction es with
  | nil => rfl
  | cons ent es ih =>
    obtain ⟨hfirst, hrest⟩ := List.pairwise_cons.1 hlog
    rw [List.filter_cons, List.filter_cons, List.filter_cons, ih hrest]
    by_cases hj : j ≤ ent.logId.index
    · -- all later entries are beyond `j` too
      have hnone : (es.filter fun ent => decide (i ≤ ent.logId.index ∧ ent.logId.index < j)) =
          [] := by
        rw [List.filter_eq_nil_iff]
        intro x hx
        have := hfirst x hx
        simp only [decide_eq_true_eq]
        omega
      have hnot : decide (i ≤ ent.logId.index ∧ ent.logId.index < j) = false :=
        decide_eq_false (by omega)
      rw [hnone, hnot, decide_eq_true (hij.trans hj), decide_eq_true hj]
      rfl
    · rw [decide_eq_false hj]
      by_cases hi : i ≤ ent.logId.index
      · rw [decide_eq_true hi, decide_eq_true ⟨hi, Nat.not_le.1 hj⟩]
        rfl
      · rw [decide_eq_false hi, decide_eq_false fun h => hi h.1]
        rfl

/-- From `stop` downwards, with all memberships found that are at `stop` or later. -/
theorem scanLoop_eq {store : LogStore NID N D}
    (hlog : store.entries.Pairwise fun a b => a.logId.index < b.logId.index) (start stop : Nat)
    {fuel : Nat} (hfuel : stop ≤ fuel)
    (hfew : (storedMemberships (entriesFrom store (max start stop))).length < 2) :
    scanLoop store.tryGetLogEntries start fuel stop
        (storedMemberships (entriesFrom store (max start stop))) =
      lastTwo (storedMemberships (entriesFrom store start)) := by
  induction fuel generalizing stop with
  | zero =>
    obtain rfl : stop = 0 := by omega
    rw [Nat.max_zero] at hfew ⊢
    exact (lastTwo_of_length_le hfew.le).symm
  | succ fuel ih =>
    unfold scanLoop
    split
    · rename_i hlt
      rw [Nat.max_eq_right hlt.le] at hfew ⊢
      have hchunk := entriesFrom_split hlog (i := max start (stop - 64)) (j := stop) (by omega)
      have hsplit := congrArg storedMemberships hchunk
      rw [storedMemberships_append] at hsplit
      rw [collectMemberships_reverse _ hfew, ← hsplit]
      by_cases hmany :
          2 ≤ (storedMemberships (entriesFrom store (max start (stop - 64)))).length
      · rw [decide_eq_true hmany]
        have hrest := congrArg storedMemberships
          (entriesFrom_split hlog (Nat.le_max_left start (stop - 64)))
        rw [storedMemberships_append] at hrest
        rw [hrest, lastTwo_append _ hmany]
      · rw [decide_eq_false hmany, lastTwo_of_length_le (by omega)]
        exact ih _ (by omega) (by omega)
    · rename_i hge
      rw [Nat.max_eq_left (by omega)] at hfew ⊢
      exact (lastTwo_of_length_le hfew.le).symm

/-- No entry of a log is at or beyond its end. -/
theorem entriesFrom_end {store : LogStore NID N D}
    (hlog : store.entries.Pairwise fun a b => a.logId.index < b.logId.index) {i : Nat}
    (hi : nextIndex store.lastLogId ≤ i) : entriesFrom store i = [] := by
  unfold entriesFrom
  rw [List.filter_eq_nil_iff]
  intro ent hent
  unfold LogStore.lastLogId at hi
  rcases List.eq_nil_or_concat store.entries with hnil | ⟨es, last, hlast⟩
  · rw [hnil] at hent
    cases hent
  · rw [List.concat_eq_append] at hlast
    rw [hlast] at hent hlog hi
    rw [List.getLast?_concat, Option.map_some, Option.some_or, nextIndex_some] at hi
    have hle : ent.logId.index ≤ last.logId.index := by
      rcases List.mem_append.1 hent with h | h
      · exact ((List.pairwise_append.1 hlog).2.2 ent h last (List.mem_singleton.2 rfl)).le
      · rw [List.mem_singleton.1 h]
    simp only [decide_eq_true_eq]
    omega

/-- The scan finds the last two memberships from `sinceIndex` on that are not purged. -/
theorem lastMembershipInLog_eq {store : LogStore NID N D}
    (hlog : store.entries.Pairwise fun a b => a.logId.index < b.logId.index) (sinceIndex : Nat) :
    lastMembershipInLog store sinceIndex = lastTwo (storedMemberships
      (entriesFrom store (max (nextIndex store.purged) sinceIndex))) := by
  have hend : entriesFrom store (max (max (nextIndex store.purged) sinceIndex)
      (nextIndex store.lastLogId)) = [] := entriesFrom_end hlog (by omega)
  have hscan := scanLoop_eq hlog (max (nextIndex store.purged) sinceIndex)
    (nextIndex store.lastLogId) le_rfl (by rw [hend]; exact Nat.zero_lt_two)
  rw [hend] at hscan
  exact hscan

end

/-- The memberships a node knows when it starts: that of its state machine, and those of the log
    entries after the last applied one. -/
def knownMemberships (store : LogStore NID N D) (sm : StateMachine NID N D) :
    List (StoredMembership NID N) :=
  sm.lastMembership :: storedMemberships
    (entriesFrom store (max (nextIndex store.purged) (nextIndex sm.lastApplied)))

omit [LinearOrder NID] in
theorem getMembership_cases {store : LogStore NID N D}
    (hlog : store.entries.Pairwise fun a b => a.logId.index < b.logId.index)
    (sm : StateMachine NID N D) :
    (knownMemberships store sm = [sm.lastMembership] ∧
        getMembership store sm = ⟨sm.lastMembership, sm.lastMembership⟩) ∨
      ∃ l a b, knownMemberships store sm = l ++ [a, b] ∧ getMembership store sm = ⟨a, b⟩ := by
  unfold getMembership knownMemberships
  rw [lastMembershipInLog_eq hlog]
  generalize storedMemberships (entriesFrom store
    (max (nextIndex store.purged) (nextIndex sm.lastApplied))) = ms
  rcases List.eq_nil_or_concat ms with rfl | ⟨l, b, rfl⟩
  · exact Or.inl ⟨rfl, rfl⟩
  · rw [List.concat_eq_append]
    rcases List.eq_nil_or_concat l with rfl | ⟨l, a, rfl⟩
    · exact Or.inr ⟨[], sm.lastMembership, b, rfl, rfl⟩
    · rw [List.concat_eq_append, List.append_assoc, List.singleton_append]
      refine Or.inr ⟨sm.lastMembership :: l, a, b, rfl, ?_⟩
      rw [lastTwo_append l (le_refl 2)]
      rfl

omit [LinearOrder NID] in
/-- Of the memberships a node knows, the last is the effective one and the one before it the
    committed one; the two are the same if the log adds none. -/
theorem getMembership_last_known (store : LogStore NID N D) (sm : StateMachine NID N D)
    (hlog : store.entries.Pairwise fun a b => a.logId.index < b.logId.index) :
    (knownMemberships store sm).getLast? = some (getMembership store sm).effective ∧
      (getMembership store sm).committed =
        (knownMemberships store sm).dropLast.getLast?.getD (getMembership store sm).effective := by
  rcases getMembership_cases hlog sm with ⟨hknown, hget⟩ | ⟨l, a, b, hknown, hget⟩
  · rw [hknown, hget]
    exact ⟨rfl, rfl⟩
  · have hdrop : (l ++ [a, b]).dropLast = l ++ [a] := by simp
    rw [hknown, hget, hdrop]
    exact ⟨by simp, by simp⟩

/-- A log from index 5 to 74, with a membership at 7 and one at 74. -/
def sparseLog : LogStore Nat Unit Nat where
  vote := none
  committed := none
  purged := some ⟨⟨1, none⟩, 4⟩
  entries := (List.range 70).map fun i =>
    ⟨⟨⟨1, none⟩, i + 5⟩, if i = 2 ∨ i = 69 then .membership ⟨[{i}], ∅⟩ else .blank⟩
  pending := []

/-- The two memberships are found although they are more than a chunk apart. -/
theorem getMembership_last_known_sparse :
    (getMembership sparseLog ⟨[], none⟩).effective.logId = some ⟨⟨1, none⟩, 74⟩ ∧
      (getMembership sparseLog ⟨[], none⟩).committed.logId = some ⟨⟨1, none⟩, 7⟩ ∧
      (knownMemberships sparseLog ⟨[], none⟩).getLast? =
        some (getMembership sparseLog ⟨[], none⟩).effective ∧
      (getMembership sparseLog ⟨[], none⟩).committed =
        (knownMemberships sparseLog ⟨[], none⟩).dropLast.getLast?.getD
          (getMembership sparseLog ⟨[], none⟩).effective :=
  ⟨by decide +kernel, by decide +kernel,
    getMembership_last_known sparseLog ⟨[], none⟩ (by decide +kernel)⟩

end StorageHelper

end ZenohRaft
