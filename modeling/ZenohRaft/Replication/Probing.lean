/-
  The search for the last log id that a target shares with its leader: `ProgressEntry::next_send`
  and the answers to what it sends.

  `LeaderLog H s`: `H` are all log ids that the log of the leader `s` has had, and `purge_upto` is
  one of them. `Searching H s e`: the entry `e` is a valid one for this leader.

  * `nextSend_cases`: what `next_send` decides, in five cases. In the last one the `u64` sum of the
    start of the probe and `max_entries` wraps (not `LimitFits`), and nothing is put in flight.
  * `nextSend_action`: with a limit that fits it never sends nothing, when it sends a snapshot, and
    that all it requests is there. `nextSend_wraps`: with the largest limit it sends nothing.
  * `search_ends`: against a target that answers by the check of the previous log id, every round
    of a probe and its answer makes the range that is still searched smaller, until the entry
    streams from the last shared log id or a snapshot is sent. Between two rounds the leader may
    append and schedule purges. `search_stalls`: with a limit that wraps the search stands still.
-/
import ZenohRaft.Purge.Inflight

namespace ZenohRaft

variable {NID N D : Type} [LinearOrder NID]

/-! ## What is sent -/

/-- The log of a leader: `H` are all its log ids, and some of them, up to `purge_upto` at most,
    are purged. -/
structure LeaderLog (H : List (LogId NID)) (s : RaftState NID N) : Prop where
  full : FullLog H
  tail : s.logIds.TailOf H
  purgeUpto : InLogOpt H s.purgeUpto
  purged_le : s.logIds.firstIndex ≤ nextIndex s.purgeUpto

/-- A valid entry for the log of a leader. The last field is asserted by `next_send`. -/
structure Searching (H : List (LogId NID)) (s : RaftState NID N) (e : ProgressEntry NID) :
    Prop where
  matching : InLogOpt H e.progress
  valid : nextIndex e.progress ≤ e.data.searchingEnd
  searching : e.data.searchingEnd ≤ nextIndex s.lastLogId

section Send

variable {H : List (LogId NID)} {s : RaftState NID N} {e : ProgressEntry NID} {maxEntries : Nat}

theorem LeaderLog.nextIndex_last (h : LeaderLog H s) : nextIndex s.lastLogId = H.length :=
  h.tail.nextIndex_last h.full

theorem calcMid_bounds {matchingNext searchingEnd : Nat} (h : matchingNext < searchingEnd) :
    matchingNext ≤ ProgressEntry.calcMid matchingNext searchingEnd ∧
      ProgressEntry.calcMid matchingNext searchingEnd < searchingEnd := by
  unfold ProgressEntry.calcMid
  omega

/-- `start + max_entries` in `next_send` is a `u64`. -/
def LimitFits (e : ProgressEntry NID) (s : RaftState NID N) (maxEntries : Nat) : Prop :=
  max (ProgressEntry.calcMid (nextIndex e.progress) e.data.searchingEnd)
    (nextIndex s.purgeUpto) + maxEntries < 2 ^ 64

omit [LinearOrder NID] in
/-- Nothing is known of what stands before the purged log id. -/
theorem prevLogId_of_lt {i : Nat} (h : i < s.logIds.firstIndex) : s.prevLogId i = none := by
  unfold RaftState.prevLogId RaftState.getLogId LogIds.refAt
  unfold LogIds.firstIndex at h ⊢
  split
  · rfl
  · rw [if_pos (by omega), Option.filter_eq_none_iff]
    intro p hp
    rw [hp, nextIndex_some] at h
    rw [decide_eq_true_iff]
    omega

/-- A probe: the entries behind `prev`, where `prev` is at or behind the matching log id and may
    still be the last shared one. -/
structure IsProbe (H : List (LogId NID)) (s : RaftState NID N) (e : ProgressEntry NID)
    (range : LogIdRange NID) : Prop where
  prev : InLogOpt H range.prev
  last : InLogOpt H range.last
  probing : nextIndex e.progress < e.data.searchingEnd
  matching_le : nextIndex e.progress ≤ nextIndex range.prev
  searching : nextIndex range.prev ≤ e.data.searchingEnd
  purge_le : nextIndex s.purgeUpto ≤ nextIndex range.prev
  nonempty : nextIndex range.prev < nextIndex range.last

/-- What `next_send` puts in flight, by the position of the search and of the purge. -/
theorem nextSend_cases (hlog : LeaderLog H s) (he : Searching H s e)
    (hidle : e.data.inflight = .none) (maxEntries : Nat) :
    ∃ action, ProgressEntry.nextSend e s maxEntries =
        ({ e with data := { e.data with inflight := action } },
          { s with lastInflightId := s.lastInflightId + 1 }, some action) ∧
      ((e.data.searchingEnd < nextIndex s.purgeUpto ∧
          action = .snapshot (s.lastInflightId + 1)) ∨
        (nextIndex s.purgeUpto ≤ e.data.searchingEnd ∧ nextIndex e.progress < e.data.searchingEnd ∧
          (1 ≤ maxEntries → LimitFits e s maxEntries →
            nextIndex s.purgeUpto = nextIndex s.lastLogId) ∧
          action = .snapshot (s.lastInflightId + 1)) ∨
        (nextIndex s.purgeUpto < nextIndex s.lastLogId ∧ ∃ range, IsProbe H s e range ∧
          action = .logs range (s.lastInflightId + 1)) ∨
        (nextIndex s.purgeUpto ≤ e.data.searchingEnd ∧
          nextIndex e.progress = e.data.searchingEnd ∧
          action = .logsSince e.progress (s.lastInflightId + 1)) ∨
        (¬ LimitFits e s maxEntries ∧ action = .none)) := by
  have hlast := hlog.nextIndex_last
  have hupto := hlog.purgeUpto.nextIndex_le
  have hfirst := hlog.purged_le
  have hsearch := he.searching
  have hvalid := he.valid
  unfold ProgressEntry.nextSend LimitFits
  rw [if_neg (by simp [hidle])]
  refine ⟨_, rfl, ?_⟩
  by_cases hpurged : e.data.searchingEnd < nextIndex s.purgeUpto
  · rw [if_pos hpurged]
    exact Or.inl ⟨hpurged, rfl⟩
  rw [if_neg hpurged]
  dsimp only
  by_cases hprobing : nextIndex e.progress < e.data.searchingEnd
  · rw [if_pos hprobing]
    obtain ⟨hmid, hmid'⟩ := calcMid_bounds hprobing
    obtain ⟨start, hstart⟩ : ∃ start, start =
      max (ProgressEntry.calcMid (nextIndex e.progress) e.data.searchingEnd)
        (nextIndex s.purgeUpto) := ⟨_, rfl⟩
    rw [← hstart]
    obtain ⟨stop, hstop⟩ : ∃ stop, stop =
      min ((start + maxEntries) % 2 ^ 64) (nextIndex s.lastLogId) := ⟨_, rfl⟩
    rw [← hstop]
    have hfits : start + maxEntries < 2 ^ 64 →
        stop = min (start + maxEntries) (nextIndex s.lastLogId) := by
      intro hlt
      rw [hstop, Nat.mod_eq_of_lt hlt]
    have hstop_le : stop ≤ nextIndex s.lastLogId := hstop ▸ Nat.min_le_right _ _
    obtain ⟨hprev, hprevNext⟩ := ItemOK.prevLogId_spec hlog.full hlog.tail (i := start)
      (by omega) (by omega)
    rcases lt_trichotomy start stop with hlt | heq | hgt
    · rw [if_neg hlt.ne]
      obtain ⟨hend, hendNext⟩ := ItemOK.prevLogId_spec hlog.full hlog.tail (i := stop)
        (by omega) (by omega)
      generalize s.prevLogId start = prev at hprev hprevNext ⊢
      generalize s.prevLogId stop = last at hend hendNext ⊢
      have hnew : Inflight.newLogs prev last (s.lastInflightId + 1) =
          .logs ⟨prev, last⟩ (s.lastInflightId + 1) := by
        unfold Inflight.newLogs
        rw [if_neg]
        rw [hlog.full.le_iff hend hprev]
        omega
      refine Or.inr (Or.inr (Or.inl ⟨by omega, ⟨prev, last⟩,
        ⟨hprev, hend, hprobing, ?_, ?_, ?_, ?_⟩, hnew⟩))
      all_goals dsimp only
      all_goals omega
    · rw [if_pos heq]
      exact Or.inr (Or.inl ⟨by omega, hprobing, by omega, rfl⟩)
    · -- only a sum that wraps ends before the start
      rw [if_neg hgt.ne']
      have hbelow : s.prevLogId stop ≤ s.prevLogId start := by
        rcases Nat.lt_or_ge stop s.logIds.firstIndex with hout | hin
        · rw [prevLogId_of_lt hout]
          exact Option.none_le
        · obtain ⟨hend, hendNext⟩ := ItemOK.prevLogId_spec hlog.full hlog.tail hin (by omega)
          rw [hlog.full.le_iff hend hprev]
          omega
      refine Or.inr (Or.inr (Or.inr (Or.inr ⟨by omega, ?_⟩)))
      unfold Inflight.newLogs
      rw [if_pos hbelow]
  · rw [if_neg hprobing]
    exact Or.inr (Or.inr (Or.inr (Or.inl ⟨by omega, by omega, rfl⟩)))

/-- The log ids that an action sends: behind which one, and the index that ends them. A stream has
    no end of its own. -/
def Inflight.requested (s : RaftState NID N) : Inflight NID → Option (Option (LogId NID) × Nat)
  | .logs range _ => some (range.prev, nextIndex range.last)
  | .logsSince prev _ => some (prev, nextIndex s.lastLogId)
  | .none | .snapshot _ => Option.none

/-- The log has an id above `purge_upto` at every index between `purge_upto` and its end. -/
theorem LeaderLog.exists_getLogId (h : LeaderLog H s) {i : Nat}
    (hi : nextIndex s.purgeUpto ≤ i) (hlt : i < nextIndex s.lastLogId) :
    ∃ x, s.getLogId i = some x ∧ s.purgeUpto < some x := by
  have hfirst := h.purged_le
  have hlast := h.nextIndex_last
  obtain ⟨x, hx, rfl⟩ := (h.tail.ordered h.full).exists_has (i := i) (by omega) hlt
  refine ⟨x, hx, ?_⟩
  have hin : InLogOpt H (some x) := ((h.tail.has_iff h.full).1 hx).1.opt
  rw [← not_le, h.full.le_iff hin h.purgeUpto, nextIndex_some]
  omega

end Send

namespace Probing

/-- The first log ids of one leader. -/
def idsTo (n : Nat) : List (LogId Nat) := (List.range n).map fun i => ⟨⟨2, none⟩, i⟩

/-- A node whose log is `ids` behind `purged`. -/
def node (purged : Option (LogId Nat)) (ids : List (LogId Nat)) (purgeUpto : Option (LogId Nat)) :
    RaftState Nat Unit :=
  ⟨Leased.new 0 0 ⟨⟨2, 0⟩, true⟩, ⟨purged, ids⟩, ⟨.default, .default⟩, ⟨none, .default⟩, 0,
    IOState.new ⟨⟨2, 0⟩, true⟩ purged none none, purgeUpto, 0⟩

end Probing

/-! ## What a target answers -/

/-- How many log ids two logs share from the start. -/
def sharedLen : List (LogId NID) → List (LogId NID) → Nat
  | x :: xs, y :: ys => if x = y then sharedLen xs ys + 1 else 0
  | _, _ => 0

theorem getElem?_of_lt_sharedLen {H F : List (LogId NID)} {i : Nat} (hi : i < sharedLen H F) :
    F[i]? = H[i]? := by
  induction H, F using sharedLen.induct generalizing i with
  | case1 x xs ys ih =>
    rw [sharedLen, if_pos rfl] at hi
    cases i with
    | zero => rfl
    | succ i => simpa using ih (by omega)
  | case2 x xs y ys hne =>
    rw [sharedLen, if_neg hne] at hi
    omega
  | case3 H F h =>
    rw [sharedLen.eq_2 H F h] at hi
    omega

/-- The answer of a target to a probe. -/
inductive ProbeAnswer where
  | success
  | conflict (index : Nat)
  deriving DecidableEq

/-- The answer of `FollowingHandler::ensure_log_consecutive`. -/
def Engine.answerProbe (target : Engine NID N D) (prev : Option (LogId NID)) : ProbeAnswer :=
  match (target.ensureLogConsecutive prev).2 with
  | some (.conflict expect) => .conflict expect.index
  | _ => .success

/-- A target whose log is intact. `F` are all its log ids. What it has committed it shares with
    the leader, and where it has a log id of the leader it has all those before. -/
structure Intact (H F : List (LogId NID)) (f : RaftState NID N) : Prop where
  full : FullLog F
  tail : f.logIds.TailOf F
  purged : f.logIds.firstIndex ≤ nextIndex f.localCommitted
  committed : nextIndex f.localCommitted ≤ sharedLen H F
  matching : ∀ i x, H[i]? = some x → F[i]? = some x → i < sharedLen H F

section Answer

variable {H F : List (LogId NID)} {target : Engine NID N D} {prev : Option (LogId NID)}

/-- An intact target has exactly the shared log ids of the leader. -/
theorem Intact.hasLogId_iff (h : Intact H F target.state) {x : LogId NID} (hx : InLog H x) :
    target.state.hasLogId x = true ↔ x.index < sharedLen H F := by
  have hcommitted := h.committed
  have hpurged := h.purged
  unfold RaftState.hasLogId
  split
  · rename_i hlt
    exact ⟨fun _ => by omega, fun _ => rfl⟩
  · rename_i hge
    rw [decide_eq_true_iff]
    show target.state.logIds.Has x ↔ _
    rw [h.tail.has_iff h.full]
    constructor
    · exact fun hhas => h.matching _ x hx hhas.1
    · intro hlt
      refine ⟨?_, by omega⟩
      show F[x.index]? = some x
      rw [getElem?_of_lt_sharedLen hlt]
      exact hx

/-- A probe succeeds exactly up to the last shared log id, and a conflict is at its `prev`. -/
theorem Intact.answerProbe (h : Intact H F target.state) (hprev : InLogOpt H prev) :
    (target.answerProbe prev = .success ∧ nextIndex prev ≤ sharedLen H F) ∨
      ∃ c, target.answerProbe prev = .conflict c ∧ nextIndex prev = c + 1 ∧
        sharedLen H F ≤ c := by
  unfold Engine.answerProbe Engine.ensureLogConsecutive
  cases prev with
  | none => exact Or.inl ⟨rfl, Nat.zero_le _⟩
  | some p =>
    have hiff := h.hasLogId_iff (hprev p rfl)
    dsimp only
    by_cases hhas : target.state.hasLogId p = true
    · rw [if_pos hhas]
      exact Or.inl ⟨rfl, hiff.1 hhas⟩
    · rw [if_neg hhas]
      exact Or.inr ⟨p.index, rfl, rfl, not_lt.1 fun hlt => hhas (hiff.2 hlt)⟩

end Answer

/-! ## Rounds -/

/-- The surroundings of one round: the leader and all its log ids, the target and all its log ids,
    the limit of entries in a request, and the log ids that the target acknowledges before it
    acknowledges the last one of the range. -/
structure Round (NID N D : Type) where
  leader : RaftState NID N
  leaderIds : List (LogId NID)
  target : Engine NID N D
  targetIds : List (LogId NID)
  maxEntries : Nat
  parts : List (LogId NID)

namespace Round

/-- How many log ids leader and target share. -/
def shared (r : Round NID N D) : Nat := sharedLen r.leaderIds r.targetIds

/-- What is sent in a round. -/
def sent (r : Round NID N D) (e : ProgressEntry NID) : Option (Inflight NID) :=
  (e.nextSend r.leader r.maxEntries).2.2

/-- The entry after `next_send` and, if a range of logs was sent, the answer to it. -/
def finish (allow : Bool) (r : Round NID N D) (e : ProgressEntry NID) : ProgressEntry NID :=
  let e' := (e.nextSend r.leader r.maxEntries).1
  match r.sent e with
  | some (.logs range id) =>
    match r.target.answerProbe range.prev with
    | .success =>
      (r.parts.map some ++ [range.last]).foldl (fun e m => e.updateMatching m (some id)) e'
    | .conflict index => e'.updateConflicting allow index (some id)
  | _ => e'

/-- The last log id that the target acknowledges in a round. -/
def acknowledged (r : Round NID N D) (e : ProgressEntry NID) : Option (LogId NID) :=
  match r.sent e with
  | some (.logs range _) =>
    match r.target.answerProbe range.prev with
    | .success => range.last
    | .conflict _ => none
  | _ => none

/-- Leader and target in one round. -/
structure Fits (r : Round NID N D) : Prop where
  leader : LeaderLog r.leaderIds r.leader
  target : Intact r.leaderIds r.targetIds r.target.state
  max : 1 ≤ r.maxEntries

/-- From one round to the next the log of the leader may grow by log ids that the target does not
    have. The target keeps what it shares with the leader, and gets what it acknowledges. -/
structure Next (e : ProgressEntry NID) (r r' : Round NID N D) : Prop where
  grows : r.leaderIds <+: r'.leaderIds
  kept : r.shared ≤ r'.shared
  stored : nextIndex (r.acknowledged e) ≤ r'.shared
  sent : r'.shared ≤ max r.shared (nextIndex (r.acknowledged e))
  parts : ∀ x ∈ r.parts, InLog r.leaderIds x ∧ x.index + 1 < nextIndex (r.acknowledged e)

variable {r r' : Round NID N D} {e : ProgressEntry NID} {allow : Bool}

/-- The entry of an idle target: its matching log id is shared, and no shared log id is behind the
    end of the search. -/
structure Inv (r : Round NID N D) (e : ProgressEntry NID) : Prop where
  idle : e.data.inflight = .none
  matching : InLogOpt r.leaderIds e.progress
  shared : nextIndex e.progress ≤ r.shared
  searching : r.shared ≤ e.data.searchingEnd
  searchingEnd : e.data.searchingEnd ≤ r.leaderIds.length

theorem Inv.isSearching (h : Inv r e) (hr : r.Fits) : Searching r.leaderIds r.leader e :=
  ⟨h.matching, h.shared.trans h.searching, hr.leader.nextIndex_last ▸ h.searchingEnd⟩

theorem Inv.eq_shared (h : Inv r e) (heq : nextIndex e.progress = e.data.searchingEnd) :
    nextIndex e.progress = r.shared := by
  have hshared := h.shared
  have hsearching := h.searching
  omega

/-- Acknowledgements inside a range, the last one of its end. -/
theorem foldl_updateMatching {H : List (LogId NID)} (hH : FullLog H) {id : Nat}
    (parts : List (LogId NID)) (range : LogIdRange NID) (hlast : InLogOpt H range.last)
    (hparts : ∀ x ∈ parts, InLog H x ∧ x.index + 1 < nextIndex range.last)
    {e : ProgressEntry NID} (he : e.data.inflight = .logs range id) :
    (parts.map some ++ [range.last]).foldl
        (fun e m => ProgressEntry.updateMatching e m (some id)) e =
      { e with
        progress := range.last
        data := { e.data with
          inflight := .none
          searchingEnd := max e.data.searchingEnd (nextIndex range.last) } } := by
  induction parts generalizing e range with
  | nil =>
    show ProgressEntry.updateMatching e range.last (some id) = _
    unfold ProgressEntry.updateMatching Inflight.ack Inflight.newLogs
    rw [he]
    simp
  | cons x parts ih =>
    obtain ⟨hx, hlt⟩ := hparts x (by simp)
    have hnew : Inflight.newLogs (some x) range.last id = .logs ⟨some x, range.last⟩ id := by
      unfold Inflight.newLogs
      rw [if_neg]
      rw [hH.le_iff hlast hx.opt, nextIndex_some]
      omega
    have hstep : ProgressEntry.updateMatching e (some x) (some id) =
        { e with
          progress := some x
          data := { e.data with
            inflight := .logs ⟨some x, range.last⟩ id
            searchingEnd := max e.data.searchingEnd (x.index + 1) } } := by
      unfold ProgressEntry.updateMatching Inflight.ack
      rw [he]
      simp [hnew]
    rw [List.map_cons, List.cons_append, List.foldl_cons, hstep,
      ih ⟨some x, range.last⟩ hlast (fun y hy => hparts y (by simp [hy])) rfl]
    have hmax : max (max e.data.searchingEnd (x.index + 1)) (nextIndex range.last) =
        max e.data.searchingEnd (nextIndex range.last) := by omega
    simp only [hmax]

/-- A round in which a range of logs is sent. -/
structure Shrinks (r : Round NID N D) (e e' : ProgressEntry NID) : Prop where
  smaller : e'.data.searchingEnd - nextIndex e'.progress <
    e.data.searchingEnd - nextIndex e.progress
  matching : e.progress ≤ e'.progress
  conflict : ∀ range id, r.sent e = some (.logs range id) → ∀ index,
    r.target.answerProbe range.prev = .conflict index → nextIndex e.progress ≤ index

/-- What an idle target is sent: a probe, a snapshot, or a stream from its matching log id, which
    is then the end of the search. -/
theorem sent_cases (hr : r.Fits) (h : Inv r e) (hlimit : LimitFits e r.leader r.maxEntries) :
    (∃ range id, r.sent e = some (.logs range id) ∧ IsProbe r.leaderIds r.leader e range ∧
        (e.nextSend r.leader r.maxEntries).1 =
          { e with data := { e.data with inflight := .logs range id } }) ∨
      (∃ id, r.sent e = some (.snapshot id)) ∨
      ∃ id, r.sent e = some (.logsSince e.progress id) ∧
        nextIndex e.progress = e.data.searchingEnd := by
  obtain ⟨action, hsend, hcases⟩ := nextSend_cases hr.leader (h.isSearching hr) h.idle r.maxEntries
  unfold sent
  rw [hsend]
  rcases hcases with ⟨-, rfl⟩ | ⟨-, -, -, rfl⟩ | ⟨-, range, hprobe, rfl⟩ | ⟨-, heq, rfl⟩ |
    ⟨hwraps, -⟩
  · exact Or.inr (Or.inl ⟨_, rfl⟩)
  · exact Or.inr (Or.inl ⟨_, rfl⟩)
  · exact Or.inl ⟨range, _, rfl, hprobe, rfl⟩
  · exact Or.inr (Or.inr ⟨_, rfl, heq⟩)
  · exact absurd hlimit hwraps

/-- The step lemma: a probe and its answer. -/
theorem probe_step (allow : Bool) (hr : r.Fits) (h : Inv r e) {range : LogIdRange NID} {id : Nat}
    (hsent : r.sent e = some (.logs range id)) (hprobe : IsProbe r.leaderIds r.leader e range)
    (hsend : (e.nextSend r.leader r.maxEntries).1 =
      { e with data := { e.data with inflight := .logs range id } })
    (hnext : Next e r r') :
    Inv r' (r.finish allow e) ∧ Shrinks r e (r.finish allow e) := by
  obtain ⟨-, hmatching, hshared, hsearching, hend⟩ := h
  have hprobing := hprobe.probing
  have hprev := hprobe.matching_le
  have hprevEnd := hprobe.searching
  have hnonempty := hprobe.nonempty
  have hlast := hprobe.last.nextIndex_le
  obtain ⟨hgrows, hkept, hstored, hgot, hparts⟩ := hnext
  have hlen := hgrows.length_le
  unfold acknowledged at hstored hgot hparts
  rw [hsent] at hstored hgot hparts
  unfold finish
  rw [hsend, hsent]
  dsimp only at hstored hgot hparts ⊢
  rcases hr.target.answerProbe hprobe.prev with ⟨hsuccess, -⟩ | ⟨c, hconflict, hc, hbelow⟩
  · rw [hsuccess] at hstored hgot hparts ⊢
    dsimp only at hstored hgot hparts ⊢
    rw [foldl_updateMatching hr.leader.full r.parts range hprobe.last hparts rfl]
    refine ⟨⟨rfl, hprobe.last.mono hgrows, hstored, ?_, ?_⟩, ⟨?_, ?_, ?_⟩⟩
    · show r'.shared ≤ max e.data.searchingEnd (nextIndex range.last)
      omega
    · show max e.data.searchingEnd (nextIndex range.last) ≤ r'.leaderIds.length
      omega
    · show max e.data.searchingEnd (nextIndex range.last) - nextIndex range.last < _
      omega
    · exact (hr.leader.full.le_iff hmatching hprobe.last).2 (by omega)
    · intro range' id' hsent' index hanswer
      rw [hsent] at hsent'
      cases hsent'
      rw [hsuccess] at hanswer
      cases hanswer
  · rw [hconflict] at hstored hgot hparts ⊢
    dsimp only at hstored hgot hparts ⊢
    have hbelow : r.shared ≤ c := hbelow
    have hshared_c : nextIndex e.progress ≤ c := hshared.trans hbelow
    have hresult : ProgressEntry.updateConflicting allow
        { e with data := { e.data with inflight := .logs range id } } c (some id) =
          { e with data := { e.data with inflight := .none, searchingEnd := c } } := by
      unfold ProgressEntry.updateConflicting Inflight.conflict
      simp only [if_true, Bool.not_true, Bool.false_eq_true, if_false]
      rw [if_neg (by omega), if_neg (by simp; omega)]
    rw [hresult]
    refine ⟨⟨rfl, hmatching.mono hgrows, hshared.trans hkept, ?_, ?_⟩, ⟨?_, le_rfl, ?_⟩⟩
    · show r'.shared ≤ c
      rw [nextIndex_none] at hgot
      omega
    · show c ≤ r'.leaderIds.length
      omega
    · show c - nextIndex e.progress < _
      omega
    · intro range' id' hsent' index hanswer
      rw [hsent] at hsent'
      cases hsent'
      rw [hconflict] at hanswer
      cases hanswer
      exact hshared_c

/-- The entry after a number of rounds. -/
def entryAfter (allow : Bool) (rs : Nat → Round NID N D) (e : ProgressEntry NID) :
    Nat → ProgressEntry NID
  | 0 => e
  | n + 1 => (rs n).finish allow (entryAfter allow rs e n)

theorem entryAfter_succ (allow : Bool) (rs : Nat → Round NID N D) (e : ProgressEntry NID)
    (n : Nat) : entryAfter allow (fun k => rs (k + 1)) ((rs 0).finish allow e) n =
      entryAfter allow rs e (n + 1) := by
  induction n with
  | zero => rfl
  | succ n ih =>
    show (rs (n + 1)).finish allow _ = (rs (n + 1)).finish allow _
    rw [ih]

/-- Every probe is answered by an intact target, with log ids that the leader has appended and
    with what the target has stored since. -/
def Goes (allow : Bool) (rs : Nat → Round NID N D) (e : ProgressEntry NID) : Prop :=
  ∀ n range id, (rs n).sent (entryAfter allow rs e n) = some (.logs range id) →
    Next (entryAfter allow rs e n) (rs n) (rs (n + 1))

theorem Goes.tail {rs : Nat → Round NID N D} (h : Goes allow rs e) :
    Goes allow (fun k => rs (k + 1)) ((rs 0).finish allow e) := by
  intro n range id hsent
  rw [entryAfter_succ] at hsent ⊢
  exact h (n + 1) range id hsent

/-- Where the search ends: a snapshot is sent, or the entry streams from the last log id that the
    target shares with the leader, which is not before the last one shared at the start. -/
def Ends (rs : Nat → Round NID N D) (n : Nat) (e : ProgressEntry NID) : Prop :=
  (∃ id, (rs n).sent e = some (.snapshot id)) ∨
    ∃ id, (rs n).sent e = some (.logsSince e.progress id) ∧
      nextIndex e.progress = (rs n).shared ∧ (rs 0).shared ≤ (rs n).shared

/-- With a limit that fits in every round, a round of a probe and its answer makes the searched
    range smaller, keeps or raises the matching log id and reports no conflict below it. After at
    most as many rounds as the range is long the search ends. -/
theorem search_ends (rs : Nat → Round NID N D) (hfits : ∀ n, (rs n).Fits)
    (hinv : Inv (rs 0) e) (hgoes : Goes allow rs e)
    (hlimit : ∀ n, LimitFits (entryAfter allow rs e n) (rs n).leader (rs n).maxEntries) :
    ∃ n ≤ e.data.searchingEnd - nextIndex e.progress,
      (∀ k < n, (∃ range id, (rs k).sent (entryAfter allow rs e k) = some (.logs range id)) ∧
        Shrinks (rs k) (entryAfter allow rs e k) (entryAfter allow rs e (k + 1))) ∧
      Ends rs n (entryAfter allow rs e n) := by
  obtain ⟨d, hd⟩ : ∃ d, e.data.searchingEnd - nextIndex e.progress ≤ d := ⟨_, le_rfl⟩
  induction d generalizing rs e with
  | zero =>
    refine ⟨0, Nat.zero_le _, nofun, ?_⟩
    rcases sent_cases (hfits 0) hinv (hlimit 0) with ⟨range, id, -, hprobe, -⟩ | hsnapshot |
      ⟨id, hsent, heq⟩
    · have := hprobe.probing
      omega
    · exact Or.inl hsnapshot
    · exact Or.inr ⟨id, hsent, hinv.eq_shared heq, le_rfl⟩
  | succ d ih =>
    rcases sent_cases (hfits 0) hinv (hlimit 0) with ⟨range, id, hsent, hprobe, hsend⟩ |
      hsnapshot | ⟨id, hsent, heq⟩
    · have hnext := hgoes 0 range id hsent
      obtain ⟨hinv', hshrinks⟩ := probe_step allow (hfits 0) hinv hsent hprobe hsend hnext
      have hsmaller := hshrinks.smaller
      obtain ⟨n, hn, hbefore, hends⟩ := ih (fun k => rs (k + 1)) (fun k => hfits (k + 1)) hinv'
        hgoes.tail (fun k => entryAfter_succ allow rs e k ▸ hlimit (k + 1)) (by omega)
      refine ⟨n + 1, by omega, ?_, ?_⟩
      · intro k hk
        cases k with
        | zero => exact ⟨⟨range, id, hsent⟩, hshrinks⟩
        | succ k =>
          have hround := hbefore k (by omega)
          rw [entryAfter_succ, entryAfter_succ] at hround
          exact hround
      · rw [entryAfter_succ] at hends
        rcases hends with hsnapshot | ⟨id, hsent', heq, hle⟩
        · exact Or.inl hsnapshot
        · exact Or.inr ⟨id, hsent', heq, hnext.kept.trans hle⟩
    · exact ⟨0, Nat.zero_le _, nofun, Or.inl hsnapshot⟩
    · exact ⟨0, Nat.zero_le _, nofun, Or.inr ⟨id, hsent, hinv.eq_shared heq, le_rfl⟩⟩

end Round

namespace Probing

/-- A target that has the first log ids up to `n`. -/
def target (n : Nat) : Engine Nat Unit Unit :=
  .new (node none (idsTo n) none) ⟨1, .std, 0, 0, 1, 100, false, false⟩

/-- A leader with 17 log ids and a target that has three of them: the first probe, behind the log
    id at index 7, meets a conflict, and the second one sends the log from its start. -/
def rounds (n : Nat) : Round Nat Unit Unit :=
  ⟨node none (idsTo 17) none, idsTo 17, target (if n < 2 then 3 else 17),
    idsTo (if n < 2 then 3 else 17), 100, []⟩

def start : ProgressEntry Nat := .empty 1 0 17

theorem intact {n : Nat} (hfull : FullLog (idsTo n))
    (hshared : sharedLen (idsTo 17) (idsTo n) = n) :
    Intact (idsTo 17) (idsTo n) (target n).state := by
  refine ⟨hfull, ⟨rfl, InLogOpt.none⟩, le_rfl, Nat.zero_le _, fun i x _ hx => ?_⟩
  rw [hshared]
  have hlt := (List.getElem?_eq_some_iff.1 hx).1
  simpa [idsTo] using hlt

theorem rounds_fits (n : Nat) : (rounds n).Fits := by
  have hfull : FullLog (idsTo 17) := by decide
  refine ⟨⟨hfull, ⟨rfl, InLogOpt.none⟩, InLogOpt.none, le_rfl⟩, ?_, show 1 ≤ 100 by decide⟩
  unfold rounds
  dsimp only
  split
  · exact intact (by decide) (by decide)
  · exact intact hfull (by decide)

/-- From the fourth round on the stream is in flight. -/
theorem streaming (n : Nat) : Round.entryAfter false rounds start (n + 3) =
    ⟨1, some ⟨⟨2, none⟩, 16⟩, ⟨0, .logsSince (some ⟨⟨2, none⟩, 16⟩) 1, 17, false⟩⟩ := by
  induction n with
  | zero => rfl
  | succ n ih =>
    show (rounds (n + 3)).finish false (Round.entryAfter false rounds start (n + 3)) = _
    rw [ih]
    rfl

theorem rounds_goes : Round.Goes false rounds start := by
  intro n range id hsent
  match n, hsent with
  | 0, hsent => exact ⟨List.prefix_rfl, by decide, by decide, by decide, nofun⟩
  | 1, hsent => exact ⟨List.prefix_rfl, by decide, by decide, by decide, nofun⟩
  | 2, hsent => cases hsent
  | n + 3, hsent =>
    rw [streaming] at hsent
    cases hsent

theorem search_ends_seventeen :
    (target 3).answerProbe (some ⟨⟨2, none⟩, 7⟩) = .conflict 7 ∧
      ∃ n ≤ 17, (∀ k < n, Round.Shrinks (rounds k) (Round.entryAfter false rounds start k)
          (Round.entryAfter false rounds start (k + 1))) ∧
        Round.Ends rounds n (Round.entryAfter false rounds start n) := by
  have hinv : Round.Inv (rounds 0) start :=
    ⟨rfl, InLogOpt.none, Nat.zero_le _, by decide, by decide⟩
  have hlimit : ∀ n, LimitFits (Round.entryAfter false rounds start n) (rounds n).leader
      (rounds n).maxEntries := by
    unfold LimitFits
    intro n
    match n with
    | 0 | 1 | 2 => decide
    | n + 3 =>
      rw [streaming]
      exact (by decide : max (ProgressEntry.calcMid 17 17) 0 + 100 < 2 ^ 64)
  obtain ⟨n, hn, hbefore, hends⟩ := Round.search_ends rounds rounds_fits hinv rounds_goes hlimit
  exact ⟨by decide, n, hn, fun k hk => (hbefore k hk).2, hends⟩

/-- Leader and target of `nextSend_wraps`, with the largest limit. -/
def stalled : Round Nat Unit Unit :=
  ⟨node none (idsTo 2) none, idsTo 2, target 1, idsTo 1, 2 ^ 64 - 1, []⟩

def stalledEntry : ProgressEntry Nat := ⟨1, some ⟨⟨2, none⟩, 0⟩, ⟨0, .none, 2, false⟩⟩

/-- In every round nothing is sent, and the search never ends. -/
theorem search_stalls : stalled.Fits ∧ Round.Inv stalled stalledEntry ∧
    Round.Goes false (fun _ => stalled) stalledEntry ∧
    ∀ n, stalled.sent (Round.entryAfter false (fun _ => stalled) stalledEntry n) = some .none ∧
      ¬ Round.Ends (fun _ => stalled) n
        (Round.entryAfter false (fun _ => stalled) stalledEntry n) := by
  have hsent : stalled.sent stalledEntry = some .none := by decide
  have hsame : ∀ n, Round.entryAfter false (fun _ => stalled) stalledEntry n = stalledEntry := by
    intro n
    induction n with
    | zero => rfl
    | succ n ih =>
      show stalled.finish false (Round.entryAfter false (fun _ => stalled) stalledEntry n) = _
      rw [ih]
      rfl
  refine ⟨⟨⟨by decide, ⟨rfl, InLogOpt.none⟩, InLogOpt.none, le_rfl⟩,
    ⟨by decide, ⟨rfl, InLogOpt.none⟩, le_rfl, Nat.zero_le _, fun i x _ hx => ?_⟩, by decide⟩,
    ⟨rfl, by decide, by decide, by decide, by decide⟩, fun n range id h => ?_, fun n => ?_⟩
  · have hlt : i < 1 := (List.getElem?_eq_some_iff.1 hx).1
    exact hlt
  · dsimp only at h
    rw [hsame, hsent] at h
    cases h
  · rw [hsame]
    refine ⟨hsent, ?_⟩
    rintro (⟨id, h⟩ | ⟨id, h, -⟩) <;> exact absurd (hsent.symm.trans h) (by simp)

end Probing

end ZenohRaft
