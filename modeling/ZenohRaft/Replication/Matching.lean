/-
  What a follower keeps of the log of its leader, whatever requests of this leader reach it, in
  whatever order and how often.

  A request is a slice of the log of the leader. `MatchedUpTo L l s k` is the invariant: the log `l`
  of the follower is that of the leader below `k`, and has nothing of it from `k` on. A request that
  is accepted starts at or before `k` and moves `k` to its end, if that is further; one that is
  refused starts behind `k` and cuts nothing before it.

  * `keeps_answered`: once a follower has answered `Ok(last)`, it keeps all entries of the leader up
    to `last`. A conflict leaves what is before it.
  * `answered_lost`: this needs that a log id which both logs have stands for the same log up to
    there. Agreement on the committed part is not enough.
-/
import ZenohRaft.Log.Written
import ZenohRaft.Cluster

namespace ZenohRaft

open Lib

variable {NID N D : Type} [LinearOrder NID]

/-! ## Requests -/

/-- The log of a leader: the indexes count up from 0, and the leaders do not decrease. -/
structure OrderedLog (L : List (Entry NID N D)) : Prop where
  indexed : IndexedFrom 0 L
  sorted : L.Pairwise fun ent ent' => ent.logId.leaderId ≤ ent'.logId.leaderId

/-- In the log of a leader, log ids are in the order of the indexes. -/
theorem OrderedLog.nextIndex_le {L : List (Entry NID N D)} (hL : OrderedLog L)
    {a b : Option (LogId NID)} (ha : Holds L a) (hb : Holds L b) (hle : a ≤ b) :
    nextIndex a ≤ nextIndex b := by
  cases a with
  | none => exact Nat.zero_le _
  | some x =>
    cases b with
    | none => exact absurd hle (not_le.2 Option.none_lt_some)
    | some y =>
      rw [nextIndex_some, nextIndex_some]
      by_contra hlt
      obtain ⟨ex, hex, hx⟩ := (hasId_iff_getElem? hL.indexed).1 (holds_some.1 ha)
      obtain ⟨ey, hey, hy⟩ := (hasId_iff_getElem? hL.indexed).1 (holds_some.1 hb)
      obtain ⟨hxl, hxe⟩ := List.getElem?_eq_some_iff.1 hex
      obtain ⟨hyl, hye⟩ := List.getElem?_eq_some_iff.1 hey
      have hleader := List.pairwise_iff_getElem.1 hL.sorted y.index x.index hyl hxl (by omega)
      rw [hxe, hye, hx, hy] at hleader
      rcases LogId.le_iff.1 (Option.some_le_some.1 hle) with hl | ⟨-, hi⟩
      · exact absurd hleader (not_le.2 hl)
      · omega

/-- A request that reaches a follower. -/
structure Delivery (NID N D : Type) where
  now : Nat
  ctx : StreamCtx NID
  req : AppendEntriesRequest NID N D

/-- A request of the leader `V`: a slice of its log, and a log id that is committed. The log only
    grows, so what was a slice of it when the request was sent still is. -/
structure Delivery.IsSlice (V : LeaderId NID) (L : List (Entry NID N D)) (d : Delivery NID N D) :
    Prop where
  vote : d.req.vote = ⟨V, true⟩
  slice : Slice L d.req.prevLogId d.req.entries
  committed : Holds L d.req.leaderCommit

namespace LoggedEngine

/-- `RaftCore::handle_append_entries_request`. -/
def receive (s : LoggedEngine NID N D) (d : Delivery NID N D) : LoggedEngine NID N D :=
  let e := s.drained.handleAppendEntries d.now d.ctx d.req.vote d.req.prevLogId d.req.entries
  s.after { e with
    state := e.state.updateCommitted e.config.mode ⟨d.req.vote.leaderId, d.req.leaderCommit⟩ }

/-- What a request is answered. -/
def answer (s : LoggedEngine NID N D) (d : Delivery NID N D) :
    Option (Except (StreamAppendError NID) (Option (LogId NID))) :=
  match (s.receive d).engine.output.commands.getLast? with
  | some (.respond _ (.appendEntries _ result)) => some result
  | _ => none

/-- The follower after some requests. -/
def receiveAll (s : LoggedEngine NID N D) (ds : List (Delivery NID N D)) : LoggedEngine NID N D :=
  ds.foldl receive s

/-! ## Agreement -/

/-- A follower agrees with the log of the leader `V` on what it knows to be committed. Its log is in
    order, and if it has accepted entries of this leader they are in its log. -/
structure AgreesOnCommitted (V : LeaderId NID) (L : List (Entry NID N D))
    (s : LoggedEngine NID N D) : Prop where
  other : V.nodeId ≠ s.engine.config.id
  ids : s.engine.state.logIds.ids = s.entries.map Entry.logId
  consecutive : s.engine.state.logIds.Consecutive
  purged : s.engine.state.logIds.firstIndex ≤ nextIndex s.engine.state.localCommitted
  length : nextIndex s.engine.state.localCommitted ≤ nextIndex s.engine.state.logIds.last
  committed : Holds L s.engine.state.localCommitted
  cluster : ∀ io, s.engine.state.ioState.clusterCommitted = some io → Holds L io.logId
  entries : ∀ ent ∈ s.entries, ent.logId.index < nextIndex s.engine.state.localCommitted → ent ∈ L
  accepted : Vote.ge s.engine.config.mode ⟨V, true⟩ s.engine.state.voteRef = true →
    ∃ a, s.engine.state.acceptedLogIo = some a ∧
      if s.engine.state.voteRef = ⟨V, true⟩ then a.toVote = ⟨V, true⟩ ∧
        Holds L a.lastLogId ∧ ∀ x, a.lastLogId = some x → s.engine.state.hasLogId x = true
      else a.toVote.rank s.engine.config.mode < Vote.rank s.engine.config.mode ⟨V, true⟩

end LoggedEngine

/-- A log id that both logs have stands for the same entries up to there. -/
def LogMatching (L l : List (Entry NID N D)) : Prop :=
  ∀ ent ∈ l, HasId L ent.logId → ∀ ent' ∈ l, ent'.logId.index ≤ ent.logId.index → ent' ∈ L

/-! ## The matched part -/

/-- The log `l` of the state `s` is that of the leader below `k`, and has nothing of it from `k`
    on. -/
structure MatchedUpTo (L l : List (Entry NID N D)) (s : RaftState NID N) (k : Nat) : Prop where
  ids : s.logIds.ids = l.map Entry.logId
  consecutive : s.logIds.Consecutive
  purged : s.logIds.firstIndex ≤ nextIndex s.localCommitted
  committed : nextIndex s.localCommitted ≤ k
  length : k ≤ s.logIds.firstIndex + l.length
  same : ∀ ent ∈ l, ent.logId.index < k → ent ∈ L
  differ : ∀ ent ∈ l, k ≤ ent.logId.index → ¬ HasId L ent.logId

namespace MatchedUpTo

variable {L l : List (Entry NID N D)} {s : RaftState NID N} {k : Nat}

omit [LinearOrder NID] in
theorem indexed (h : MatchedUpTo L l s k) : IndexedFrom s.logIds.firstIndex l :=
  LogIds.indexedFrom_of_consecutive h.ids h.consecutive

omit [LinearOrder NID] in
/-- What is found behind the purged logs is an entry of the log. -/
theorem exists_entry (h : MatchedUpTo L l s k) {i : Nat} {x : LogId NID}
    (hi : s.logIds.firstIndex ≤ i) (hx : s.getLogId i = some x) : ∃ ent ∈ l, ent.logId = x := by
  have hx : s.logIds.refAt i = some x := hx
  unfold LogIds.refAt at hx
  rw [if_neg (not_lt.2 hi)] at hx
  have hmem := List.mem_of_find?_eq_some hx
  rw [h.ids] at hmem
  exact List.mem_map.1 hmem

/-- A log id of the leader is present exactly in the matched part. -/
theorem hasLogId_iff (h : MatchedUpTo L l s k) (hL : IndexedFrom 0 L) {x : LogId NID}
    (hx : HasId L x) : s.hasLogId x = true ↔ x.index < k := by
  have hcom := h.committed
  have hpurged := h.purged
  unfold RaftState.hasLogId
  by_cases hlt : x.index < nextIndex s.localCommitted
  · rw [if_pos hlt]
    exact ⟨fun _ => by omega, fun _ => rfl⟩
  · rw [if_neg hlt, decide_eq_true_eq]
    constructor
    · intro hget
      obtain ⟨ent, hent, rfl⟩ := h.exists_entry (by omega) hget
      by_contra hge
      exact h.differ ent hent (by omega) hx
    · intro hk
      have hlen := h.length
      have hlast := h.consecutive.nextIndex_last
      rw [h.ids, List.length_map] at hlast
      obtain ⟨y, hy⟩ := h.consecutive.exists_refAt (i := x.index) (by omega) (by omega)
      have hyi := LogIds.refAt_index hy
      obtain ⟨ent, hent, rfl⟩ := h.exists_entry (by omega) hy
      have hin := h.same ent hent (by omega)
      have hid : HasId L ent.logId := (hasId_iff_mem hL).2 ⟨ent, hin, rfl⟩
      rw [← hid.eq_of_index hx hyi]
      rw [hyi]
      exact hy

open Classical in
/-- Two logs that agree on what is committed, and on what is before a common log id, have a matched
    part. -/
theorem exists_of_agrees {V : LeaderId NID} {s : LoggedEngine NID N D}
    (hs : s.AgreesOnCommitted V L) (hmatch : LogMatching L s.entries) :
    ∃ k, MatchedUpTo L s.entries s.engine.state k := by
  have hlast := hs.consecutive.nextIndex_last
  rw [hs.ids, List.length_map] at hlast
  have hindexed := LogIds.indexedFrom_of_consecutive hs.ids hs.consecutive
  -- where the last common log id ends
  obtain ⟨Q, hQ⟩ : ∃ Q : Nat → Prop, Q = fun k =>
    ∃ ent ∈ s.entries, HasId L ent.logId ∧ ent.logId.index + 1 = k := ⟨_, rfl⟩
  obtain ⟨g, hg⟩ : ∃ g, g = Nat.findGreatest Q (nextIndex s.engine.state.logIds.last) := ⟨_, rfl⟩
  have hgle : g ≤ nextIndex s.engine.state.logIds.last := by
    rw [hg]
    exact Nat.findGreatest_le _
  have hcom := hs.length
  refine ⟨max g (nextIndex s.engine.state.localCommitted), hs.ids, hs.consecutive, hs.purged,
    le_max_right _ _, by omega, ?_, ?_⟩
  · intro ent hent hlt
    rcases lt_max_iff.1 hlt with hlt | hlt
    · have hspec : Q g := Nat.findGreatest_of_ne_zero hg.symm (by omega)
      rw [hQ] at hspec
      obtain ⟨ent0, hent0, hid, heq⟩ := hspec
      exact hmatch ent0 hent0 hid ent hent (by omega)
    · exact hs.entries ent hent hlt
  · intro ent hent hle hid
    obtain ⟨i, hi⟩ := List.mem_iff_getElem?.1 hent
    have hidx := hindexed i ent hi
    have hlen := (List.getElem?_eq_some_iff.1 hi).1
    have hle' : ent.logId.index + 1 ≤ g := by
      rw [hg]
      refine Nat.le_findGreatest (by omega) ?_
      rw [hQ]
      exact ⟨ent, hent, hid, rfl⟩
    omega

section

omit [LinearOrder NID]

theorem congr (h : MatchedUpTo L l s k) {s' : RaftState NID N} (hids : s'.logIds = s.logIds)
    (hcom : s'.localCommitted = s.localCommitted) : MatchedUpTo L l s' k :=
  ⟨by rw [hids]; exact h.ids, by rw [hids]; exact h.consecutive,
    by rw [hids, hcom]; exact h.purged, by rw [hcom]; exact h.committed,
    by rw [hids]; exact h.length, h.same, h.differ⟩

/-- Cutting the log behind the matched part. -/
theorem truncate (h : MatchedUpTo L l s k) {since : Nat} (hk : k ≤ since) {s' : RaftState NID N}
    (hids : s'.logIds = s.logIds.truncate since) (hcom : s'.localCommitted = s.localCommitted) :
    MatchedUpTo L (l.filter fun ent => decide (ent.logId.index < since)) s' k := by
  have hfirst : s'.logIds.firstIndex = s.logIds.firstIndex := by
    rw [hids]
    rfl
  refine ⟨?_, ?_, ?_, ?_, ?_, ?_, ?_⟩
  · rw [hids]
    show s.logIds.ids.filter _ = _
    rw [h.ids, List.filter_map]
    rfl
  · rw [hids]
    exact h.consecutive.truncate since
  · rw [hfirst, hcom]
    exact h.purged
  · rw [hcom]
    exact h.committed
  · have hlen := h.length
    rw [hfirst, h.indexed.filter_lt since, List.length_take]
    omega
  · intro ent hent hlt
    exact h.same ent (List.mem_filter.1 hent).1 hlt
  · intro ent hent hle
    exact h.differ ent (List.mem_filter.1 hent).1 hle

/-- The matched part, and behind it what a request has from there on. -/
theorem append (h : MatchedUpTo L l s k) (hL : IndexedFrom 0 L) {pre es post : List (Entry NID N D)}
    (hslice : L = pre ++ es ++ post) (hpre : pre.length ≤ k) (hlt : k < pre.length + es.length)
    {s' : RaftState NID N} (hcom : s'.localCommitted = s.localCommitted)
    (hids : s'.logIds = (s.logIds.truncate k).extend ((es.drop (k - pre.length)).map Entry.logId)) :
    MatchedUpTo L (l.filter (fun ent => decide (ent.logId.index < k)) ++
        es.drop (k - pre.length)) s'
      (pre.length + es.length) := by
  have hfirst : s'.logIds.firstIndex = s.logIds.firstIndex := by
    rw [hids]
    rfl
  have hids' : s'.logIds.ids = (l.filter (fun ent => decide (ent.logId.index < k)) ++
      es.drop (k - pre.length)).map Entry.logId := by
    rw [hids, List.map_append]
    show s.logIds.ids.filter _ ++ _ = _
    rw [h.ids, List.filter_map]
    rfl
  have hlen := h.length
  have hpurged := h.purged
  have hcommitted := h.committed
  rw [h.indexed.filter_lt k] at hids' ⊢
  -- the indexes of the part that is appended go on from `k`
  have hes : IndexedFrom pre.length es := by
    rw [hslice] at hL
    have := (indexedFrom_append.1 (indexedFrom_append.1 hL).1).2
    rwa [Nat.zero_add] at this
  have hdrop : IndexedFrom k (es.drop (k - pre.length)) := by
    intro i ent hent
    rw [List.getElem?_drop] at hent
    have := hes _ ent hent
    omega
  have hindexed : IndexedFrom s'.logIds.firstIndex
      (l.take (k - s.logIds.firstIndex) ++ es.drop (k - pre.length)) := by
    refine indexedFrom_append.2 ⟨?_, ?_⟩
    · rw [hfirst]
      exact h.indexed.of_le (List.take_prefix _ _)
    · rw [hfirst, List.length_take, show s.logIds.firstIndex +
        min (k - s.logIds.firstIndex) l.length = k by omega]
      exact hdrop
  have htotal : s.logIds.firstIndex + (l.take (k - s.logIds.firstIndex) ++
      es.drop (k - pre.length)).length = pre.length + es.length := by
    rw [List.length_append, List.length_take, List.length_drop]
    omega
  refine ⟨hids', LogIds.consecutive_of_indexed hids' hindexed, ?_, ?_, ?_, ?_, ?_⟩
  · rw [hfirst, hcom]
    exact hpurged
  · rw [hcom]
    omega
  · rw [hfirst]
    omega
  · intro ent hent _
    rcases List.mem_append.1 hent with hent | hent
    · obtain ⟨i, hi⟩ := List.mem_iff_getElem?.1 hent
      have hi' : (l.take (k - s.logIds.firstIndex))[i]? =
        if i < k - s.logIds.firstIndex then l[i]? else none := List.getElem?_take
      rw [hi] at hi'
      split at hi'
      · have := h.indexed i ent hi'.symm
        exact h.same ent (List.mem_of_getElem? hi'.symm) (by omega)
      · cases hi'
    · rw [hslice]
      exact List.mem_append_left _ (List.mem_append_right _ (List.mem_of_mem_drop hent))
  · intro ent hent hle
    obtain ⟨i, hi⟩ := List.mem_iff_getElem?.1 hent
    have hidx := hindexed i ent hi
    have := (List.getElem?_eq_some_iff.1 hi).1
    rw [hfirst] at hidx
    omega

end

end MatchedUpTo

namespace Engine

variable {V : LeaderId NID} {L l : List (Entry NID N D)} {e : Engine NID N D} {k : Nat}

/-- What `append_entries` writes of a request is what is behind the matched part. -/
theorem toAppend_eq (h : MatchedUpTo L l e.state k) (hL : IndexedFrom 0 L) {i : Nat}
    {es : List (Entry NID N D)} (hes : IndexedFrom i es) (hin : ∀ ent ∈ es, ent ∈ L) :
    e.toAppend es = es.drop (k - i) := by
  induction es generalizing i with
  | nil =>
    unfold toAppend
    rw [List.drop_nil, List.drop_nil]
  | cons ent es ih =>
    obtain ⟨hidx, hes⟩ := indexedFrom_cons.1 hes
    have hid : HasId L ent.logId :=
      (hasId_iff_mem hL).2 ⟨ent, hin ent List.mem_cons_self, rfl⟩
    have hiff := h.hasLogId_iff hL hid
    have hrest := ih hes fun a ha => hin a (List.mem_cons_of_mem _ ha)
    unfold toAppend at hrest ⊢
    rw [RaftState.firstConflictingIndex]
    by_cases hk : i < k
    · rw [if_pos (hiff.2 (by omega)), List.drop_succ_cons, hrest,
        show k - i = k - (i + 1) + 1 by omega, List.drop_succ_cons]
    · rw [if_neg (by rw [hiff]; omega), show k - i = 0 by omega]

/-- The engine follows the leader `V`, and its log is matched up to `k`. So is what it has
    accepted. -/
structure TracksLeader (V : LeaderId NID) (L l : List (Entry NID N D)) (e : Engine NID N D)
    (k : Nat) : Prop where
  other : V.nodeId ≠ e.config.id
  matched : MatchedUpTo L l e.state k
  voteRef : e.state.voteRef = ⟨V, true⟩
  accepted : ∃ x, e.state.acceptedLogIo = some (.log ⟨V, x⟩) ∧ Holds L x ∧ nextIndex x ≤ k
  committed : Holds L e.state.localCommitted
  cluster : ∀ io, e.state.ioState.clusterCommitted = some io → Holds L io.logId

theorem acceptLogIo_keeps (e : Engine NID N D) (io : IOId NID) :
    (e.acceptLogIo io).config = e.config ∧ (e.acceptLogIo io).output = e.output ∧
      (e.acceptLogIo io).state.logIds = e.state.logIds ∧
      (e.acceptLogIo io).state.voteRef = e.state.voteRef ∧
      (e.acceptLogIo io).state.localCommitted = e.state.localCommitted ∧
      (e.acceptLogIo io).state.ioState.clusterCommitted = e.state.ioState.clusterCommitted := by
  have heq := RaftState.acceptLogIo_eq e.config.mode e.state io
  refine ⟨rfl, rfl, ?_, ?_, ?_, ?_⟩
  · exact (congrArg RaftState.logIds heq).trans rfl
  · exact (congrArg RaftState.voteRef heq).trans rfl
  · exact (congrArg RaftState.localCommitted heq).trans rfl
  · exact (congrArg (fun s => s.ioState.clusterCommitted) heq).trans rfl

omit [LinearOrder NID] in
theorem truncateLogs_keeps (e : Engine NID N D) (since : Nat) :
    (e.truncateLogs since).config = e.config ∧
      (e.truncateLogs since).state.ioState = e.state.ioState ∧
      (e.truncateLogs since).state.voteRef = e.state.voteRef := by
  unfold truncateLogs
  split
  · exact ⟨rfl, rfl, rfl⟩
  · exact ⟨rfl, rfl, rfl⟩

/-- The cursor after `accept_log_io`: what is accepted now, or what was before. -/
theorem acceptLogIo_accepted {x : Option (LogId NID)}
    (haccepted : ∃ x, e.state.acceptedLogIo = some (.log ⟨V, x⟩) ∧ Holds L x ∧ nextIndex x ≤ k)
    (hx : Holds L x) {k' : Nat} (hk : k ≤ k') (hxk : nextIndex x ≤ k') :
    ∃ y, (e.acceptLogIo (.newLogIo V x)).state.acceptedLogIo = some (.log ⟨V, y⟩) ∧ Holds L y ∧
      nextIndex y ≤ k' := by
  obtain ⟨y, hy, hyL, hyk⟩ := haccepted
  have hacc : (e.acceptLogIo (.newLogIo V x)).state.acceptedLogIo =
      e.state.nextAccepted e.config.mode (.newLogIo V x) := by
    unfold Engine.acceptLogIo
    rw [RaftState.acceptLogIo_eq]
    rfl
  rw [hacc]
  unfold RaftState.nextAccepted
  split
  · exact ⟨x, rfl, hx, hxk⟩
  · exact ⟨y, hy, hyL, hyk.trans hk⟩

theorem nextIndex_max_le {a b : Option (LogId NID)} {n : Nat} (ha : nextIndex a ≤ n)
    (hb : nextIndex b ≤ n) : nextIndex (max a b) ≤ n := by
  rcases max_choice a b with h | h
  · rw [h]
    exact ha
  · rw [h]
    exact hb

omit [LinearOrder NID] in
/-- The end of the first part of a log. -/
theorem holds_tipId_of_slice (hL : IndexedFrom 0 L) {pre post : List (Entry NID N D)}
    (hslice : L = pre ++ post) : Holds L (tipId pre) ∧ nextIndex (tipId pre) = pre.length := by
  have hle : pre <+: L := by
    rw [hslice]
    exact List.prefix_append _ _
  have hpre := hL.of_le hle
  exact ⟨(holds_tipId hpre).mono hle, nextIndex_tipId hpre⟩

/-- A request that starts behind the matched part is refused. -/
theorem tracksLeader_conflict {l0 : List (Entry NID N D)}
    (h : TracksLeader V L (e.written l0) e k) (hL : IndexedFrom 0 L) {prev : LogId NID}
    (hprev : HasId L prev) (hnot : e.state.hasLogId prev = false) :
    TracksLeader V L ((e.truncateLogs prev.index).written l0) (e.truncateLogs prev.index) k ∧
      (e.truncateLogs prev.index).state.logIds.purged = e.state.logIds.purged ∧
      ((e.truncateLogs prev.index).written l0).filter
          (fun ent => decide (ent.logId.index < prev.index)) =
        (e.written l0).filter fun ent => decide (ent.logId.index < prev.index) := by
  have hk : k ≤ prev.index := by
    by_contra hlt
    rw [(h.matched.hasLogId_iff hL hprev).2 (by omega)] at hnot
    cases hnot
  have hfirst := (h.matched.purged.trans h.matched.committed).trans hk
  obtain ⟨hwritten, hids⟩ := truncateLogs_written h.matched.ids h.matched.consecutive hfirst
  obtain ⟨hconfig, hio, hvote⟩ := truncateLogs_keeps e prev.index
  have hcom : (e.truncateLogs prev.index).state.localCommitted = e.state.localCommitted :=
    congrArg (fun io => io.applyProgress.accepted) hio
  have hacc : (e.truncateLogs prev.index).state.acceptedLogIo = e.state.acceptedLogIo :=
    congrArg (fun io => io.logProgress.accepted) hio
  refine ⟨⟨by rw [hconfig]; exact h.other, ?_, by rw [hvote]; exact h.voteRef,
    by rw [hacc]; exact h.accepted, by rw [hcom]; exact h.committed,
    by rw [hio]; exact h.cluster⟩, by rw [hids]; rfl, ?_⟩
  · rw [hwritten]
    exact h.matched.truncate hk hids hcom
  · rw [hwritten, List.filter_filter]
    refine List.filter_congr fun ent _ => ?_
    rw [Bool.and_self]

/-- A request that starts in the matched part is accepted, and moves it to its end. -/
theorem tracksLeader_append {l0 : List (Entry NID N D)}
    (h : TracksLeader V L (e.written l0) e k) (hL : IndexedFrom 0 L)
    {pre es post : List (Entry NID N D)} (hslice : L = pre ++ es ++ post) (hpre : pre.length ≤ k) :
    ∃ k', k ≤ k' ∧ pre.length + es.length ≤ k' ∧
      TracksLeader V L ((e.followingAppendEntries (tipId pre) es).written l0)
        (e.followingAppendEntries (tipId pre) es) k' ∧
      (e.followingAppendEntries (tipId pre) es).state.logIds.purged = e.state.logIds.purged := by
  have hes : IndexedFrom pre.length es := by
    rw [hslice] at hL
    have hes := (indexedFrom_append.1 (indexedFrom_append.1 hL).1).2
    rwa [Nat.zero_add] at hes
  have hin : ∀ ent ∈ es, ent ∈ L := by
    intro ent hent
    rw [hslice]
    exact List.mem_append_left _ (List.mem_append_right _ hent)
  have htoAppend := toAppend_eq h.matched hL hes hin
  obtain ⟨k', hk'⟩ : ∃ k', k' = max k (pre.length + es.length) := ⟨_, rfl⟩
  -- the io that is accepted
  obtain ⟨x, hx⟩ : ∃ x, x = max (tipId pre) (tipId es) := ⟨_, rfl⟩
  have hio : e.acceptedIo (tipId pre) es = .newLogIo V x := by
    unfold acceptedIo
    rw [h.voteRef, hx]
    rfl
  have hxL : Holds L x ∧ nextIndex x ≤ k' := by
    obtain ⟨hpreL, hpreI⟩ := holds_tipId_of_slice hL (show L = pre ++ (es ++ post) by
      rw [hslice, List.append_assoc])
    obtain ⟨hesL, hesI⟩ := holds_tipId_of_slice hL hslice
    rw [hx]
    by_cases hnil : es = []
    · rw [hnil]
      exact ⟨holds_max hpreL holds_none, nextIndex_max_le (by omega) (Nat.zero_le _)⟩
    · rw [tipId_append hnil, List.length_append] at *
      exact ⟨holds_max hpreL hesL, nextIndex_max_le (by omega) (by omega)⟩
  obtain ⟨e1, he1⟩ : ∃ e1, e1 = e.acceptLogIo (.newLogIo V x) := ⟨_, rfl⟩
  have hacc : ∃ y, e1.state.acceptedLogIo = some (.log ⟨V, y⟩) ∧ Holds L y ∧ nextIndex y ≤ k' := by
    rw [he1]
    exact acceptLogIo_accepted h.accepted hxL.1 (by omega) hxL.2
  have hkeep := acceptLogIo_keeps e (.newLogIo V x)
  rw [← he1] at hkeep
  obtain ⟨hconfig, hout, hids1, hvote1, hcom1, hcluster1⟩ := hkeep
  have hwritten1 : e1.written l0 = e.written l0 := by
    unfold written
    rw [hout]
  by_cases hlt : k < pre.length + es.length
  · have hkeq : k' = pre.length + es.length := by omega
    obtain ⟨first, rest, hfirst⟩ : ∃ first rest, es.drop (k - pre.length) = first :: rest := by
      cases hd : es.drop (k - pre.length) with
      | nil =>
        have := List.drop_eq_nil_iff.1 hd
        omega
      | cons a rest => exact ⟨a, rest, rfl⟩
    have hindex : first.logId.index = k := by
      have hget : es[k - pre.length]? = some first := by
        have hhead : (es.drop (k - pre.length))[0]? = es[k - pre.length + 0]? := List.getElem?_drop
        rw [hfirst] at hhead
        exact hhead.symm
      have := hes _ first hget
      omega
    rw [hfirst] at htoAppend
    have hcut : e1.state.logIds.firstIndex ≤ k := by
      rw [hids1]
      exact h.matched.purged.trans h.matched.committed
    obtain ⟨hwritten2, hids2⟩ := truncateLogs_written (e := e1) (l := l0)
      (by rw [hids1, hwritten1]; exact h.matched.ids) (by rw [hids1]; exact h.matched.consecutive)
      hcut
    obtain ⟨hconfig2, hio2, hvote2⟩ := truncateLogs_keeps e1 k
    rw [hwritten1] at hwritten2
    rw [hids1] at hids2
    have heq : e.followingAppendEntries (tipId pre) es =
        (e1.truncateLogs k).doAppendEntries (first :: rest) := by
      rw [followingAppendEntries_cons htoAppend, hio, ← he1, hindex]
    rw [heq]
    refine ⟨k', by omega, by omega, ⟨?_, ?_, hvote2.trans (hvote1.trans h.voteRef), ?_, ?_, ?_⟩,
      (congrArg LogIds.purged hids2).trans rfl⟩
    · show V.nodeId ≠ (e1.truncateLogs k).config.id
      rw [hconfig2, hconfig]
      exact h.other
    · rw [doAppendEntries_written, hwritten2, hkeq, ← hfirst]
      refine h.matched.append hL hslice hpre hlt ?_ ?_
      · show (e1.truncateLogs k).state.localCommitted = _
        exact (congrArg (fun io => io.applyProgress.accepted) hio2).trans hcom1
      · show (e1.truncateLogs k).state.logIds.extend _ = _
        rw [hids2]
    · show ∃ y, (e1.truncateLogs k).state.acceptedLogIo = some (.log ⟨V, y⟩) ∧ _
      rw [show (e1.truncateLogs k).state.acceptedLogIo = e1.state.acceptedLogIo from
        congrArg (fun io => io.logProgress.accepted) hio2]
      exact hacc
    · show Holds L (e1.truncateLogs k).state.localCommitted
      rw [show (e1.truncateLogs k).state.localCommitted = e1.state.localCommitted from
        congrArg (fun io => io.applyProgress.accepted) hio2, hcom1]
      exact h.committed
    · show ∀ io, (e1.truncateLogs k).state.ioState.clusterCommitted = some io → _
      rw [hio2, hcluster1]
      exact h.cluster
  · have hkeq : k' = k := by omega
    rw [List.drop_eq_nil_iff.2 (by omega)] at htoAppend
    have hresult : TracksLeader V L (e1.written l0) e1 k := by
      refine ⟨by rw [hconfig]; exact h.other, ?_, hvote1.trans h.voteRef,
        by rw [← hkeq]; exact hacc,
        by rw [hcom1]; exact h.committed, by rw [hcluster1]; exact h.cluster⟩
      rw [hwritten1]
      exact h.matched.congr hids1 hcom1
    rw [followingAppendEntries_nil htoAppend, hio, ← he1]
    have hpurged : e1.state.logIds.purged = e.state.logIds.purged := by rw [hids1]
    refine ⟨k, le_rfl, by omega, ?_⟩
    split
    · exact ⟨hresult, hpurged⟩
    · rw [written_pushCommand]
      exact ⟨⟨hresult.other, hresult.matched, hresult.voteRef, hresult.accepted, hresult.committed,
        hresult.cluster⟩, hpurged⟩

/-- `update_vote` with the vote of the leader: the engine follows it. -/
theorem tracksLeader_updateVote {l0 : List (Entry NID N D)} {now : Nat} {e1 : Engine NID N D}
    (hother : V.nodeId ≠ e.config.id) (hmatched : MatchedUpTo L (e.written l0) e.state k)
    (hcommitted : Holds L e.state.localCommitted)
    (hcluster : ∀ io, e.state.ioState.clusterCommitted = some io → Holds L io.logId)
    (haccepted : ∃ a, e.state.acceptedLogIo = some a ∧
      if e.state.voteRef = ⟨V, true⟩ then
        a.toVote = ⟨V, true⟩ ∧ Holds L a.lastLogId ∧ nextIndex a.lastLogId ≤ k
      else a.toVote.rank e.config.mode < Vote.rank e.config.mode ⟨V, true⟩)
    (he1 : e.updateVote now ⟨V, true⟩ = (e1, true)) :
    TracksLeader V L (e1.written l0) e1 k ∧ e1.written l0 = e.written l0 ∧
      e1.state.logIds = e.state.logIds := by
  rcases updateVote_written hother now with hrej | ⟨e', he', hconfig, hvote, hids, hwritten, hio⟩
  · rw [hrej] at he1
    cases he1
  · obtain rfl : e' = e1 := congrArg Prod.fst (he'.symm.trans he1)
    obtain ⟨a, ha, hacc⟩ := haccepted
    have hcom : e'.state.localCommitted = e.state.localCommitted ∧
        e'.state.ioState.clusterCommitted = e.state.ioState.clusterCommitted := by
      rcases hio with ⟨-, hio⟩ | ⟨-, hio⟩
      · exact ⟨congrArg (fun io => io.applyProgress.accepted) hio, congrArg _ hio⟩
      · exact ⟨congrArg (fun io => io.applyProgress.accepted) hio,
          (congrArg IOState.clusterCommitted hio).trans rfl⟩
    refine ⟨⟨by rw [hconfig]; exact hother, ?_, hvote, ?_, by rw [hcom.1]; exact hcommitted,
      by rw [hcom.2]; exact hcluster⟩, hwritten l0, hids⟩
    · rw [hwritten]
      exact hmatched.congr hids hcom.1
    · rcases hio with ⟨hsame, hio⟩ | ⟨hlt, hio⟩
      · rw [if_pos hsame] at hacc
        refine ⟨a.lastLogId, ?_, hacc.2⟩
        have hio : e'.state.acceptedLogIo = e.state.acceptedLogIo :=
          congrArg (fun io => io.logProgress.accepted) hio
        rw [hio, ha]
        cases a with
        | vote l => cases hacc.1
        | log io =>
          obtain ⟨W, x⟩ := io
          obtain rfl : W = V := congrArg Vote.leaderId hacc.1
          rfl
      · -- an io of the new vote is behind all that was accepted
        have hne : e.state.voteRef ≠ ⟨V, true⟩ := by
          intro heq
          rw [heq] at hlt
          exact lt_irrefl _ hlt
        rw [if_neg hne] at hacc
        refine ⟨none, ?_, holds_none, Nat.zero_le _⟩
        have hio : e'.state.acceptedLogIo = e.state.nextAccepted e.config.mode (.new ⟨V, true⟩) :=
          congrArg (fun io => io.logProgress.accepted) hio
        rw [hio]
        unfold RaftState.nextAccepted
        have hgt : IOProgress.exceeds (IOId.gt e.config.mode) (.new ⟨V, true⟩)
            e.state.acceptedLogIo = true := by
          rw [ha]
          exact IOId.gt_iff.2 (Or.inl (by rw [IOId.toVote_new]; exact hacc))
        rw [if_pos hgt]
        rfl

/-- `update_committed` with what the leader has committed. -/
theorem tracksLeader_updateCommitted (h : TracksLeader V L l e k) (hL : OrderedLog L)
    {c : Option (LogId NID)} (hc : Holds L c) :
    TracksLeader V L l { e with state := e.state.updateCommitted e.config.mode ⟨V, c⟩ } k := by
  obtain ⟨x, hx, hxL, hxk⟩ := h.accepted
  obtain ⟨io1, hio1⟩ : ∃ io1, io1 = e.state.ioState.tryUpdateClusterCommitted e.config.mode
    ⟨V, c⟩ := ⟨_, rfl⟩
  -- the cursors that `try_update` leaves alone
  have hkeep : io1.logProgress = e.state.ioState.logProgress ∧
      io1.applyProgress = e.state.ioState.applyProgress ∧
      ∀ io, io1.clusterCommitted = some io → Holds L io.logId := by
    rw [hio1]
    unfold IOState.tryUpdateClusterCommitted
    split
    · refine ⟨rfl, rfl, fun io hio => ?_⟩
      obtain rfl := Option.some.inj hio
      exact hc
    · exact ⟨rfl, rfl, h.cluster⟩
  obtain ⟨hlog, happly, hcluster⟩ := hkeep
  have hx1 : io1.logProgress.accepted = some (.log ⟨V, x⟩) := by
    rw [hlog]
    exact hx
  have hcalc : Holds L (io1.calculateLocalCommitted e.config.mode) ∧
      nextIndex (io1.calculateLocalCommitted e.config.mode) ≤ k := by
    unfold IOState.calculateLocalCommitted
    rw [hx1]
    cases hcc : io1.clusterCommitted with
    | none => exact ⟨holds_none, Nat.zero_le _⟩
    | some cc =>
      dsimp only
      split
      · have hccL := hcluster cc hcc
        rcases min_choice x cc.logId with hmin | hmin
        · rw [hmin]
          exact ⟨hxL, hxk⟩
        · have hle := hL.nextIndex_le hccL hxL (min_eq_right_iff.1 hmin)
          rw [hmin]
          exact ⟨hccL, hle.trans hxk⟩
      · exact ⟨holds_none, Nat.zero_le _⟩
  have hstate : e.state.updateCommitted e.config.mode ⟨V, c⟩ =
      RaftState.updateLocalCommitted { e.state with ioState := io1 }
        (io1.calculateLocalCommitted e.config.mode) := by
    rw [hio1]
    rfl
  have hlocal : RaftState.localCommitted { e.state with ioState := io1 } =
      e.state.localCommitted := congrArg IOProgress.accepted happly
  rw [hstate]
  generalize io1.calculateLocalCommitted e.config.mode = c' at hcalc ⊢
  have hsame : TracksLeader V L l { e with state := { e.state with ioState := io1 } } k :=
    ⟨h.other, h.matched.congr rfl hlocal, h.voteRef, ⟨x, hx1, hxL, hxk⟩,
    by rw [show RaftState.localCommitted _ = _ from hlocal]; exact h.committed, hcluster⟩
  unfold RaftState.updateLocalCommitted
  cases c' with
  | none => exact hsame
  | some y =>
    dsimp only
    split
    · rename_i hlt
      have hle := hL.nextIndex_le hsame.committed hcalc.1 hlt.le
      exact ⟨h.other, ⟨h.matched.ids, h.matched.consecutive, hsame.matched.purged.trans hle,
        hcalc.2, h.matched.length, h.matched.same, h.matched.differ⟩, h.voteRef,
        ⟨x, hx1, hxL, hxk⟩, hcalc.1, hcluster⟩
    · exact hsame

end Engine

/-! ## Runs -/

namespace LoggedEngine

variable {V : LeaderId NID} {L : List (Entry NID N D)} {s : LoggedEngine NID N D}
variable {d : Delivery NID N D} {k : Nat}

/-- A follower that may follow the leader `V`, with the matched part of its log. -/
structure Accepts (V : LeaderId NID) (L : List (Entry NID N D)) (s : LoggedEngine NID N D)
    (k : Nat) : Prop where
  other : V.nodeId ≠ s.engine.config.id
  matched : MatchedUpTo L s.entries s.engine.state k
  committed : Holds L s.engine.state.localCommitted
  cluster : ∀ io, s.engine.state.ioState.clusterCommitted = some io → Holds L io.logId
  vote : Vote.ge s.engine.config.mode ⟨V, true⟩ s.engine.state.voteRef = true
  accepted : ∃ a, s.engine.state.acceptedLogIo = some a ∧
    if s.engine.state.voteRef = ⟨V, true⟩ then
      a.toVote = ⟨V, true⟩ ∧ Holds L a.lastLogId ∧ nextIndex a.lastLogId ≤ k
    else a.toVote.rank s.engine.config.mode < Vote.rank s.engine.config.mode ⟨V, true⟩

theorem Accepts.of_tracksLeader {e : Engine NID N D} {l : List (Entry NID N D)}
    (h : e.TracksLeader V L l k) : Accepts V L ⟨e, l⟩ k := by
  obtain ⟨x, hx, hxL, hxk⟩ := h.accepted
  refine ⟨h.other, h.matched, h.committed, h.cluster, ?_, .log ⟨V, x⟩, hx, ?_⟩
  · show Vote.ge _ _ e.state.voteRef = true
    rw [h.voteRef]
    exact Vote.ge_iff.2 (Or.inl rfl)
  · rw [if_pos (show e.state.voteRef = ⟨V, true⟩ from h.voteRef)]
    exact ⟨rfl, hxL, hxk⟩

/-- The answer is what `append_entries` returns. -/
theorem answer_eq (s : LoggedEngine NID N D) (d : Delivery NID N D) : s.answer d =
    some (s.drained.appendEntries d.now d.req.vote d.req.prevLogId d.req.entries).2 := by
  obtain ⟨condition, hlast⟩ : ∃ condition, (s.receive d).engine.output.commands.getLast? =
      some (.respond condition (.appendEntries d.ctx
        (s.drained.appendEntries d.now d.req.vote d.req.prevLogId d.req.entries).2)) :=
    ⟨_, List.getLast?_concat⟩
  unfold answer
  rw [hlast]

/-- The state behind a request: that of `append_entries`, with the committed log id. -/
theorem receive_eq (s : LoggedEngine NID N D) (d : Delivery NID N D) {e : Engine NID N D}
    {r : Except (StreamAppendError NID) (Option (LogId NID))}
    (h : s.drained.appendEntries d.now d.req.vote d.req.prevLogId d.req.entries = (e, r)) :
    (s.receive d).entries = e.written s.entries ∧
      (s.receive d).engine.config = e.config ∧
      (s.receive d).engine.state =
        e.state.updateCommitted e.config.mode ⟨d.req.vote.leaderId, d.req.leaderCommit⟩ := by
  unfold receive Engine.handleAppendEntries
  rw [h]
  exact ⟨Engine.written_pushCommand _ _ _, rfl, rfl⟩

theorem updateCommitted_logIds (mode : LeaderIdMode) (s : RaftState NID N) (io : LogIOId NID) :
    (s.updateCommitted mode io).logIds = s.logIds := by
  unfold RaftState.updateCommitted RaftState.updateLocalCommitted
  dsimp only
  split
  · rfl
  · split
    · rfl
    · rfl

/-- The state after a request, from that after `append_entries`. -/
theorem accepts_receive (hL : OrderedLog L) (hd : d.IsSlice V L) {e : Engine NID N D}
    {r : Except (StreamAppendError NID) (Option (LogId NID))}
    (happ : s.drained.appendEntries d.now d.req.vote d.req.prevLogId d.req.entries = (e, r))
    (h : e.TracksLeader V L (e.written s.entries) k) :
    Accepts V L (s.receive d) k ∧
      (s.receive d).engine.state.logIds.purged = e.state.logIds.purged := by
  obtain ⟨hentries, hconfig, hstate⟩ := s.receive_eq d happ
  have hcom := Accepts.of_tracksLeader (Engine.tracksLeader_updateCommitted h hL hd.committed)
  rw [hd.vote] at hstate
  generalize s.receive d = s' at *
  obtain ⟨e', l'⟩ := s'
  dsimp only at hentries hconfig hstate
  subst hentries
  refine ⟨⟨?_, ?_, ?_, ?_, ?_, ?_⟩, ?_⟩
  · show V.nodeId ≠ e'.config.id
    rw [hconfig]
    exact hcom.other
  · show MatchedUpTo L _ e'.state k
    rw [hstate]
    exact hcom.matched
  · show Holds L e'.state.localCommitted
    rw [hstate]
    exact hcom.committed
  · show ∀ io, e'.state.ioState.clusterCommitted = some io → _
    rw [hstate]
    exact hcom.cluster
  · show Vote.ge e'.config.mode _ e'.state.voteRef = true
    rw [hconfig, hstate]
    exact hcom.vote
  · show ∃ a, e'.state.acceptedLogIo = some a ∧
      if e'.state.voteRef = _ then _ else a.toVote.rank e'.config.mode < Vote.rank e'.config.mode _
    rw [hconfig, hstate]
    exact hcom.accepted
  · show e'.state.logIds.purged = _
    rw [hstate, updateCommitted_logIds]

theorem answer_of_eq {e : Engine NID N D} {r : Except (StreamAppendError NID) (Option (LogId NID))}
    (happ : s.drained.appendEntries d.now d.req.vote d.req.prevLogId d.req.entries = (e, r)) :
    s.answer d = some r := by
  rw [answer_eq, happ]

/-- A request that starts behind a log id which is present. -/
theorem appendEntries_ok {e1 : Engine NID N D} (hd : d.IsSlice V L)
    (he1 : s.drained.updateVote d.now ⟨V, true⟩ = (e1, true))
    (hprev : ∀ prev, d.req.prevLogId = some prev → e1.state.hasLogId prev = true) :
    s.drained.appendEntries d.now d.req.vote d.req.prevLogId d.req.entries =
      (e1.followingAppendEntries d.req.prevLogId d.req.entries,
        .ok (Engine.segmentLast d.req.prevLogId d.req.entries)) := by
  have hens : e1.ensureLogConsecutive d.req.prevLogId = (e1, none) := by
    unfold Engine.ensureLogConsecutive
    cases hp : d.req.prevLogId with
    | none => rfl
    | some prev => exact if_pos (hprev prev hp)
  unfold Engine.appendEntries
  rw [hd.vote, he1]
  dsimp only
  rw [hens]

/-- A request that starts behind a log id which is not present. -/
theorem appendEntries_conflict {e1 : Engine NID N D} (hd : d.IsSlice V L)
    (he1 : s.drained.updateVote d.now ⟨V, true⟩ = (e1, true)) {prev : LogId NID}
    (hprev : d.req.prevLogId = some prev) (hnot : e1.state.hasLogId prev = false) :
    s.drained.appendEntries d.now d.req.vote d.req.prevLogId d.req.entries =
      (e1.truncateLogs prev.index, .error (.conflict prev)) := by
  have hens : e1.ensureLogConsecutive d.req.prevLogId =
      (e1.truncateLogs prev.index, some (.conflict prev)) := by
    unfold Engine.ensureLogConsecutive
    rw [hprev]
    dsimp only
    rw [hnot]
    rfl
  unfold Engine.appendEntries
  rw [hd.vote, he1]
  dsimp only
  rw [hens]

theorem Accepts.updateVote (h : Accepts V L s k) (now : Nat) :
    ∃ e1, s.drained.updateVote now ⟨V, true⟩ = (e1, true) ∧
      e1.TracksLeader V L (e1.written s.entries) k ∧ e1.written s.entries = s.entries ∧
      e1.state.logIds = s.engine.state.logIds := by
  obtain ⟨e0, he0⟩ : ∃ e0, e0 = s.drained := ⟨_, rfl⟩
  have hstate : s.engine.state = e0.state := by
    rw [he0]
    rfl
  have hconfig : s.engine.config = e0.config := by
    rw [he0]
    rfl
  have hwritten : e0.written s.entries = s.entries := by
    rw [he0]
    rfl
  obtain ⟨hother, hmatched, hcommitted, hcluster, hvote, haccepted⟩ := h
  rw [hconfig] at hother hvote haccepted
  rw [hstate] at hmatched hcommitted hcluster hvote haccepted
  rw [← he0, hstate]
  obtain ⟨e1, he1⟩ : ∃ e1, e0.updateVote now ⟨V, true⟩ = (e1, true) := by
    unfold Engine.updateVote
    rw [if_pos hvote]
    exact ⟨_, rfl⟩
  obtain ⟨htracks, hwritten1, hids⟩ := Engine.tracksLeader_updateVote hother
    (hwritten.symm ▸ hmatched) hcommitted hcluster haccepted he1
  exact ⟨e1, he1, htracks, hwritten1.trans hwritten, hids⟩

/-- One request of the leader. -/
theorem Accepts.receive (h : Accepts V L s k) (hL : OrderedLog L) (hd : d.IsSlice V L) :
    ∃ k', k ≤ k' ∧ Accepts V L (s.receive d) k' ∧
      (s.receive d).engine.state.logIds.purged = s.engine.state.logIds.purged ∧
      (∀ last, s.answer d = some (.ok last) → nextIndex last ≤ k') ∧
      ∀ x, s.answer d = some (.error (.conflict x)) →
        (s.receive d).entries.filter (fun ent => decide (ent.logId.index < x.index)) =
          s.entries.filter fun ent => decide (ent.logId.index < x.index) := by
  obtain ⟨pre, post, hslice, hprev⟩ := hd.slice
  obtain ⟨hpreL, hpreI⟩ := Engine.holds_tipId_of_slice hL.indexed
    (show L = pre ++ (d.req.entries ++ post) by rw [hslice, List.append_assoc])
  rw [hprev] at hpreL hpreI
  -- the vote is accepted
  obtain ⟨e1, he1, htracks, hwritten, hids⟩ := h.updateVote d.now
  have hpurged : e1.state.logIds.purged = s.engine.state.logIds.purged := by rw [hids]
  by_cases hpre : pre.length ≤ k
  · have happ := appendEntries_ok hd he1 fun prev hp => by
      rw [hp, nextIndex_some] at hpreI
      exact (htracks.matched.hasLogId_iff hL.indexed (hpreL prev hp)).2 (by omega)
    obtain ⟨k', hk, hend, ht, hp⟩ := Engine.tracksLeader_append htracks hL.indexed hslice hpre
    rw [hprev] at ht hp
    obtain ⟨hacc, hp'⟩ := accepts_receive hL hd happ ht
    have hanswer := answer_of_eq happ
    refine ⟨k', hk, hacc, hp'.trans (hp.trans hpurged), ?_, ?_⟩
    · intro last hlast
      have hseg := Except.ok.inj (Option.some.inj (hanswer.symm.trans hlast))
      obtain ⟨-, hlen⟩ := Engine.holds_tipId_of_slice hL.indexed hslice
      rw [← hseg, ← hprev, Engine.segmentLast_tipId, hlen, List.length_append]
      exact hend
    · intro x hx
      exact absurd (Option.some.inj (hanswer.symm.trans hx)) (by simp)
  · cases hp : d.req.prevLogId with
    | none =>
      rw [hp] at hpreI
      exact absurd (Nat.zero_le k) (by rw [← hpreI] at hpre; exact hpre)
    | some prev =>
      rw [hp, nextIndex_some] at hpreI
      have hprevL := hpreL prev hp
      have hnot : e1.state.hasLogId prev = false := by
        rw [Bool.eq_false_iff]
        intro hhas
        have := (htracks.matched.hasLogId_iff hL.indexed hprevL).1 hhas
        omega
      have happ := appendEntries_conflict hd he1 hp hnot
      obtain ⟨ht, hp2, hbelow⟩ := Engine.tracksLeader_conflict htracks hL.indexed hprevL hnot
      obtain ⟨hacc, hp'⟩ := accepts_receive hL hd happ ht
      have hanswer := answer_of_eq happ
      refine ⟨k, le_rfl, hacc, hp'.trans (hp2.trans hpurged), ?_, ?_⟩
      · intro last hlast
        exact absurd (Option.some.inj (hanswer.symm.trans hlast)) (by simp)
      · intro x hx
        have hxeq := Except.error.inj (Option.some.inj (hanswer.symm.trans hx))
        obtain rfl : prev = x := StreamAppendError.conflict.inj hxeq
        rw [(s.receive_eq d happ).1, hbelow, hwritten]

/-- A follower that may follow the leader does so through all of its requests. -/
theorem Accepts.receiveAll (h : Accepts V L s k) (hL : OrderedLog L) {ds : List (Delivery NID N D)}
    (hds : ∀ d ∈ ds, d.IsSlice V L) : ∃ k', k ≤ k' ∧ Accepts V L (s.receiveAll ds) k' ∧
      (s.receiveAll ds).engine.state.logIds.purged = s.engine.state.logIds.purged := by
  induction ds generalizing s k with
  | nil => exact ⟨k, le_rfl, h, rfl⟩
  | cons d ds ih =>
    obtain ⟨k1, hk1, h1, hp1, -, -⟩ := h.receive hL (hds d List.mem_cons_self)
    obtain ⟨k2, hk2, h2, hp2⟩ := ih h1 fun d' hd' => hds d' (List.mem_cons_of_mem _ hd')
    exact ⟨k2, hk1.trans hk2, h2, hp2.trans hp1⟩

/-- A follower with a later vote refuses all requests of the leader. -/
theorem receive_refused (hd : d.IsSlice V L)
    (hnot : Vote.ge s.engine.config.mode ⟨V, true⟩ s.engine.state.voteRef = false) :
    s.answer d = some (.error (.higherVote s.engine.state.voteRef)) ∧
      Vote.ge (s.receive d).engine.config.mode ⟨V, true⟩ (s.receive d).engine.state.voteRef =
        false := by
  have happ : s.drained.appendEntries d.now d.req.vote d.req.prevLogId d.req.entries =
      (s.drained, .error (.higherVote s.engine.state.voteRef)) := by
    have hnot : Vote.ge s.drained.config.mode ⟨V, true⟩ s.drained.state.voteRef = false := hnot
    unfold Engine.appendEntries Engine.updateVote
    rw [hd.vote, hnot]
    rfl
  obtain ⟨-, hconfig, hstate⟩ := s.receive_eq d happ
  refine ⟨answer_of_eq happ, ?_⟩
  rw [hconfig, hstate, Engine.updateCommitted_voteRef]
  exact hnot

theorem receiveAll_refused {ds : List (Delivery NID N D)} (hds : ∀ d ∈ ds, d.IsSlice V L)
    (hnot : Vote.ge s.engine.config.mode ⟨V, true⟩ s.engine.state.voteRef = false) :
    Vote.ge (s.receiveAll ds).engine.config.mode ⟨V, true⟩
      (s.receiveAll ds).engine.state.voteRef = false := by
  induction ds generalizing s with
  | nil => exact hnot
  | cons d ds ih =>
    have hstep := receive_refused (hds d List.mem_cons_self) hnot
    exact ih (fun d' hd' => hds d' (List.mem_cons_of_mem _ hd')) hstep.2

/-- A follower at the start. -/
theorem AgreesOnCommitted.accepts (h : s.AgreesOnCommitted V L) (hL : OrderedLog L)
    (hmatch : LogMatching L s.entries)
    (hge : Vote.ge s.engine.config.mode ⟨V, true⟩ s.engine.state.voteRef = true) :
    ∃ k, Accepts V L s k := by
  obtain ⟨k, hk⟩ := MatchedUpTo.exists_of_agrees h hmatch
  obtain ⟨a, ha, hacc⟩ := h.accepted hge
  refine ⟨k, h.other, hk, h.committed, h.cluster, hge, a, ha, ?_⟩
  split
  · rename_i hvote
    rw [if_pos hvote] at hacc
    refine ⟨hacc.1, hacc.2.1, ?_⟩
    cases hx : a.lastLogId with
    | none => exact Nat.zero_le _
    | some x =>
      rw [nextIndex_some]
      exact (hk.hasLogId_iff hL.indexed (hacc.2.1 x hx)).1 (hacc.2.2 x hx)
  · rename_i hvote
    rw [if_neg hvote] at hacc
    exact hacc

/-- What is matched is in the log, behind the purged part. -/
theorem Accepts.mem_entries (h : Accepts V L s k) (hL : OrderedLog L) {ent : Entry NID N D}
    (hent : ent ∈ L) (hfirst : s.engine.state.logIds.firstIndex ≤ ent.logId.index)
    (hlt : ent.logId.index < k) : ent ∈ s.entries := by
  have hlen := h.matched.length
  obtain ⟨own, hown⟩ : ∃ own,
      s.entries[ent.logId.index - s.engine.state.logIds.firstIndex]? = some own :=
    ⟨_, List.getElem?_eq_getElem (by omega)⟩
  have hindex := h.matched.indexed _ own hown
  have hmem := List.mem_of_getElem? hown
  have hownL := h.matched.same own hmem (by omega)
  -- the leader has one entry at this index
  obtain ⟨i, hi⟩ := List.mem_iff_getElem?.1 hent
  obtain ⟨j, hj⟩ := List.mem_iff_getElem?.1 hownL
  have hii := hL.indexed i ent hi
  have hjj := hL.indexed j own hj
  obtain rfl : i = j := by omega
  obtain rfl := Option.some.inj (hi.symm.trans hj)
  exact hmem

/-- Once a follower has answered `Ok(last)`, it keeps the entries of the leader up to `last`
    through all later requests of this leader; and a conflict that it answers leaves its entries
    before the conflict. -/
theorem keeps_answered (hL : OrderedLog L) (hs : s.AgreesOnCommitted V L)
    (hmatch : LogMatching L s.entries) {ds ds' : List (Delivery NID N D)}
    (hds : ∀ d' ∈ ds ++ d :: ds', d'.IsSlice V L) :
    (∀ last, (s.receiveAll ds).answer d = some (.ok last) →
      ∀ ent ∈ L, s.engine.state.logIds.firstIndex ≤ ent.logId.index →
        ent.logId.index < nextIndex last → ent ∈ (s.receiveAll (ds ++ d :: ds')).entries) ∧
    ∀ x, (s.receiveAll ds).answer d = some (.error (.conflict x)) →
      ((s.receiveAll ds).receive d).entries.filter
          (fun ent => decide (ent.logId.index < x.index)) =
        (s.receiveAll ds).entries.filter fun ent => decide (ent.logId.index < x.index) := by
  have hds1 : ∀ d' ∈ ds, d'.IsSlice V L := fun d' hd' => hds d' (List.mem_append_left _ hd')
  have hd : d.IsSlice V L := hds d (by simp)
  have hds2 : ∀ d' ∈ ds', d'.IsSlice V L := fun d' hd' => hds d' (by simp [hd'])
  have hrun : s.receiveAll (ds ++ d :: ds') = ((s.receiveAll ds).receive d).receiveAll ds' :=
    List.foldl_append
  by_cases hge : Vote.ge s.engine.config.mode ⟨V, true⟩ s.engine.state.voteRef = true
  · obtain ⟨k, hk⟩ := hs.accepts hL hmatch hge
    obtain ⟨k1, -, h1, hp1⟩ := hk.receiveAll hL hds1
    obtain ⟨k2, -, h2, hp2, hok, hconflict⟩ := h1.receive hL hd
    obtain ⟨k3, hk3, h3, hp3⟩ := h2.receiveAll hL hds2
    refine ⟨fun last hlast ent hent hfirst hlt => ?_, hconflict⟩
    have hle := hok last hlast
    rw [hrun]
    refine h3.mem_entries hL hent ?_ (by omega)
    unfold LogIds.firstIndex at hfirst ⊢
    rw [hp3, hp2, hp1]
    exact hfirst
  · have hno := receiveAll_refused hds1 (Bool.eq_false_iff.2 hge)
    have hanswer := (receive_refused hd hno).1
    constructor
    · intro last hlast
      exact absurd (Option.some.inj (hanswer.symm.trans hlast)) (by simp)
    · intro x hx
      exact absurd (Option.some.inj (hanswer.symm.trans hx)) (by simp)

end LoggedEngine

namespace Three

/-- The log of node 0, which leads in term 3. -/
def leaderLog : List (Entry (Fin 3) Unit Nat) :=
  [firstEntry, ⟨⟨⟨2, none⟩, 1⟩, .blank⟩, ⟨⟨⟨3, none⟩, 2⟩, .blank⟩, ⟨⟨⟨3, none⟩, 3⟩, .normal 7⟩]

theorem leaderLog_ordered : OrderedLog leaderLog := by
  refine ⟨?_, by simp [leaderLog, firstEntry]; decide⟩
  simp [leaderLog, indexedFrom_cons, indexedFrom_nil, firstEntry]

/-- Node 1 when it hears of this leader. It knows that the first entry is committed. -/
def behind (tail : List (Entry (Fin 3) Unit Nat)) : LoggedEngine (Fin 3) Unit Nat :=
  let store : LogStore (Fin 3) Unit Nat := ⟨none, none, none, firstEntry :: tail, []⟩
  let state := RaftState.recovered 0 ⟨⟨2, 2⟩, false⟩ store ⟨[firstEntry], none⟩
    ⟨⟨some firstEntry.logId, membership⟩, ⟨some firstEntry.logId, membership⟩⟩
    (some firstEntry.logId)
  ⟨Engine.new state (config false 1), firstEntry :: tail⟩

theorem behind_agrees {tail : List (Entry (Fin 3) Unit Nat)} (htail : IndexedFrom 1 tail) :
    (behind tail).AgreesOnCommitted ⟨3, 0⟩ leaderLog := by
  have hids : (behind tail).engine.state.logIds.ids = (behind tail).entries.map Entry.logId := rfl
  have hlog := LogIds.consecutive_of_indexed hids (indexedFrom_cons.2 ⟨rfl, htail⟩)
  have hother : (0 : Fin 3) ≠ 1 := by decide
  refine ⟨hother, hids, hlog, Nat.zero_le _, ?_, holds_some.2 rfl, nofun, ?_, fun _ => ?_⟩
  · rw [hlog.nextIndex_last, hids]
    show 1 ≤ 0 + (tail.map Entry.logId).length.succ
    omega
  · intro ent hent hlt
    rcases List.mem_cons.1 hent with rfl | hent
    · exact List.mem_cons_self
    · obtain ⟨i, hi⟩ := List.mem_iff_getElem?.1 hent
      have := htail i ent hi
      have hlt : ent.logId.index < 1 := hlt
      omega
  · refine ⟨_, rfl, ?_⟩
    have hvote : (behind tail).engine.state.voteRef ≠ ⟨⟨3, 0⟩, true⟩ :=
      show (⟨⟨2, 2⟩, false⟩ : Vote (Fin 3)) ≠ ⟨⟨3, 0⟩, true⟩ by decide
    rw [if_neg hvote]
    show Vote.rank .std ⟨⟨2, 2⟩, false⟩ < Vote.rank .std ⟨⟨3, 0⟩, true⟩
    decide

/-- Entries of the leader, sent to node 1. -/
def sending (prev : Option (LogId (Fin 3))) (entries : List (Entry (Fin 3) Unit Nat)) :
    Delivery (Fin 3) Unit Nat :=
  ⟨0, ⟨0, 0, ⟨3, 0⟩, 1, 0, false, none, 0⟩, ⟨⟨3, 0⟩, true⟩, prev, entries, none⟩

/-- An entry of term 1 that the leader does not have. -/
def staleEntry : Entry (Fin 3) Unit Nat := ⟨⟨⟨1, none⟩, 1⟩, .normal 5⟩

theorem sending_isSlice : (sending (some ⟨⟨2, none⟩, 1⟩) [⟨⟨⟨3, none⟩, 2⟩, .blank⟩]).IsSlice ⟨3, 0⟩
      leaderLog ∧
    (sending (some firstEntry.logId) [⟨⟨⟨2, none⟩, 1⟩, .blank⟩]).IsSlice ⟨3, 0⟩ leaderLog ∧
    (sending (some ⟨⟨3, none⟩, 2⟩) [⟨⟨⟨3, none⟩, 3⟩, .normal 7⟩]).IsSlice ⟨3, 0⟩ leaderLog := by
  refine ⟨⟨rfl, ⟨leaderLog.take 2, leaderLog.drop 3, rfl, rfl⟩, holds_none⟩,
    ⟨rfl, ⟨leaderLog.take 1, leaderLog.drop 2, rfl, rfl⟩, holds_none⟩,
    ⟨rfl, ⟨leaderLog.take 3, leaderLog.drop 4, rfl, rfl⟩, holds_none⟩⟩

/-- The first request is refused and drops the entry that conflicts, the second one is accepted.
    When the first one comes again, what was accepted stays. -/
theorem keeps_answered_repeated : (behind [staleEntry]).AgreesOnCommitted ⟨3, 0⟩ leaderLog ∧
    LogMatching leaderLog (behind [staleEntry]).entries ∧
    (⟨⟨⟨2, none⟩, 1⟩, .blank⟩ : Entry (Fin 3) Unit Nat) ∈ ((behind [staleEntry]).receiveAll
      ([sending (some ⟨⟨2, none⟩, 1⟩) [⟨⟨⟨3, none⟩, 2⟩, .blank⟩]] ++
        sending (some firstEntry.logId) [⟨⟨⟨2, none⟩, 1⟩, .blank⟩] ::
        [sending (some ⟨⟨2, none⟩, 1⟩) [⟨⟨⟨3, none⟩, 2⟩, .blank⟩]])).entries := by
  have hagrees : (behind [staleEntry]).AgreesOnCommitted ⟨3, 0⟩ leaderLog :=
    behind_agrees (indexedFrom_cons.2 ⟨rfl, indexedFrom_nil _⟩)
  have hmatch : LogMatching leaderLog (behind [staleEntry]).entries := by
    have hstale : ¬ HasId leaderLog staleEntry.logId := fun h =>
      absurd (show some (⟨2, none⟩ : CommittedLeaderId (Fin 3)) = some ⟨1, none⟩ from h) (by decide)
    intro ent hent hid ent' hent' hle
    rcases List.mem_cons.1 hent with rfl | hent
    · rcases List.mem_cons.1 hent' with rfl | hent'
      · exact List.mem_cons_self
      · obtain rfl := List.mem_singleton.1 hent'
        exact absurd hle (by decide)
    · obtain rfl := List.mem_singleton.1 hent
      exact absurd hid hstale
  obtain ⟨h1, h2, -⟩ := sending_isSlice
  refine ⟨hagrees, hmatch, ?_⟩
  refine (LoggedEngine.keeps_answered leaderLog_ordered hagrees hmatch ?_).1
    (some ⟨⟨2, none⟩, 1⟩) rfl _ (List.mem_cons_of_mem _ List.mem_cons_self) (by decide) (by decide)
  intro d hd
  rcases List.mem_cons.1 hd with rfl | hd
  · exact h1
  · rcases List.mem_cons.1 hd with rfl | hd
    · exact h2
    · obtain rfl := List.mem_singleton.1 hd
      exact h1

/-- Node 1 has the log id of the leader at 2, but not at 1. It appends the entry at 3 and answers
    so; the entry at 1 then removes both. -/
theorem answered_lost : OrderedLog leaderLog ∧
    (behind [staleEntry, ⟨⟨⟨3, none⟩, 2⟩, .blank⟩]).AgreesOnCommitted ⟨3, 0⟩ leaderLog ∧
    (sending (some ⟨⟨3, none⟩, 2⟩) [⟨⟨⟨3, none⟩, 3⟩, .normal 7⟩]).IsSlice ⟨3, 0⟩ leaderLog ∧
    (sending (some firstEntry.logId) [⟨⟨⟨2, none⟩, 1⟩, .blank⟩]).IsSlice ⟨3, 0⟩ leaderLog ∧
    (behind [staleEntry, ⟨⟨⟨3, none⟩, 2⟩, .blank⟩]).answer
        (sending (some ⟨⟨3, none⟩, 2⟩) [⟨⟨⟨3, none⟩, 3⟩, .normal 7⟩]) =
      some (.ok (some ⟨⟨3, none⟩, 3⟩)) ∧
    ((behind [staleEntry, ⟨⟨⟨3, none⟩, 2⟩, .blank⟩]).receiveAll
      [sending (some ⟨⟨3, none⟩, 2⟩) [⟨⟨⟨3, none⟩, 3⟩, .normal 7⟩],
        sending (some firstEntry.logId) [⟨⟨⟨2, none⟩, 1⟩, .blank⟩]]).entries.map Entry.logId =
      [firstEntry.logId, ⟨⟨2, none⟩, 1⟩] :=
  ⟨leaderLog_ordered, behind_agrees (indexedFrom_cons.2 ⟨rfl, indexedFrom_cons.2
    ⟨rfl, indexedFrom_nil _⟩⟩), sending_isSlice.2.2, sending_isSlice.2.1, rfl, by decide +kernel⟩

end Three

end ZenohRaft
