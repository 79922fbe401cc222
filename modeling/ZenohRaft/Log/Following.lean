/-
  A follower keeps its log in agreement with the leader it follows.

  `Slice l prev es` says that the entries `es` follow the log id `prev` in the log `l`. A request of
  a leader is a slice of its log. `hasLogId_iff` is what makes the shortcut of `has_log_id` right:
  up to `local_committed` the log of the node is that of every leader it may hear from.

  * `appendEntries_keeps`: a request of a leader, accepted or not.
  * `installFullSnapshot_keeps`: a snapshot of a leader. What is between the end of the log and the
    end of the snapshot is not read again; the log becomes what the history has up to there.
-/
import ZenohRaft.Log.Handlers
import ZenohRaft.Log.Written

namespace ZenohRaft

open Lib

variable {NID N D : Type} [LinearOrder NID]

/-- Where a slice ends. -/
theorem Slice.holds_segmentLast {mode : LeaderIdMode} {h : History NID N D} (hs : h.Sound mode)
    {k : CommittedLeaderId NID} {prev : Option (LogId NID)} {es : List (Entry NID N D)}
    (hsl : Slice (h.log k) prev es) : Holds (h.log k) (Engine.segmentLast prev es) := by
  obtain ⟨pre, post, hlog, rfl⟩ := hsl
  have hle : pre ++ es <+: h.log k := by
    rw [hlog]
    exact List.prefix_append _ _
  rw [Engine.segmentLast_tipId]
  exact (holds_tipId ((hs.indexed k).of_le hle)).mono hle

omit [LinearOrder NID] in
/-- A log that has the end of another one has all of it. -/
theorem History.IsLog.le_of_tip {h : History NID N D} {l l' : List (Entry NID N D)}
    (hl : h.IsLog l) (hl' : h.IsLog l') (ht : Holds l' (tipId l)) : l <+: l' := by
  cases hx : tipId l with
  | none =>
    rw [tipId_eq_none.1 hx]
    exact List.nil_prefix
  | some x =>
    obtain ⟨hxl, hlen⟩ := (tipId_eq_some hl.2).1 hx
    have heq := hl.1.take_eq hl'.1 hxl (ht x hx)
    rw [List.take_of_length_le (by omega)] at heq
    rw [heq]
    exact List.take_prefix _ _

namespace LogMem

variable {mode : LeaderIdMode} {h : History NID N D} {id : NID} {X : View NID N D}
variable {s : RaftState NID N} {x : LogId NID} {V : LeaderId NID}

/-- What is committed is in the log of the leader that the node follows. -/
theorem holds_log (hs : h.Sound mode) (hm : LogMem mode h id X s) (hXV : X.vote = ⟨V, true⟩) :
    Holds (h.log (V.toCommitted mode)) s.localCommitted := by
  intro c hc
  have hcom := hm.com c hc
  rw [hXV] at hcom
  exact hs.com_hasId hcom (hm.ok.leader_of hXV)

/-- So is the committed membership. -/
theorem holds_log_membership (hs : h.Sound mode) (hm : LogMem mode h id X s)
    (hXV : X.vote = ⟨V, true⟩) :
    Holds (h.log (V.toCommitted mode)) s.membershipState.committed.logId := by
  intro x hx
  have hcom := hm.membership_com x hx
  rw [hXV] at hcom
  exact hs.com_hasId hcom (hm.ok.leader_of hXV)

theorem holds_accepted (hm : LogMem mode h id X s) {a : IOId NID} (ha : s.acceptedLogIo = some a) :
    Holds (X.full h) a.lastLogId := by
  obtain ⟨a', ha', -, -, -, hal, -⟩ := hm.accepted
  obtain rfl := Option.some.inj (ha'.symm.trans ha)
  exact hal

/-- `has_log_id` is right about the log ids of the leader. -/
theorem hasLogId_iff (hs : h.Sound mode) (hm : LogMem mode h id X s) (hXV : X.vote = ⟨V, true⟩)
    (hx : HasId (h.log (V.toCommitted mode)) x) :
    s.hasLogId x = true ↔ HasId (X.full h) x := by
  unfold RaftState.hasLogId
  by_cases hlt : x.index < nextIndex s.localCommitted
  · rw [if_pos hlt]
    refine ⟨fun _ => ?_, fun _ => rfl⟩
    cases hc : s.localCommitted with
    | none =>
      rw [hc] at hlt
      exact absurd hlt (Nat.not_lt_zero _)
    | some c =>
      rw [hc, nextIndex_some] at hlt
      exact (hs.isLog_log _).hasId_of_hasId hm.ok.log (hm.holds_log hs hXV c hc)
        (hm.committed c hc) hx (by omega)
  · have hpurged := hm.purged_le_committed
    rw [if_neg hlt, decide_eq_true_eq, hm.getLogId_eq_some]
    exact ⟨fun hf => hf.2.1, fun hf => ⟨rfl, hf, by omega⟩⟩

/-- What the log shares with that of the leader is before what it lacks of it. -/
theorem nextIndex_le_of_not_hasId (hs : h.Sound mode) (hm : LogMem mode h id X s)
    {a : Option (LogId NID)}
    {z : LogId NID} (ha : Holds (X.full h) a) (ha' : Holds (h.log (V.toCommitted mode)) a)
    (hz : HasId (h.log (V.toCommitted mode)) z) (hnot : ¬ HasId (X.full h) z) :
    nextIndex a ≤ z.index := by
  cases hc : a with
  | none => exact Nat.zero_le _
  | some c => exact hm.lt_of_not_hasId hs (ha c hc) (ha' c hc) hz hnot

end LogMem

namespace Engine

variable {h : History NID N D} {X X' : View NID N D} {e e' : Engine NID N D} {V : LeaderId NID}

/-! ## Truncation -/

/-- The log is cut where it lacks `z`, which the leader has. -/
structure CutAt (h : History NID N D) (X : View NID N D) (e : Engine NID N D) (n : Nat)
    (X' : View NID N D) (e' : Engine NID N D) : Prop where
  moves : Moves h X e X' e'
  mem : e'.Mem h X'
  full : X'.full h = (X.full h).take n
  vote : X'.vote = X.vote
  streams : X'.streams = X.streams
  submitted : X'.submitted = X.submitted
  voteRef : e'.state.voteRef = e.state.voteRef
  leading : e'.leading = e.leading
  candidate : e'.candidate = e.candidate

theorem truncateLogs_cutAt (hs : h.Sound e.config.mode) (hm : e.Mem h X)
    (hXV : X.vote = ⟨V, true⟩) {z : LogId NID}
    (hz : HasId (h.log (V.toCommitted e.config.mode)) z) (hnot : ¬ HasId (X.full h) z) :
    ∃ X', CutAt h X e z.index X' (e.truncateLogs z.index) := by
  have hlc := hm.nextIndex_le_of_not_hasId hs hm.committed (hm.holds_log hs hXV) hz hnot
  have hpurged := hm.purged_le_committed
  unfold truncateLogs
  cases hy : e.state.getLogId z.index with
  | none =>
    -- the log ends before this index
    have hlen : (X.full h).length ≤ z.index := by
      by_contra hlt
      obtain ⟨y, hyi, hyl⟩ := exists_hasId (l := X.full h) (i := z.index) (by omega)
      rw [hm.getLogId_eq_some.2 ⟨hyi, hyl, by omega⟩] at hy
      cases hy
    exact ⟨X, .refl X e, hm, (List.take_of_length_le hlen).symm, rfl, rfl, rfl, rfl, rfl, rfl⟩
  | some y =>
    obtain ⟨hyi, hyl, -⟩ := hm.getLogId_eq_some.1 hy
    have hlen := hyl.lt_length
    obtain ⟨hafter, -⟩ := hm.prevLogId_eq hlc (by omega)
    have hmemb := hm.nextIndex_le_of_not_hasId hs hm.holds_committed
      (hm.holds_log_membership hs hXV) hz hnot
    have hacc : ∀ a, e.state.acceptedLogIo = some a → nextIndex a.lastLogId ≤ z.index := by
      intro a ha
      obtain ⟨a', ha', -, -, -, hal, hal'⟩ := hm.accepted
      obtain rfl := Option.some.inj (ha'.symm.trans ha)
      rw [hXV] at hal'
      exact hm.nextIndex_le_of_not_hasId hs hal hal' hz hnot
    have hok : X.TruncateOK e.config.mode h (e.state.prevLogId z.index) := by
      refine ⟨by rw [hXV], ?_, z, ⟨?_, y, hyl, hyi, ?_⟩, Or.inl hafter⟩
      · rw [hafter]
        exact hpurged.trans hlc
      · rw [hXV]
        exact hz
      · intro heq
        exact hnot (heq ▸ hyl)
    refine ⟨X.step (.truncateLog (e.state.prevLogId z.index)),
      .push_of_output (.truncateLog (e.state.prevLogId z.index)) rfl rfl (.of_eq rfl) hok,
      LogMem.truncate hs hm hafter hlc hmemb hacc, ?_, rfl, rfl, rfl, rfl, rfl, rfl⟩
    rw [View.full_truncate hm.ok hok.2.1, hafter]

/-! ## Appending -/

theorem acceptLogIo_truncateLogs (e : Engine NID N D) (io : IOId NID) (i : Nat) :
    (e.acceptLogIo io).truncateLogs i = (e.truncateLogs i).acceptLogIo io := by
  have hget : (e.acceptLogIo io).state.getLogId i = e.state.getLogId i := by
    unfold acceptLogIo
    rw [RaftState.acceptLogIo_eq]
    rfl
  unfold truncateLogs
  rw [hget]
  cases e.state.getLogId i with
  | none => rfl
  | some y =>
    unfold acceptLogIo
    simp only [RaftState.acceptLogIo_eq]
    rfl

theorem acceptLogIo_doAppendEntries (e : Engine NID N D) (io : IOId NID)
    (entries : List (Entry NID N D)) :
    (e.acceptLogIo io).doAppendEntries entries = (e.doAppendEntries entries).acceptLogIo io := by
  unfold doAppendEntries acceptLogIo
  simp only [RaftState.acceptLogIo_eq]
  rfl

/-- The accepted io after one that is in the log. -/
theorem nextAccepted_spec {mode : LeaderIdMode} {id : NID} {s : RaftState NID N}
    (hm : LogMem mode h id X s) (hXV : X.vote = ⟨V, true⟩) (s' : RaftState NID N)
    (hacc : s'.acceptedLogIo = s.acceptedLogIo) {last : Option (LogId NID)}
    {l : List (Entry NID N D)} (hl : Holds l last) (hV : Holds (h.log (V.toCommitted mode)) last)
    (hold : ∀ a, s.acceptedLogIo = some a → Holds l a.lastLogId) :
    ∃ a, (s'.acceptLogIo mode (.newLogIo V last)).acceptedLogIo = some a ∧ a.toVote = X.vote ∧
      last ≤ a.lastLogId ∧ (∀ a', s.acceptedLogIo = some a' → a'.lastLogId ≤ a.lastLogId) ∧
      Holds l a.lastLogId ∧ Holds (h.log (V.toCommitted mode)) a.lastLogId := by
  obtain ⟨a, ha, hav, -, -, hal, hal'⟩ := hm.accepted
  rw [hXV] at hal'
  rw [RaftState.acceptLogIo_eq]
  show ∃ a', RaftState.nextAccepted mode s' (.newLogIo V last) = some a' ∧ _
  unfold RaftState.nextAccepted
  rw [hacc, ha]
  show ∃ a', (if IOId.gt mode (.newLogIo V last) a = true then _ else _) = some a' ∧ _
  by_cases hgt : IOId.gt mode (.newLogIo V last) a = true
  · rw [if_pos hgt]
    refine ⟨_, rfl, hXV.symm, le_rfl, ?_, hl, hV⟩
    intro a' ha'
    obtain rfl := Option.some.inj ha'
    rcases IOId.gt_iff.1 hgt with hrank | ⟨-, hlt⟩
    · rw [hav, hXV] at hrank
      exact absurd hrank (lt_irrefl _)
    · exact hlt.le
  · rw [if_neg hgt]
    refine ⟨a, rfl, hav, ?_, ?_, hold a ha, hal'⟩
    · rw [IOId.gt_iff] at hgt
      by_contra hlt
      refine hgt (Or.inr ⟨?_, not_le.1 hlt⟩)
      rw [hav, hXV]
      rfl
    · intro a' ha'
      obtain rfl := Option.some.inj ha'
      exact le_rfl

/-- An io that the log has is accepted. -/
theorem acceptLogIo_mem (hm : e.Mem h X) (hXV : X.vote = ⟨V, true⟩) {last : Option (LogId NID)}
    (hl : Holds (X.full h) last) (hV : Holds (h.log (V.toCommitted e.config.mode)) last) :
    (e.acceptLogIo (.newLogIo V last)).Mem h X := by
  obtain ⟨a, ha, hav, -, hmax, hal, hal'⟩ := nextAccepted_spec hm hXV e.state rfl hl hV
    fun _ ha => hm.holds_accepted ha
  obtain ⟨a', ha', -, hsub', hio', -⟩ := hm.accepted
  unfold Mem acceptLogIo
  have heq := RaftState.acceptLogIo_eq e.config.mode e.state (.newLogIo V last)
  refine LogMem.of_accepted hm ?_ ?_ ?_ ?_ ?_ ?_ ?_ ?_ ⟨a, ha, hav, hsub'.trans (hmax a' ha'),
    fun hio => (hio' hio).trans (hmax a' ha'), hal, hXV ▸ hal'⟩
  all_goals rw [heq]
  all_goals rfl

/-- What follows `prev` in the log of the leader, split by what the node has already. -/
theorem toAppend_split (hs : h.Sound e.config.mode) (hm : e.Mem h X) (hXV : X.vote = ⟨V, true⟩)
    {pre es post : List (Entry NID N D)}
    (hlog : h.log (V.toCommitted e.config.mode) = pre ++ es ++ post)
    (hprev : Holds (X.full h) (tipId pre)) :
    ∃ present, es = present ++ e.toAppend es ∧ pre ++ present <+: X.full h := by
  have hindexed := hs.indexed (V.toCommitted e.config.mode)
  have hall := hs.isLog_log (V.toCommitted e.config.mode)
  unfold toAppend
  induction es generalizing pre with
  | nil =>
    refine ⟨[], rfl, ?_⟩
    rw [List.append_nil]
    refine History.IsLog.le_of_tip (hall.of_le ?_) hm.ok.log hprev
    rw [hlog, List.append_nil]
    exact List.prefix_append _ _
  | cons ent es ih =>
    unfold RaftState.firstConflictingIndex
    have hmem : ent ∈ h.log (V.toCommitted e.config.mode) := by
      rw [hlog]
      simp
    have hent : HasId (h.log (V.toCommitted e.config.mode)) ent.logId :=
      (hasId_iff_mem hindexed).2 ⟨ent, hmem, rfl⟩
    by_cases hhas : e.state.hasLogId ent.logId = true
    · rw [if_pos hhas]
      have hlog' : h.log (V.toCommitted e.config.mode) = (pre ++ [ent]) ++ es ++ post := by
        rw [hlog]
        simp
      have htip : tipId (pre ++ [ent]) = some ent.logId := by
        simp [tipId]
      obtain ⟨present, hsplit, hle⟩ := ih hlog' (by
        rw [htip]
        exact holds_some.2 ((hm.hasLogId_iff hs hXV hent).1 hhas))
      refine ⟨ent :: present, ?_, ?_⟩
      · rw [List.drop_succ_cons, List.cons_append, ← hsplit]
      · rw [List.append_assoc] at hle
        exact hle
    · rw [if_neg hhas]
      refine ⟨[], rfl, ?_⟩
      rw [List.append_nil]
      refine History.IsLog.le_of_tip (hall.of_le ?_) hm.ok.log hprev
      rw [hlog, List.append_assoc]
      exact List.prefix_append _ _

/-- What `append_entries` of a follower leads to: the log has the entries up to `last`, and this is
    what the accepted io says. -/
structure Follows (h : History NID N D) (X : View NID N D) (e : Engine NID N D) (V : LeaderId NID)
    (last : Option (LogId NID)) (X' : View NID N D) (e' : Engine NID N D) : Prop where
  moves : Moves h X e X' e'
  mem : e'.Mem h X'
  vote : X'.vote = X.vote
  streams : X'.streams = X.streams
  voteRef : e'.state.voteRef = e.state.voteRef
  leading : e'.leading = e.leading
  candidate : e'.candidate = e.candidate
  accepted : ∃ a, e'.state.acceptedLogIo = some a ∧ a.toVote = X'.vote ∧ last ≤ a.lastLogId ∧
    Holds (X'.full h) a.lastLogId ∧ Holds (h.log (V.toCommitted e.config.mode)) a.lastLogId

theorem segmentLast_le (prev : Option (LogId NID)) (es : List (Entry NID N D)) :
    segmentLast prev es ≤ max prev (tipId es) := by
  unfold segmentLast tipId
  cases es.getLast? with
  | none => exact le_max_left _ _
  | some ent => exact le_max_right _ _

omit [LinearOrder NID] in
theorem holds_tipId_append {l l' : List (Entry NID N D)} (h : IndexedFrom 0 (l ++ l')) :
    Holds (l ++ l') (tipId l) ∧ Holds (l ++ l') (tipId l') := by
  refine ⟨(holds_tipId (h.of_le (List.prefix_append _ _))).mono (List.prefix_append _ _), ?_⟩
  by_cases hnil : l' = []
  · subst hnil
    exact holds_none
  · rw [← tipId_append (l := l) hnil]
    exact holds_tipId h

/-- Everything that a request has is present: at most the progress of the io is reported. -/
theorem followingAppendEntries_present (hs : h.Sound e.config.mode) (hm : e.Mem h X)
    (hXV : X.vote = ⟨V, true⟩) (hv : e.state.voteRef = ⟨V, true⟩) {prev : Option (LogId NID)}
    {es : List (Entry NID N D)} (happ : e.toAppend es = [])
    (hl : Holds (X.full h) (max prev (tipId es)))
    (hV : Holds (h.log (V.toCommitted e.config.mode)) (max prev (tipId es))) :
    ∃ X', Follows h X e V (segmentLast prev es) X' (e.followingAppendEntries prev es) := by
  have hio : e.acceptedIo prev es = .newLogIo V (max prev (tipId es)) := by
    unfold acceptedIo
    rw [hv]
    rfl
  rw [followingAppendEntries_nil happ, hio]
  have hmem := acceptLogIo_mem hm hXV hl hV
  have hvr : (e.acceptLogIo (.newLogIo V (max prev (tipId es)))).state.voteRef =
    e.state.voteRef := acceptLogIo_voteRef _ _ _
  obtain ⟨a, ha, hav, hle, -, hal, hal'⟩ := nextAccepted_spec hm hXV e.state rfl hl hV
    fun _ ha => hm.holds_accepted ha
  have hacc : ∃ a, (e.acceptLogIo (.newLogIo V (max prev (tipId es)))).state.acceptedLogIo =
      some a ∧
      a.toVote = X.vote ∧ segmentLast prev es ≤ a.lastLogId ∧ Holds (X.full h) a.lastLogId ∧
      Holds (h.log (V.toCommitted e.config.mode)) a.lastLogId :=
    ⟨a, ha, hav, (segmentLast_le prev es).trans hle, hal, hal'⟩
  split
  · exact ⟨X, .of_output rfl rfl (.acceptLogIo _ _ _), hmem, rfl, rfl, hvr, rfl, rfl, hacc⟩
  · rename_i hnot
    -- an io that is not accepted yet is past all that was appended under this vote
    have hok : X.ReportOK e.config.mode h (.newLogIo V (max prev (tipId es))) := by
      obtain ⟨a', ha', hav', hsub', hio', -⟩ := hm.accepted
      have hlt : ¬ max prev (tipId es) ≤ a'.lastLogId := by
        intro hle'
        refine hnot ?_
        rw [ha']
        show IOId.ge e.config.mode a' _ = true
        rw [IOId.ge_iff]
        exact Or.inr ⟨by rw [hav', hXV]; rfl, hle'⟩
      refine ⟨hXV.symm, ?_, hsub'.trans (not_le.1 hlt).le, ?_⟩
      · by_contra hne
        refine hlt (le_trans ?_ (hio' hne))
        have hlog := hm.ok.log
        rw [hs.le_iff_nextIndex hlog hl (holds_tipId hlog.2), nextIndex_tipId hlog.2]
        exact hl.nextIndex_le
      · intro x hx
        rw [hXV]
        exact ⟨hl x hx, hV x hx⟩
    obtain ⟨X', hX'⟩ : ∃ X', X' = X.step (.updateIOProgress
      (e.state.acceptedLogIo.map .ioFlushed) (.newLogIo V (max prev (tipId es)))) := ⟨_, rfl⟩
    have hmem' : (e.acceptLogIo (.newLogIo V (max prev (tipId es)))).Mem h X' := by
      rw [hX']
      exact LogMem.report hs hmem hok ha hle
    refine ⟨X', ?_, hmem',
      by rw [hX']; rfl, by rw [hX']; rfl, hvr, rfl, rfl, by rw [hX']; exact hacc⟩
    rw [hX']
    exact .push_of_output (.updateIOProgress _ _) rfl rfl (.acceptLogIo _ _ _) hok

/-- The entries from `first` on are missing: the log is cut there, and they are appended. -/
theorem followingAppendEntries_missing (hs : h.Sound e.config.mode) (hm : e.Mem h X)
    (hXV : X.vote = ⟨V, true⟩) (hv : e.state.voteRef = ⟨V, true⟩) (hstreams : X.streams = none)
    {pre es present rest : List (Entry NID N D)} {first : Entry NID N D}
    (hpes : pre ++ es <+: h.log (V.toCommitted e.config.mode))
    (happ : e.toAppend es = first :: rest) (hsplit : es = present ++ first :: rest)
    (hle : pre ++ present <+: X.full h) :
    ∃ X', Follows h X e V (segmentLast (tipId pre) es) X'
      (e.followingAppendEntries (tipId pre) es) := by
  have hall := hs.isLog_log (V.toCommitted e.config.mode)
  have hlog := hall.of_le hpes
  have hes : pre ++ es = (pre ++ present) ++ first :: rest := by
    rw [hsplit, List.append_assoc]
  -- the index of `first` is where the present part ends
  have hfirst : first.logId.index = (pre ++ present).length := by
    have hidx := hlog.2
    rw [hes, indexedFrom_append, indexedFrom_cons] at hidx
    rw [hidx.2.1, Nat.zero_add]
  have hz : HasId (h.log (V.toCommitted e.config.mode)) first.logId := by
    refine At.mono ((hasId_iff_mem hlog.2).2 ⟨first, ?_, rfl⟩) hpes
    rw [hes]
    simp
  have hnot : ¬ HasId (X.full h) first.logId := by
    rw [← hm.hasLogId_iff hs hXV hz, not_hasLogId_of_toAppend happ]
    exact Bool.false_ne_true
  obtain ⟨X1, hcut⟩ := truncateLogs_cutAt hs hm hXV hz hnot
  have hfull1 : X1.full h = pre ++ present := by
    rw [hcut.full, hfirst]
    exact (List.prefix_iff_eq_take.1 hle).symm
  have hio : e.acceptedIo (tipId pre) es = .newLogIo V (max (tipId pre) (tipId es)) := by
    unfold acceptedIo
    rw [hv]
    rfl
  rw [followingAppendEntries_cons happ, hio, acceptLogIo_truncateLogs, acceptLogIo_doAppendEntries]
  obtain ⟨e1, he1⟩ : ∃ e1, e1 = e.truncateLogs first.logId.index := ⟨_, rfl⟩
  rw [← he1] at hcut ⊢
  have hcfg := hcut.moves.config
  have hXV1 : X1.vote = ⟨V, true⟩ := hcut.vote.trans hXV
  have hv1 : e1.state.voteRef = ⟨V, true⟩ := hcut.voteRef.trans hv
  obtain ⟨hpre, htip⟩ := holds_tipId_append hlog.2
  have hlastl := holds_max hpre htip
  have htips : tipId (first :: rest) = tipId (pre ++ es) := by
    rw [hes, tipId_append (by simp)]
  have hok : X1.AppendOK e1.config.mode h V (first :: rest) := by
    refine ⟨hXV1, by simp, ?_, ?_, ?_⟩
    · rw [hfull1, ← hes, hcfg]
      exact hpes
    · intro W hW
      rw [hcut.streams, hstreams] at hW
      cases hW
    · -- what was accepted is before what is missing
      obtain ⟨a', ha', -, hsub', -, hal, hal'⟩ := hm.accepted
      rw [hXV] at hal'
      have hbefore := hm.nextIndex_le_of_not_hasId hs hal hal' hz hnot
      rw [hcut.submitted, htips]
      refine hsub'.trans ?_
      rw [hs.le_iff_nextIndex hall hal' ((holds_tipId hlog.2).mono hpes),
        nextIndex_tipId hlog.2, hes, List.length_append, List.length_cons]
      omega
  obtain ⟨a, ha, hav, hae, -, hal, hal'⟩ := nextAccepted_spec hcut.mem hXV1
    (e1.doAppendEntries (first :: rest)).state rfl (l := X1.full h ++ first :: rest)
    (by rw [hfull1, ← hes]; exact hlastl) (by rw [hcfg]; exact hlastl.mono hpes)
    fun _ ha => (LogMem.holds_accepted hcut.mem ha).mono (List.prefix_append _ _)
  have hmem : LogMem e1.config.mode h e1.config.id (X1.step (.appendEntries V (first :: rest)))
      ((e1.doAppendEntries (first :: rest)).acceptLogIo
        (.newLogIo V (max (tipId pre) (tipId es)))).state := by
    have heq := RaftState.acceptLogIo_eq e1.config.mode (e1.doAppendEntries (first :: rest)).state
      (.newLogIo V (max (tipId pre) (tipId es)))
    have htips' : tipId (first :: rest) ≤ max (tipId pre) (tipId es) := by
      rw [hsplit, tipId_append (by simp)]
      exact le_max_right _ _
    refine LogMem.append (hcfg ▸ hs) hcut.mem hok ?_ ?_ ?_ ?_ ?_ ?_ ?_ ?_ ha hav (htips'.trans hae)
      hal hal'
    · exact acceptLogIo_voteRef _ _ _
    · exact (congrArg RaftState.logIds heq).trans rfl
    · refine (congrArg RaftState.membershipState heq).trans ?_
      exact MembershipState.foldl_append_lastTwo (storedMemberships (first :: rest)) _
    · exact (congrArg RaftState.snapshotMeta heq).trans rfl
    · exact (congrArg RaftState.purgeUpto heq).trans rfl
    · exact (congrArg RaftState.localCommitted heq).trans rfl
    · exact (congrArg (fun s => s.ioState.clusterCommitted) heq).trans rfl
    · exact (congrArg (fun s => s.ioState.snapshot) heq).trans rfl
  have hpush : Moves h X1 e1 (X1.step (.appendEntries V (first :: rest)))
      ((e1.doAppendEntries (first :: rest)).acceptLogIo
        (.newLogIo V (max (tipId pre) (tipId es)))) := by
    have hcmd : e1.doAppendEntries (first :: rest) = { e1 with state :=
        (e1.doAppendEntries (first :: rest)).state }.pushCommand
          (.appendEntries V (first :: rest)) := by
      unfold doAppendEntries
      rw [hv1]
      rfl
    have hmoves : Moves h X1 e1 (X1.step (.appendEntries V (first :: rest)))
        (e1.doAppendEntries (first :: rest)) := by
      rw [hcmd]
      exact .push_of_output _ rfl rfl (.of_eq rfl) hok
    exact hmoves.trans (.of_output rfl rfl (.acceptLogIo _ _ _))
  refine ⟨_, hcut.moves.trans hpush, hmem, hcut.vote, hcut.streams, ?_, hcut.leading,
    hcut.candidate, a, ha, hav, (segmentLast_le _ _).trans hae, ?_, by rw [← hcfg]; exact hal'⟩
  · exact (acceptLogIo_voteRef _ _ _).trans hcut.voteRef
  · rw [View.full_append]
    exact hal

theorem followingAppendEntries_follows (hs : h.Sound e.config.mode) (hm : e.Mem h X)
    (hXV : X.vote = ⟨V, true⟩) (hv : e.state.voteRef = ⟨V, true⟩) (hstreams : X.streams = none)
    {prev : Option (LogId NID)} {es : List (Entry NID N D)}
    (hslice : Slice (h.log (V.toCommitted e.config.mode)) prev es) (hprev : Holds (X.full h) prev) :
    ∃ X', Follows h X e V (segmentLast prev es) X' (e.followingAppendEntries prev es) := by
  obtain ⟨pre, post, hlog, rfl⟩ := hslice
  obtain ⟨present, hsplit, hle⟩ := toAppend_split hs hm hXV hlog hprev
  have hpes : pre ++ es <+: h.log (V.toCommitted e.config.mode) := by
    rw [hlog]
    exact List.prefix_append _ _
  cases happ : e.toAppend es with
  | nil =>
    rw [happ, List.append_nil] at hsplit
    rw [← hsplit] at hle
    obtain ⟨hpre, htip⟩ := holds_tipId_append ((hs.isLog_log _).of_le hpes).2
    have hlastl := holds_max hpre htip
    exact followingAppendEntries_present hs hm hXV hv happ (hlastl.mono hle) (hlastl.mono hpes)
  | cons first rest =>
    rw [happ] at hsplit
    exact followingAppendEntries_missing hs hm hXV hv hstreams hpes happ hsplit hle

/-! ## Requests -/

/-- A request of the leader `V` that reaches the node `id`. -/
structure RequestOK (mode : LeaderIdMode) (h : History NID N D) (id : NID) (V : LeaderId NID)
    (ctx : StreamCtx NID) (req : AppendEntriesRequest NID N D) : Prop where
  vote : req.vote = ⟨V, true⟩
  target : ctx.target = id
  ctx : ctx.leaderVote = V
  leader : h.leader V
  other : V.nodeId ≠ id
  slice : Slice (h.log (V.toCommitted mode)) req.prevLogId req.entries
  com : ∀ c, req.leaderCommit = some c → h.com (V.toCommitted mode) c

/-- A node that follows `V`. -/
structure Following (h : History NID N D) (X : View NID N D) (e : Engine NID N D)
    (V : LeaderId NID) : Prop where
  vote : X.vote = ⟨V, true⟩
  voteRef : e.state.voteRef = ⟨V, true⟩
  other : V.nodeId ≠ e.config.id
  leading : e.leading = none
  candidate : e.candidate = none
  streams : X.streams = none

theorem Following.role (hf : Following h X e V) : e.Role h X :=
  role_of_following hf.leading hf.candidate hf.streams
    (isLeading_false _ _ (by rw [hf.voteRef]; exact hf.other)).2

theorem Following.of_follows (hf : Following h X e V) {last : Option (LogId NID)}
    (hfo : Follows h X e V last X' e') : Following h X' e' V :=
  ⟨hfo.vote.trans hf.vote, hfo.voteRef.trans hf.voteRef, by rw [hfo.moves.config]; exact hf.other,
    hfo.leading.trans hf.leading, hfo.candidate.trans hf.candidate, hfo.streams.trans hf.streams⟩

theorem Following.of_cutAt (hf : Following h X e V) {n : Nat} (hc : CutAt h X e n X' e') :
    Following h X' e' V :=
  ⟨hc.vote.trans hf.vote, hc.voteRef.trans hf.voteRef, by rw [hc.moves.config]; exact hf.other,
    hc.leading.trans hf.leading, hc.candidate.trans hf.candidate, hc.streams.trans hf.streams⟩

/-- `update_vote` with the vote of a leader: the node follows it, or has a later vote. -/
theorem updateVote_following (hs : h.Sound e.config.mode) (hm : e.Mem h X) (hr : e.Role h X)
    (hV : h.leader V) (hother : V.nodeId ≠ e.config.id) (now : Nat) :
    ∃ X', Keeps h X e X' (e.updateVote now ⟨V, true⟩).1 ∧
      ((e.updateVote now ⟨V, true⟩).2 = true →
        Following h X' (e.updateVote now ⟨V, true⟩).1 V) ∧
      ((e.updateVote now ⟨V, true⟩).2 = false → (e.updateVote now ⟨V, true⟩).1 = e ∧ X' = X ∧
        Vote.rank e.config.mode ⟨V, true⟩ ≤ X.vote.rank e.config.mode) := by
  obtain ⟨X', hk, -, hacc, hrej⟩ :=
    updateVote_keeps (v := ⟨V, true⟩) hs hm hr (fun _ => hV) hother now
  refine ⟨X', hk, ?_, ?_⟩
  · intro hok
    obtain ⟨hvr, hXv, hl, hc⟩ := hacc hok
    exact ⟨hXv, hvr, by rw [hk.config]; exact hother, hl, hc, (hk.role.follower hl).1⟩
  · intro hno
    obtain ⟨he, hX, hge⟩ := hrej hno
    refine ⟨he, hX, ?_⟩
    have hle : Vote.rank e.config.mode ⟨V, true⟩ ≤ e.state.voteRef.rank e.config.mode := by
      by_contra hlt
      rw [Vote.ge_iff.2 (Or.inr (not_le.1 hlt))] at hge
      cases hge
    exact hle.trans (Vote.HeldAs.rank_le hm.vote)

/-- What is done with the entries of the leader that the node follows. -/
theorem followEntries (hs : h.Sound e.config.mode) (hm : e.Mem h X) (hf : Following h X e V)
    {prev : Option (LogId NID)} {es : List (Entry NID N D)}
    (hslice : Slice (h.log (V.toCommitted e.config.mode)) prev es) :
    (∃ X' err, Moves h X e X' (e.ensureLogConsecutive prev).1 ∧
      (e.ensureLogConsecutive prev).1.Mem h X' ∧ Following h X' (e.ensureLogConsecutive prev).1 V ∧
      (e.ensureLogConsecutive prev).2 = some (.conflict err)) ∨
    e.ensureLogConsecutive prev = (e, none) ∧
      ∃ X', Follows h X e V (segmentLast prev es) X' (e.followingAppendEntries prev es) := by
  have hprevV : Holds (h.log (V.toCommitted e.config.mode)) prev := by
    obtain ⟨pre, post, hlog, rfl⟩ := hslice
    have hle : pre <+: h.log (V.toCommitted e.config.mode) := by
      rw [hlog, List.append_assoc]
      exact List.prefix_append _ _
    exact (holds_tipId ((hs.isLog_log _).of_le hle).2).mono hle
  cases hp : prev with
  | none =>
    refine Or.inr ⟨rfl, ?_⟩
    exact followingAppendEntries_follows hs hm hf.vote hf.voteRef hf.streams (hp ▸ hslice)
      holds_none
  | some p =>
    have hpV := hprevV p hp
    unfold ensureLogConsecutive
    by_cases hhas : e.state.hasLogId p = true
    · right
      simp only [hhas, if_true, true_and]
      exact followingAppendEntries_follows hs hm hf.vote hf.voteRef hf.streams (hp ▸ hslice)
        (holds_some.2 ((hm.hasLogId_iff hs hf.vote hpV).1 hhas))
    · left
      simp only [hhas]
      obtain ⟨X', hcut⟩ := truncateLogs_cutAt hs hm hf.vote hpV
        fun hx => hhas ((hm.hasLogId_iff hs hf.vote hpV).2 hx)
      exact ⟨X', _, hcut.moves, hcut.mem, hf.of_cutAt hcut, rfl⟩

/-- `Engine::handle_append_entries`, for a request of a leader. -/
theorem handleAppendEntries_keeps (hs : h.Sound e.config.mode) (hm : e.Mem h X) (hr : e.Role h X)
    {ctx : StreamCtx NID} {req : AppendEntriesRequest NID N D}
    (hreq : RequestOK e.config.mode h e.config.id V ctx req) (now : Nat) :
    ∃ X', Keeps h X e X' (e.handleAppendEntries now ctx req.vote req.prevLogId req.entries) ∧
      Vote.rank e.config.mode ⟨V, true⟩ ≤ X'.vote.rank e.config.mode := by
  obtain ⟨X1, hk1, hacc, hrej⟩ := updateVote_following hs hm hr hreq.leader hreq.other now
  have hcfg := hk1.config
  unfold handleAppendEntries appendEntries
  rw [hreq.vote]
  generalize e.updateVote now ⟨V, true⟩ = r at *
  obtain ⟨e1, ok⟩ := r
  cases ok with
  | false =>
    obtain ⟨-, hX, hrank⟩ := hrej rfl
    have hst := Stays.push (.respond none (.appendEntries ctx
      (.error (.higherVote e1.state.voteRef)))) hk1.mem hk1.mem.led rfl
    refine ⟨X1, hk1.trans (.of_stays hk1.role hst), ?_⟩
    rw [hX]
    exact hrank
  | true =>
    have hf := hacc rfl
    have hslice : Slice (h.log (V.toCommitted e1.config.mode)) req.prevLogId req.entries := by
      rw [hcfg]
      exact hreq.slice
    rcases followEntries (hcfg ▸ hs) hk1.mem hf hslice with
      ⟨X2, err, hmoves, hmem, hf2, herr⟩ | ⟨hnone, X2, hfo⟩
    · dsimp only
      generalize e1.ensureLogConsecutive req.prevLogId = r at *
      obtain ⟨e2, res⟩ := r
      obtain rfl : res = some (.conflict err) := herr
      have hk2 : Keeps h X1 e1 X2 e2 := ⟨hmoves, hmem, hf2.role⟩
      have hst := Stays.push (.respond none (.appendEntries ctx (.error (.conflict err)))) hmem
        (by trivial) rfl
      refine ⟨X2, hk1.trans (hk2.trans (.of_stays hf2.role hst)), ?_⟩
      rw [hf2.vote]
    · dsimp only
      rw [hnone]
      dsimp only
      generalize e1.followingAppendEntries req.prevLogId req.entries = e2 at *
      have hf2 := hf.of_follows hfo
      have hk2 : Keeps h X1 e1 X2 e2 := ⟨hfo.moves, hfo.mem, hf2.role⟩
      obtain ⟨a, ha, hav, hle, hal, hal'⟩ := hfo.accepted
      have hok : X2.RespondOK e2.config.mode h e2.config.id (e2.state.acceptedLogIo.map .ioFlushed)
          (.appendEntries ctx (.ok (segmentLast req.prevLogId req.entries))) := by
        refine ⟨?_, ?_, a, by rw [ha]; rfl, hav, hle, hal, ?_, ?_⟩
        · rw [hreq.target, hfo.moves.config, hk1.config]
        · rw [hreq.ctx]
          exact hf2.vote
        · rw [hreq.ctx, hfo.moves.config]
          exact hal'
        · rw [hreq.ctx, hfo.moves.config]
          exact hslice.holds_segmentLast hs
      have hst := Stays.push (.respond (e2.state.acceptedLogIo.map .ioFlushed)
        (.appendEntries ctx (.ok (segmentLast req.prevLogId req.entries)))) hfo.mem hok rfl
      refine ⟨X2, hk1.trans (hk2.trans (.of_stays hf2.role hst)), ?_⟩
      rw [hf2.vote]

/-- `RaftCore::handle_append_entries_request`: the commit update follows in every case. -/
theorem handleAppendEntriesRequest_keeps (hs : h.Sound e.config.mode) (hm : e.Mem h X)
    (hr : e.Role h X) {ctx : StreamCtx NID} {req : AppendEntriesRequest NID N D}
    (hreq : RequestOK e.config.mode h e.config.id V ctx req) (now : Nat) :
    ∃ X' e', e' = e.handleAppendEntries now ctx req.vote req.prevLogId req.entries ∧
      Keeps h X e X' { e' with
        state := e'.state.updateCommitted e'.config.mode
          ⟨req.vote.leaderId, req.leaderCommit⟩ } := by
  obtain ⟨X', hk, hrank⟩ := handleAppendEntries_keeps hs hm hr hreq now
  refine ⟨X', _, rfl, ?_⟩
  generalize e.handleAppendEntries now ctx req.vote req.prevLogId req.entries = e1 at *
  have hcfg := hk.config
  have hst := updateCommitted_stays (hcfg ▸ hs) hk.mem ⟨req.vote.leaderId, req.leaderCommit⟩
    (by rw [hcfg, hreq.vote]; exact hrank) (by
      intro c hc
      rw [hcfg, hreq.vote]
      exact ⟨hreq.leader, hreq.com c hc⟩)
  exact hk.trans (.of_stays hk.role hst)

/-! ## Snapshots -/

/-- The log before a snapshot that ends at `last` is installed: it has this end, or it ends
    before it. -/
structure Prepared (h : History NID N D) (X : View NID N D) (e : Engine NID N D) (last : LogId NID)
    (X' : View NID N D) (e' : Engine NID N D) : Prop where
  moves : Moves h X e X' e'
  ok : X'.OK e.config.mode h
  vote : X'.vote = X.vote
  streams : X'.streams = X.streams
  purged : X'.purged = X.purged
  io : X'.io = X.io
  logIds : e'.state.logIds = ⟨X'.purged, X'.entries.map Entry.logId⟩
  voteRef : e'.state.voteRef = e.state.voteRef
  ioState : e'.state.ioState = e.state.ioState
  leading : e'.leading = e.leading
  candidate : e'.candidate = e.candidate
  cases : HasId (X.full h) last ∧ X' = X ∧ e' = e ∨
    ¬ HasId (X.full h) last ∧ (X'.full h).length ≤ last.index ∧
      optIndex e'.state.membershipState.effective.logId ≤ some last.index

omit [LinearOrder NID] in
theorem truncate_effective_le {s : MembershipState NID N} {n m : Nat}
    (hc : nextIndex s.committed.logId ≤ m + 1) (hn : n ≤ m + 1) :
    optIndex (s.truncate n).effective.logId ≤ some m := by
  rw [MembershipState.optIndex_le_some]
  unfold MembershipState.truncate
  split
  · exact hc
  · rename_i hnot
    rw [MembershipState.some_le_optIndex] at hnot
    omega

theorem truncateForSnapshot_prepared (hs : h.Sound e.config.mode) (hm : e.Mem h X)
    (hXV : X.vote = ⟨V, true⟩) {last : LogId NID}
    (hcom : h.com (V.toCommitted e.config.mode) last)
    (hlt : nextIndex e.state.localCommitted ≤ last.index) :
    ∃ X', Prepared h X e last X' (e.truncateForSnapshot last) := by
  have hpurged := hm.purged_le_committed
  have hlastV := hs.com_mem _ last hcom
  by_cases hlast : HasId (X.full h) last
  · have hget := hm.getLogId_eq_some.2 ⟨rfl, hlast, by omega⟩
    have hsame : e.truncateForSnapshot last = e := by
      unfold truncateForSnapshot
      rw [hget]
      exact if_pos rfl
    rw [hsame]
    exact ⟨X, .refl X e, hm.ok, rfl, rfl, rfl, rfl, hm.logIds, rfl, rfl, rfl, rfl,
      Or.inl ⟨hlast, rfl, rfl⟩⟩
  · have hmemb := hm.nextIndex_le_of_not_hasId hs hm.holds_committed
      (hm.holds_log_membership hs hXV) hlastV hlast
    unfold truncateForSnapshot
    cases hy : e.state.getLogId last.index with
    | none =>
      have hlen : (X.full h).length ≤ last.index := by
        by_contra hcon
        obtain ⟨y, hyi, hyl⟩ := exists_hasId (l := X.full h) (i := last.index) (by omega)
        rw [hm.getLogId_eq_some.2 ⟨hyi, hyl, by omega⟩] at hy
        cases hy
      refine ⟨X, .refl X e, hm.ok, rfl, rfl, rfl, rfl, hm.logIds, rfl, rfl, rfl, rfl,
        Or.inr ⟨hlast, hlen, ?_⟩⟩
      rw [MembershipState.optIndex_le_some]
      exact hm.holds_effective.nextIndex_le.trans (by omega)
    | some y =>
      obtain ⟨hyi, hyl, -⟩ := hm.getLogId_eq_some.1 hy
      have hne : y ≠ last := fun heq => hlast (heq ▸ hyl)
      have hylen := hyl.lt_length
      dsimp only
      rw [if_neg hne]
      -- the log is cut from the first id on that is not committed
      obtain ⟨n, hn⟩ : ∃ n, n = nextIndex e.state.localCommitted := ⟨_, rfl⟩
      rw [← hn]
      obtain ⟨w, hwi, hwl⟩ := exists_hasId (l := X.full h) (i := n) (by omega)
      have hgetw := hm.getLogId_eq_some.2 ⟨hwi, hwl, by omega⟩
      obtain ⟨hafter, -⟩ := hm.prevLogId_eq (i := n) (by omega) (by omega)
      have hok : X.TruncateOK e.config.mode h (e.state.prevLogId n) := by
        refine ⟨by rw [hXV], by omega, last, ⟨by rw [hXV]; exact hlastV, y, hyl, hyi, hne⟩, ?_⟩
        rw [hafter]
        rcases Nat.lt_or_ge n last.index with hlt' | hge
        · exact Or.inr ⟨hlt', V, hm.ok.leader_of hXV, hcom, by rw [hXV]⟩
        · exact Or.inl (by omega)
      have hfull := View.full_truncate hm.ok hok.2.1
      rw [hafter] at hfull
      unfold truncateLogs
      rw [hgetw]
      refine ⟨X.step (.truncateLog (e.state.prevLogId n)),
        .push_of_output (.truncateLog (e.state.prevLogId n)) rfl rfl (.of_eq rfl) hok,
        hm.ok.of_le rfl rfl rfl rfl hm.ok.purged (by rw [hfull]; exact List.take_prefix _ _),
        rfl, rfl,
        rfl, rfl, ?_, rfl, rfl, rfl, rfl, Or.inr ⟨hlast, ?_, ?_⟩⟩
      · show e.state.logIds.truncate n = ⟨X.purged, _⟩
        rw [hm.logIds]
        show (⟨X.purged, (X.entries.map Entry.logId).filter fun x => decide (x.index < n)⟩ :
          LogIds NID) = ⟨X.purged, (X.entries.filter fun ent =>
            decide (ent.logId.index < nextIndex (e.state.prevLogId n))).map Entry.logId⟩
        rw [hafter, List.filter_map]
        rfl
      · rw [hfull, List.length_take]
        omega
      · exact truncate_effective_le (by omega) (by omega)

/-- The fields that `accept_snapshot` and the purge after it write. -/
structure Accepted (e : Engine NID N D) (V : LeaderId NID) (snapshot : Snapshot NID N D)
    (last : LogId NID) (s : RaftState NID N) : Prop where
  voteRef : s.voteRef = e.state.voteRef
  snapshotMeta : s.snapshotMeta = e.state.snapshotMeta
  localCommitted : s.localCommitted = some last
  purgeUpto : s.purgeUpto = some last
  clusterCommitted : s.ioState.clusterCommitted = e.state.ioState.clusterCommitted
  membershipState : s.membershipState = e.state.membershipState.installMembershipSnapshot
    snapshot.snapshotMeta.lastMembership last.index
  accepted : s.acceptedLogIo =
    (e.state.acceptLogIo e.config.mode (.newLogIo V (some last))).acceptedLogIo
  building : s.ioState.snapshot.accepted = some last

theorem acceptSnapshot_accepted (e : Engine NID N D) (V : LeaderId NID)
    (snapshot : Snapshot NID N D) (last : LogId NID) :
    Accepted e V snapshot last (e.acceptSnapshot ⟨V, some last⟩ snapshot last).state ∧
      (e.acceptSnapshot ⟨V, some last⟩ snapshot last).state.logIds = e.state.logIds := by
  have heq := RaftState.acceptLogIo_eq e.config.mode e.state (.log ⟨V, some last⟩)
  refine ⟨⟨?_, ?_, rfl, rfl, ?_, ?_, rfl, rfl⟩, ?_⟩
  · exact acceptLogIo_voteRef _ _ _
  · exact (congrArg RaftState.snapshotMeta heq).trans rfl
  · exact congrArg (fun s => s.ioState.clusterCommitted) heq
  · exact congrArg (fun s => s.membershipState.installMembershipSnapshot
      snapshot.snapshotMeta.lastMembership last.index) heq
  · exact (congrArg RaftState.logIds heq).trans rfl

/-- The state when a snapshot that ends at `last` is accepted and the log is purged up to there. -/
theorem LogMem.installed {mode : LeaderIdMode} {id : NID} {s s' : RaftState NID N}
    (hm : LogMem mode h id X s) (hXV : X.vote = ⟨V, true⟩) {last : LogId NID}
    (hcom : h.com (V.toCommitted mode) last) (hok : X'.OK mode h)
    (hvote : X'.vote = X.vote)
    (hpurged : X'.purged = some last) (hvr : s'.voteRef = s.voteRef)
    (hids : s'.logIds = ⟨some last, X'.entries.map Entry.logId⟩)
    (hacc : ∃ a, s'.acceptedLogIo = some a ∧ a.toVote = X.vote ∧
      X'.submitted.lastLogId ≤ a.lastLogId ∧ (X'.io ≠ none → tipId (X'.full h) ≤ a.lastLogId) ∧
      Holds (X'.full h) a.lastLogId ∧ Holds (h.log (V.toCommitted mode)) a.lastLogId)
    (hlc : s'.localCommitted = some last)
    (hcc : s'.ioState.clusterCommitted = s.ioState.clusterCommitted)
    (hsnap : s'.snapshotMeta.lastLogId = some last) (hpurge : s'.purgeUpto = some last)
    (hmem : MembershipState.Tracks (storedMemberships (X'.full h)) s'.membershipState)
    (hmc : ∀ x, s'.membershipState.committed.logId = some x → h.Com mode X.vote x)
    (hbuild : s'.ioState.snapshot.accepted = some last) :
    LogMem mode h id X' s' := by
  have hlast : Holds (X'.full h) (some last) := hpurged ▸ LogMem.holds_purged hok
  have hV := hm.ok.leader_of hXV
  refine ⟨?_, ?_, hok, ?_, ?_, ?_, ?_, ?_, ?_, ?_, ?_, ?_, hmem, ?_, (hbuild.trans hlc.symm).le⟩
  · rw [hvote, hvr]
    exact hm.vote
  · rw [hids, hpurged]
  · rw [hvote, hXV] at *
    exact hacc
  · rw [hlc]
    exact hlast
  · intro c hc
    obtain rfl := Option.some.inj (hlc.symm.trans hc)
    refine ⟨V, hV, hcom, ?_⟩
    rw [hvote, hXV]
  · rw [hcc, hvote]
    exact hm.cluster
  · rw [hsnap]
    exact hlast
  · rw [hsnap, hlc]
  · rw [hpurge]
    exact hlast
  · rw [hpurge, hsnap]
  · rw [hpurge, hpurged]
  · rw [hvote]
    exact hmc

theorem purgeLog_of_lt {upto : LogId NID} (hupto : e.state.purgeUpto = some upto)
    (hlt : ¬ some upto ≤ e.state.logIds.purged) :
    e.purgeLog = { e with state :=
      { e.state with logIds := e.state.logIds.purge upto } }.pushCommand
      (.purgeLog upto) := by
  unfold purgeLog
  rw [hupto]
  exact if_neg hlt

/-- A log that ends before `upto` is purged as a whole. -/
theorem logIds_purge_ahead (hX : X.OK e.config.mode h) {ids : LogIds NID}
    (hids : ids = ⟨X.purged, X.entries.map Entry.logId⟩) {upto : LogId NID}
    (hlen : (X.full h).length ≤ upto.index) :
    ids.purge upto = ⟨some upto, (X.step (.purgeLog upto)).entries.map Entry.logId⟩ := by
  have hcons : ids.Consecutive := by
    intro i x hx
    rw [hids] at hx ⊢
    rw [List.getElem?_map, Option.map_eq_some_iff] at hx
    obtain ⟨ent, hent, rfl⟩ := hx
    exact hX.indexed i ent hent
  have hlen' := hX.length_full
  have hlast : nextIndex ids.last ≤ upto.index := by
    rw [hcons.nextIndex_last, hids]
    show nextIndex X.purged + (X.entries.map Entry.logId).length ≤ _
    rw [List.length_map]
    omega
  have hnil : (X.step (.purgeLog upto)).entries = [] := by
    have hfilter := hX.indexed.filter_ge (upto.index + 1)
    simp only [Nat.succ_le_iff] at hfilter
    show X.entries.filter _ = []
    rw [hfilter, List.drop_eq_nil_of_le (by omega)]
  unfold LogIds.purge
  rw [if_pos hlast, hnil]
  rfl

theorem truncateForSnapshot_withMeta (e : Engine NID N D) (m : SnapshotMeta NID N)
    (last : LogId NID) :
    { e with state := { e.state with snapshotMeta := m } }.truncateForSnapshot last =
      { e.truncateForSnapshot last with
        state := { (e.truncateForSnapshot last).state with snapshotMeta := m } } := by
  have hget : { e with state := { e.state with snapshotMeta := m } }.state.getLogId last.index =
    e.state.getLogId last.index := rfl
  unfold truncateForSnapshot
  rw [hget]
  cases e.state.getLogId last.index with
  | none => rfl
  | some x =>
    dsimp only
    split
    · rfl
    · unfold truncateLogs
      have hget' : { e with state := { e.state with snapshotMeta := m } }.state.getLogId
        (nextIndex { e with state := { e.state with snapshotMeta := m } }.state.localCommitted) =
          e.state.getLogId (nextIndex e.state.localCommitted) := rfl
      rw [hget']
      cases e.state.getLogId (nextIndex e.state.localCommitted) with
      | none => rfl
      | some y => rfl

/-- The engine when the snapshot that ends at `last` is installed. -/
def installed (e : Engine NID N D) (V : LeaderId NID) (snapshot : Snapshot NID N D)
    (last : LogId NID) : Engine NID N D :=
  ((({ e with state := { e.state with snapshotMeta := snapshot.snapshotMeta }
    }.truncateForSnapshot last).acceptSnapshot ⟨V, some last⟩ snapshot last)).purgeLog

/-- What it is, for the log that was prepared. -/
theorem installed_eq (hp : Prepared h X e last X' e') (he' : e' = e.truncateForSnapshot last)
    {V : LeaderId NID} {snapshot : Snapshot NID N D}
    (hlt : ¬ some last ≤ X.purged) :
    ∃ s, Accepted { e' with state := { e'.state with snapshotMeta := snapshot.snapshotMeta } } V
        snapshot last s ∧ s.logIds = e'.state.logIds.purge last ∧
      e.installed V snapshot last = (({ e' with state := s }.pushCommand
        (.stateMachine (.installFullSnapshot ⟨V, some last⟩ snapshot))).pushCommand
          (.purgeLog last)) := by
  have hstart : e.installed V snapshot last = (({ e' with state := { e'.state with
      snapshotMeta := snapshot.snapshotMeta } }).acceptSnapshot ⟨V, some last⟩ snapshot
        last).purgeLog := by
    unfold installed
    rw [truncateForSnapshot_withMeta, ← he']
  obtain ⟨hacc, hids⟩ := acceptSnapshot_accepted { e' with state := { e'.state with
    snapshotMeta := snapshot.snapshotMeta } } V snapshot last
  have hpurged : ¬ some last ≤ (({ e' with state := { e'.state with
      snapshotMeta := snapshot.snapshotMeta } }).acceptSnapshot ⟨V, some last⟩ snapshot
        last).state.logIds.purged := by
    rw [hids]
    show ¬ some last ≤ e'.state.logIds.purged
    rw [hp.logIds, hp.purged]
    exact hlt
  rw [hstart, purgeLog_of_lt hacc.purgeUpto hpurged]
  obtain ⟨e2, he2⟩ : ∃ e2, e2 = ({ e' with state := { e'.state with
      snapshotMeta := snapshot.snapshotMeta } }).acceptSnapshot ⟨V, some last⟩ snapshot last :=
    ⟨_, rfl⟩
  rw [← he2] at hacc hids ⊢
  refine ⟨{ e2.state with logIds := e2.state.logIds.purge last },
    ⟨hacc.voteRef, hacc.snapshotMeta, hacc.localCommitted, hacc.purgeUpto, hacc.clusterCommitted,
      hacc.membershipState, hacc.accepted, hacc.building⟩, ?_, ?_⟩
  · show LogIds.purge _ last = _
    rw [hids]
  · rw [he2]
    rfl

omit [LinearOrder NID] in
theorem lastMembershipIn_eq (l : List (Entry NID N D)) :
    lastMembershipIn l = MembershipState.lastOf (storedMemberships l) := rfl

/-- The memberships when a snapshot that ends in the log is installed. -/
theorem installMembership_tracks (hs : h.Sound e.config.mode) (hm : e.Mem h X) {last : LogId NID}
    (hlast : HasId (X.full h) last) {m : StoredMembership NID N}
    (hmem : m = lastMembershipIn (h.upTo (some last))) {v : Vote NID}
    (hcom : h.Com e.config.mode v last) (hv : X.vote = v) :
    MembershipState.Tracks (storedMemberships (X.full h))
        (e.state.membershipState.installMembershipSnapshot m last.index) ∧
      ∀ x, (e.state.membershipState.installMembershipSnapshot m last.index).committed.logId =
        some x → h.Com e.config.mode X.vote x := by
  have hlog := hm.ok.log
  have htake := hlog.take_eq_upTo hlast
  have htracks := hm.membership
  have hsplit := splitAt_storedMemberships hlog.2 (last.index + 1)
  rw [storedMemberships_take_drop (X.full h) (last.index + 1)] at htracks
  have hord : ∀ m ∈ storedMemberships ((X.full h).take (last.index + 1)),
      ∀ m' ∈ storedMemberships ((X.full h).drop (last.index + 1)), m.logId < m'.logId := by
    intro m hm1 m' hm2
    have hlt : nextIndex m.logId < nextIndex m'.logId :=
      lt_of_le_of_lt (hsplit.before m hm1) (hsplit.after m' hm2)
    have hholds : ∀ m ∈ storedMemberships (X.full h), Holds (X.full h) m.logId := by
      intro m hm
      obtain ⟨ent, hent, hid, -⟩ := exists_of_mem_storedMemberships hm
      rw [hid]
      exact holds_some.2 ((hasId_iff_mem hlog.2).2 ⟨ent, hent, rfl⟩)
    have hall := storedMemberships_take_drop (X.full h) (last.index + 1)
    rw [← not_le, hs.le_iff_nextIndex hlog
      (hholds m' (by rw [hall]; exact List.mem_append_right _ hm2))
      (hholds m (by rw [hall]; exact List.mem_append_left _ hm1))]
    omega
  obtain ⟨hinst, hc⟩ := htracks.install hsplit hord
  rw [← storedMemberships_take_drop, htake, ← lastMembershipIn_eq, ← hmem] at hinst
  rw [htake, ← lastMembershipIn_eq, ← hmem] at hc
  refine ⟨hinst, ?_⟩
  intro x hx
  rcases hc with hc | hc
  · rw [hc, hmem, lastMembershipIn_eq] at hx
    rw [hv]
    exact hs.com_below hcom (holds_lastOf (hs.isLog_upTo _).2 (fun _ hm => hm) x hx)
  · rw [hc] at hx
    exact hm.membership_com x hx

/-- The log when a snapshot of the leader is installed: as it was if it had the end of the
    snapshot, and otherwise what the history has up to there. -/
theorem installed_log (hs : h.Sound e.config.mode) (hm : e.Mem h X) (hf : Following h X e V)
    {snapshot : Snapshot NID N D} (hsn : h.SnapshotOK e.config.mode V snapshot) {last : LogId NID}
    (hlast : snapshot.snapshotMeta.lastLogId = some last) (hprep : Prepared h X e last X' e')
    (hlt : nextIndex X'.purged ≤ last.index) {s : RaftState NID N}
    (hids : s.logIds = e'.state.logIds.purge last)
    (hmst : s.membershipState = e'.state.membershipState.installMembershipSnapshot
      snapshot.snapshotMeta.lastMembership last.index) :
    X'.PurgeOK e.config.mode h last ∧
      s.logIds = ⟨some last, (X'.step (.purgeLog last)).entries.map Entry.logId⟩ ∧
      (∀ a, e.state.acceptedLogIo = some a →
        Holds ((X'.step (.purgeLog last)).full h) a.lastLogId) ∧
      (tipId ((X'.step (.purgeLog last)).full h) = tipId (X.full h) ∨
        tipId ((X'.step (.purgeLog last)).full h) = some last) ∧
      MembershipState.Tracks (storedMemberships ((X'.step (.purgeLog last)).full h))
        s.membershipState ∧
      ∀ x, s.membershipState.committed.logId = some x → h.Com e.config.mode X.vote x := by
  obtain ⟨hcom, hmemb, -⟩ := hsn last hlast
  have hXV := hf.vote
  have hlastV := hs.com_mem _ last hcom
  have hV := hm.ok.leader_of hXV
  have hcomX : h.Com e.config.mode ⟨V, true⟩ last := ⟨V, hV, hcom, le_rfl⟩
  have hknown := hs.com_known hcomX
  rcases hprep.cases with ⟨hhas, rfl, rfl⟩ | ⟨hnot, hlen, heff⟩
  · obtain ⟨htracks, hmc⟩ := installMembership_tracks hs hm hhas hmemb hcomX hXV
    have hfull := View.full_purge hm.ok hlt hhas
    refine ⟨⟨hlt, Or.inl hhas⟩, hids.trans (hm.logIds_purge hhas hlt), ?_, ?_, ?_, ?_⟩
    · intro a ha
      rw [hfull]
      exact hm.holds_accepted ha
    · rw [hfull]
      exact Or.inl rfl
    · rw [hfull, hmst]
      exact htracks
    · rw [hmst]
      exact hmc
  · have hfull := View.full_purge_ahead hprep.ok hlen
    have hm2 : s.membershipState = ⟨snapshot.snapshotMeta.lastMembership,
        snapshot.snapshotMeta.lastMembership⟩ := by
      rw [hmst]
      unfold MembershipState.installMembershipSnapshot
      rw [if_pos heff]
    refine ⟨⟨hlt, Or.inr ⟨?_, ?_, hlen, hprep.streams.trans hf.streams⟩⟩,
      hids.trans (logIds_purge_ahead hprep.ok hprep.logIds hlen), ?_, ?_, ?_, ?_⟩
    · rw [hprep.vote, hXV]
    · rw [hprep.vote, hXV]
      exact hcomX
    · intro a ha
      rw [hfull]
      obtain ⟨a', ha', -, -, -, hal, hal'⟩ := hm.accepted
      obtain rfl := Option.some.inj (ha'.symm.trans ha)
      rw [hXV] at hal'
      have hle := hm.nextIndex_le_of_not_hasId hs hal hal' hlastV hnot
      intro x hx
      rw [hx, nextIndex_some] at hle
      rw [← (hs.isLog_log _).take_eq_upTo hlastV]
      exact hasId_take_iff.2 ⟨by omega, hal' x hx⟩
    · right
      rw [hfull, tipId_eq_some (hs.isLog_upTo _).2]
      exact ⟨History.hasId_upTo hknown, (History.length_upTo hknown).symm⟩
    · rw [hfull, hm2, hmemb]
      exact ⟨rfl, Or.inl rfl⟩
    · intro x hx
      rw [hm2] at hx
      have hx : snapshot.snapshotMeta.lastMembership.logId = some x := hx
      rw [hmemb, lastMembershipIn_eq] at hx
      rw [hXV]
      exact hs.com_below hcomX (holds_lastOf (hs.isLog_upTo _).2 (fun _ hm => hm) x hx)

/-- A snapshot of the leader that the node follows is installed. -/
theorem installed_mem (hs : h.Sound e.config.mode) (hm : e.Mem h X) (hf : Following h X e V)
    {snapshot : Snapshot NID N D} (hsn : h.SnapshotOK e.config.mode V snapshot) {last : LogId NID}
    (hlast : snapshot.snapshotMeta.lastLogId = some last)
    (hlt : nextIndex e.state.localCommitted ≤ last.index) :
    ∃ X', Moves h X e X' (e.installed V snapshot last) ∧ (e.installed V snapshot last).Mem h X' ∧
      Following h X' (e.installed V snapshot last) V ∧ HasId (X'.full h) last := by
  obtain ⟨hcom, hmemb, -⟩ := hsn last hlast
  have hXV := hf.vote
  have hlastV := hs.com_mem _ last hcom
  have hV := hm.ok.leader_of hXV
  have hcomX : h.Com e.config.mode ⟨V, true⟩ last := ⟨V, hV, hcom, le_rfl⟩
  have hpurged := hm.purged_le_committed
  have hnot : ¬ some last ≤ X.purged := by
    intro hle
    have hp := LogMem.holds_purged hm.ok
    cases hpx : X.purged with
    | none => simp [hpx] at hle
    | some p =>
      rw [hpx] at hle hpurged
      -- what is purged is committed, so the leader has it
      have hpV : HasId (h.log (V.toCommitted e.config.mode)) p := by
        cases hc : e.state.localCommitted with
        | none =>
          rw [hc] at hpurged
          exact absurd hpurged (by simp)
        | some c =>
          rw [hc, nextIndex_some, nextIndex_some] at hpurged
          exact hm.ok.log.hasId_of_hasId (hs.isLog_log _) (hm.committed c hc)
            (hm.holds_log hs hXV c hc) (hp p hpx) (by omega)
      have hidx := (hs.le_iff_index (hs.isLog_log _) hlastV hpV).1 (Option.some_le_some.1 hle)
      rw [nextIndex_some] at hpurged
      omega
  obtain ⟨X1, hprep⟩ := truncateForSnapshot_prepared hs hm hXV hcom hlt
  obtain ⟨e1, he1⟩ : ∃ e1, e1 = e.truncateForSnapshot last := ⟨_, rfl⟩
  rw [← he1] at hprep
  obtain ⟨s, hacc, hids, heq⟩ := installed_eq (V := V) hprep he1 hnot
  have hcfg := hprep.moves.config
  have hlt1 : nextIndex X1.purged ≤ last.index := by
    rw [hprep.purged]
    exact hpurged.trans hlt
  obtain ⟨hpo, hids', hold, htip, htracks, hmc⟩ := installed_log hs hm hf hsn hlast hprep hlt1 hids
    hacc.membershipState
  have hlast' : HasId ((X1.step (.purgeLog last)).full h) last :=
    LogMem.holds_purged (hprep.ok.purge hs hpo) last rfl
  obtain ⟨a, ha, hav, hle, hmax, hal, hal'⟩ := nextAccepted_spec hm hXV
    { e1.state with snapshotMeta := snapshot.snapshotMeta }
    (by rw [RaftState.acceptedLogIo, hprep.ioState]; rfl)
    (holds_some.2 hlast') (holds_some.2 hlastV) hold
  obtain ⟨X2, hX2⟩ : ∃ X2, X2 = X1.step
    (.stateMachine (.installFullSnapshot ⟨V, some last⟩ snapshot)) := ⟨_, rfl⟩
  have hfull2 : (X2.step (.purgeLog last)).full h = (X1.step (.purgeLog last)).full h := by
    rw [hX2]
    rfl
  have hok2 : X2.OK e.config.mode h := by
    rw [hX2]
    exact hprep.ok.step hs e.config.id ⟨hprep.vote.trans hXV, ⟨last, rfl, hlast⟩, hsn⟩
  have hpo2 : X2.PurgeOK e.config.mode h last := by
    rw [hX2]
    exact hpo
  have hmem : LogMem e.config.mode h e.config.id (X2.step (.purgeLog last)) s := by
    refine LogMem.installed hm hXV hcom (hok2.purge hs hpo2) (by rw [hX2]; exact hprep.vote) rfl
      (hacc.voteRef.trans hprep.voteRef) (by rw [hX2]; exact hids') ?_ hacc.localCommitted ?_ ?_
      hacc.purgeUpto (by rw [hfull2]; exact htracks) hmc hacc.building
    · refine ⟨a, ?_, hav, ?_, ?_, by rw [hfull2]; exact hal, hal'⟩
      · rw [hacc.accepted]
        show (RaftState.acceptLogIo e1.config.mode _ _).acceptedLogIo = _
        rw [hcfg]
        exact ha
      · rw [hX2]
        exact hle
      · intro hio
        obtain ⟨a', ha', -, -, hio', -⟩ := hm.accepted
        rw [hfull2]
        rcases htip with ht | ht
        · rw [ht]
          have hio1 : X.io ≠ none := by
            rw [← hprep.io]
            rw [hX2] at hio
            exact hio
          exact (hio' hio1).trans (hmax a' ha')
        · rw [ht]
          exact hle
    · exact hacc.clusterCommitted.trans (congrArg IOState.clusterCommitted hprep.ioState)
    · rw [hacc.snapshotMeta]
      exact hlast
  have hlc : e.state.localCommitted ≤ some last := by
    rw [hs.le_iff_nextIndex (hs.isLog_log _) (hm.holds_log hs hXV) (holds_some.2 hlastV),
      nextIndex_some]
    omega
  have hgrows : RaftState.Grows e1.state s := by
    refine ⟨?_⟩
    rw [hacc.localCommitted, RaftState.localCommitted, hprep.ioState]
    exact hlc
  rw [heq]
  refine ⟨X2.step (.purgeLog last), ?_, ?_, ?_, by rw [hfull2]; exact hlast'⟩
  · have hpush : Moves h X1 e1 X2 ({ e1 with state := s }.pushCommand
        (.stateMachine (.installFullSnapshot ⟨V, some last⟩ snapshot))) := by
      rw [hX2]
      refine .push_of_output (.stateMachine (.installFullSnapshot ⟨V, some last⟩ snapshot)) rfl rfl
        hgrows ⟨hprep.vote.trans hXV, ⟨last, rfl, hlast⟩, ?_⟩
      rw [hcfg]
      exact hsn
    refine hprep.moves.trans (hpush.trans (.push (.purgeLog last) ?_))
    show X2.PurgeOK e1.config.mode h last ∧ h.Com e1.config.mode X2.vote last
    rw [hcfg]
    have hled : h.leader V := by
      have hled := hm.ok.led
      rw [hXV] at hled
      exact hled rfl
    have hvote2 : X2.vote = ⟨V, true⟩ := by
      rw [hX2]
      exact hprep.vote.trans hXV
    exact ⟨hpo2, V, hled, hcom, by rw [hvote2]⟩
  · show LogMem e1.config.mode h e1.config.id _ s
    rw [hcfg]
    exact hmem
  · refine ⟨?_, (hacc.voteRef.trans hprep.voteRef).trans hf.voteRef, ?_,
      hprep.leading.trans hf.leading, hprep.candidate.trans hf.candidate, ?_⟩
    · rw [hX2]
      exact hprep.vote.trans hXV
    case refine_3 =>
      rw [hX2]
      exact hprep.streams.trans hf.streams
    show V.nodeId ≠ e1.config.id
    rw [hcfg]
    exact hf.other

/-- What is not at or below `local_committed` ends after it. -/
theorem committed_lt_of_not_le (hs : h.Sound e.config.mode) (hm : e.Mem h X)
    (hXV : X.vote = ⟨V, true⟩) {last : LogId NID}
    (hlast : HasId (h.log (V.toCommitted e.config.mode)) last)
    (hnot : ¬ some last ≤ e.state.localCommitted) :
    nextIndex e.state.localCommitted ≤ last.index := by
  rw [hs.le_iff_nextIndex (hs.isLog_log _) (holds_some.2 hlast) (hm.holds_log hs hXV),
    nextIndex_some] at hnot
  omega

/-- `FollowingHandler::install_full_snapshot`, for a snapshot of the leader that the node
    follows. -/
theorem installFullSnapshot_keeps (hs : h.Sound e.config.mode) (hm : e.Mem h X)
    (hf : Following h X e V) {snapshot : Snapshot NID N D}
    (hsn : h.SnapshotOK e.config.mode V snapshot) {r : Engine NID N D × Option (Condition NID)}
    (he : e.installFullSnapshot snapshot = some r) :
    ∃ X', Moves h X e X' r.1 ∧ r.1.Mem h X' ∧ Following h X' r.1 V := by
  have hsame : ∃ X', Moves h X e X' e ∧ e.Mem h X' ∧ Following h X' e V :=
    ⟨X, .refl X e, hm, hf⟩
  unfold installFullSnapshot at he
  dsimp only at he
  split at he
  · obtain rfl := Option.some.inj he
    exact hsame
  · rename_i last hlast
    by_cases hle : some last ≤ e.state.localCommitted
    · rw [if_pos hle] at he
      obtain rfl := Option.some.inj he
      exact hsame
    · rw [if_neg hle] at he
      have hlastV := hs.com_mem _ last (hsn last hlast).1
      have hlt := committed_lt_of_not_le hs hm hf.vote hlastV hle
      split at he
      · cases he
      split at he
      · cases he
      · have hup : e.updateSnapshot snapshot.snapshotMeta =
            ({ e with state := { e.state with snapshotMeta := snapshot.snapshotMeta } }, true) := by
          unfold updateSnapshot
          refine if_neg fun hold => hle ?_
          rw [hlast] at hold
          exact hold.trans ((hs.le_iff_nextIndex hm.ok.log hm.snapshot hm.committed).2
            hm.snapshot_le)
        rw [hup, hf.voteRef] at he
        obtain rfl := Option.some.inj he
        obtain ⟨X', hmoves, hmem, hf', -⟩ := installed_mem hs hm hf hsn hlast hlt
        exact ⟨X', hmoves, hmem, hf'⟩

/-- A snapshot of the leader `V` that reaches the node `id`. -/
structure InstallOK (mode : LeaderIdMode) (h : History NID N D) (id : NID) (V : LeaderId NID)
    (ctx : StreamCtx NID) (vote : Vote NID) (snapshot : Snapshot NID N D) : Prop where
  vote : vote = ⟨V, true⟩
  ctx : ctx.leaderVote = V
  leader : h.leader V
  other : V.nodeId ≠ id
  snapshot : h.SnapshotOK mode V snapshot

/-- `Engine::handle_install_full_snapshot`. -/
theorem handleInstallFullSnapshot_keeps (hs : h.Sound e.config.mode) (hm : e.Mem h X)
    (hr : e.Role h X) {ctx : StreamCtx NID} {vote : Vote NID} {snapshot : Snapshot NID N D}
    (hreq : InstallOK e.config.mode h e.config.id V ctx vote snapshot) {now : Nat}
    (he : e.handleInstallFullSnapshot now ctx vote snapshot = some e') :
    ∃ X', Keeps h X e X' e' := by
  obtain ⟨X1, hk1, hacc, -⟩ := updateVote_following hs hm hr hreq.leader hreq.other now
  have hcfg := hk1.config
  unfold handleInstallFullSnapshot at he
  rw [hreq.vote] at he
  generalize e.updateVote now ⟨V, true⟩ = r at *
  obtain ⟨e1, ok⟩ := r
  have hresp : ∀ (X : View NID N D) (cond : Option (Condition NID)) (v : Vote NID),
      X.RespondOK e.config.mode h e.config.id cond
        (.installFullSnapshot ctx snapshot.snapshotMeta.lastLogId v) := by
    intro X cond v x hx
    rw [hreq.ctx]
    exact ⟨hreq.leader, (hreq.snapshot x hx).1⟩
  cases ok with
  | false =>
    obtain rfl := Option.some.inj he
    have hst := Stays.push (.respond (some (.ioFlushed (.new e1.state.voteRef)))
      (.installFullSnapshot ctx snapshot.snapshotMeta.lastLogId e1.state.voteRef)) hk1.mem
      (by rw [hcfg]; exact hresp X1 none e1.state.voteRef) rfl
    exact ⟨X1, hk1.trans (.of_stays hk1.role hst)⟩
  | true =>
    have hf := hacc rfl
    obtain ⟨r, hr2, rfl⟩ := Option.map_eq_some_iff.1 he
    have hsn : h.SnapshotOK e1.config.mode V snapshot := by
      rw [hcfg]
      exact hreq.snapshot
    obtain ⟨X2, hmoves, hmem, hf2⟩ := installFullSnapshot_keeps (hcfg ▸ hs) hk1.mem hf hsn hr2
    obtain ⟨e2, cond⟩ := r
    have hk2 : Keeps h X1 e1 X2 e2 := ⟨hmoves, hmem, hf2.role⟩
    have hst := Stays.push (.respond cond
      (.installFullSnapshot ctx snapshot.snapshotMeta.lastLogId e2.state.voteRef)) hmem
      (by rw [hk2.config, hcfg]; exact hresp X2 none e2.state.voteRef) rfl
    exact ⟨X2, hk1.trans (hk2.trans (.of_stays hf2.role hst))⟩

end Engine

end ZenohRaft
