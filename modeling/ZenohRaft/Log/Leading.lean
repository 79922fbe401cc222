/-
  Leading keeps the memory and the log of an engine in agreement.

  What a leader does is on record in the history: its log is the one that the history has for its
  epoch (`X.full h ++ es <+: h.log _` where it appends `es`), and what a quorum has accepted of its
  epoch is committed (`Engine.CommitsIn`).

  * `updateProgress_keeps`, `updateLocalProgress_keeps`: what the followers and the own log store
    report.
  * `rebuildReplicationStreams_targets`: a leader does not replicate to itself.
-/
import ZenohRaft.Log.Following

namespace ZenohRaft

open Lib

variable {NID N D : Type} [LinearOrder NID]

namespace Engine

variable {h : History NID N D} {X X' : View NID N D} {e e' : Engine NID N D} {V : LeaderId NID}
variable {l : Leader NID N}

/-! ## The leader of an engine -/

/-- What the progress of the node `id` stands for, at the leader `V`. -/
def AckOK (h : History NID N D) (X : View NID N D) (mode : LeaderIdMode) (V : LeaderId NID)
    (id : NID) (acked : Option (LogId NID)) : Prop :=
  ∀ y, acked = some y → HasId (X.full h) y ∧ h.Acked mode id V y

/-- What a quorum has accepted of the epoch of the leader is committed. -/
def CommitsIn (h : History NID N D) (e : Engine NID N D) : Prop :=
  ∀ l, e.leader = some l → ∀ c, l.progress.quorumAccepted = some c →
    c.leaderId = l.committedVote.toCommitted e.config.mode →
      h.com (l.committedVote.toCommitted e.config.mode) c

/-- `LeaderOK` for the leader itself. -/
structure LeadOK (h : History NID N D) (X : View NID N D) (e : Engine NID N D) (l : Leader NID N) :
    Prop where
  voteRef : e.state.voteRef = ⟨l.committedVote, true⟩
  own : l.committedVote.nodeId = e.config.id
  last : l.lastLogId = tipId (X.full h)
  streams : X.streams = some l.committedVote
  progress : l.progress.Each (fun x => AckOK h X e.config.mode l.committedVote x.id x.progress)
    (Holds (X.full h))

section

omit [LinearOrder NID]

theorem leaderOK_core : e.LeaderOK h X l.core ↔ e.LeadOK h X l := by
  constructor
  · rintro ⟨hv, hown, hlast, hstreams, hp⟩
    exact ⟨hv, hown, hlast, hstreams, VecProgress.each_strip.1 hp⟩
  · rintro ⟨hv, hown, hlast, hstreams, hp⟩
    exact ⟨hv, hown, hlast, hstreams, VecProgress.each_strip.2 hp⟩

theorem leading_eq (hl : e.leader = some l) : e.leading = some l.core := by
  unfold leading
  rw [hl]
  rfl

theorem leader_eq_none (hl : e.leading = none) : e.leader = none := Option.map_eq_none_iff.1 hl

end

theorem Role.leads (hr : e.Role h X) (hl : e.leader = some l) : e.LeadOK h X l :=
  leaderOK_core.1 (hr.leader l.core (leading_eq hl))

/-- The vote of a leader is the one that its node has accepted. -/
theorem LeadOK.vote (hm : e.Mem h X) (hl : e.LeadOK h X l) :
    X.vote = ⟨l.committedVote, true⟩ := by
  rcases hm.vote with hheld | ⟨hheld, -⟩
  · rw [← hheld, hl.voteRef]
  · have hv := hl.voteRef
    rw [hheld] at hv
    cases congrArg Vote.committed hv

/-- A candidate does not lead. -/
theorem Role.leader_of_candidate (hr : e.Role h X) {c : Candidate NID N}
    (hc : e.candidate = some c) : e.leader = none := by
  cases hl : e.leader with
  | none => rfl
  | some l =>
    have hcand := hr.candidate c hc
    have hcommitted := hcand.committed
    rw [hcand.voteRef, (hr.leads hl).voteRef] at hcommitted
    cases hcommitted

theorem role_of_leader (hl : e.leader = some l) (hlead : e.LeadOK h X l)
    (hc : e.candidate = none) : e.Role h X := by
  refine ⟨?_, ?_, ?_⟩
  · intro c hcore
    rw [leading_eq hl] at hcore
    obtain rfl := Option.some.inj hcore
    exact leaderOK_core.2 hlead
  · intro hnone
    rw [leading_eq hl] at hnone
    cases hnone
  · intro c hcand
    rw [hc] at hcand
    cases hcand

theorem Role.candidate_of_leader (hr : e.Role h X) (hl : e.leader = some l) :
    e.candidate = none := by
  cases hc : e.candidate with
  | none => rfl
  | some c =>
    rw [hr.leader_of_candidate hc] at hl
    cases hl

/-- A leader that has made progress. -/
theorem Role.of_progress (hr : e.Role h X) (hl : e.leader = some l) (l' : Leader NID N)
    (hV : l'.committedVote = l.committedVote) (hlast : l'.lastLogId = l.lastLogId)
    (hp : l'.progress.Each (fun x => AckOK h X e.config.mode l.committedVote x.id x.progress)
      (Holds (X.full h))) : ({ e with leader := some l' } : Engine NID N D).Role h X := by
  have hlead := hr.leads hl
  refine role_of_leader rfl ⟨?_, ?_, hlast.trans hlead.last, ?_, ?_⟩ (hr.candidate_of_leader hl)
  · rw [hV]
    exact hlead.voteRef
  · rw [hV]
    exact hlead.own
  · rw [hV]
    exact hlead.streams
  · rw [hV]
    exact hp

theorem keeps_of_progress (hm : e.Mem h X) (hr : e.Role h X) (hl : e.leader = some l)
    (l' : Leader NID N) (hV : l'.committedVote = l.committedVote)
    (hlast : l'.lastLogId = l.lastLogId)
    (hp : l'.progress.Each (fun x => AckOK h X e.config.mode l.committedVote x.id x.progress)
      (Holds (X.full h))) : Keeps h X e X { e with leader := some l' } :=
  ⟨.of_output rfl rfl (.refl _), hm, hr.of_progress hl l' hV hlast hp⟩

theorem keeps_of_data (hm : e.Mem h X) (hr : e.Role h X) (hl : e.leader = some l) (target : NID)
    (f : ProgressData NID → ProgressData NID) : Keeps h X e X
      { e with leader := some { l with progress := l.progress.updateDataWith target f } } := by
  have heach := (hr.leads hl).progress.updateDataWith (f := f)
    (fun x (_ : l.progress.tryGet target = some x) hx => hx)
  exact keeps_of_progress hm hr hl { l with progress := l.progress.updateDataWith target f } rfl rfl
    heach

/-! ## Progress -/

omit [LinearOrder NID] in
theorem holds_of_ackOK {mode : LeaderIdMode} {id : NID} {acked : Option (LogId NID)}
    (hack : AckOK h X mode V id acked) : Holds (X.full h) acked :=
  fun y hy => (hack y hy).1

/-- `ReplicationHandler::update_matching`. -/
theorem updateMatching_keeps (hs : h.Sound e.config.mode) (hm : e.Mem h X) (hr : e.Role h X)
    (hl : e.leader = some l) {nodeId : NID} {logId : Option (LogId NID)} {inflightId : Option Nat}
    (hack : AckOK h X e.config.mode l.committedVote nodeId logId)
    (he : e.updateMatching l nodeId logId inflightId = some e') (hcom : e'.CommitsIn h) :
    ∃ X', Keeps h X e X' e' := by
  have hlead := hr.leads hl
  unfold updateMatching at he
  split at he
  · cases he
  · obtain rfl := Option.some.inj he
    exact ⟨X, .refl hm hr⟩
  · rename_i progress hu
    obtain rfl := Option.some.inj he
    have heach := hlead.progress.updateEntryWith (fun x hx => holds_of_ackOK hx) (by
      intro x hget hx
      obtain ⟨hid, hp⟩ := ProgressEntry.updateMatching_spec x logId inflightId
      rw [hid]
      rcases hp with hp | hp
      · rw [hp, VecProgress.tryGet_id hget]
        exact hack
      · rw [hp]
        exact hx) hu
    have hk := keeps_of_progress hm hr hl { l with progress := progress } rfl rfl heach
    have hgranted : ∀ c, progress.quorumAccepted = some c →
        c.leaderId = l.committedVote.toCommitted e.config.mode →
        HasId (X.full h) c ∧ h.com (l.committedVote.toCommitted e.config.mode) c := by
      intro c hc hepoch
      have hkeeps := tryCommitQuorumAccepted_keepsVote
        ({ e with leader := some { l with progress := progress } } : Engine NID N D)
        progress.quorumAccepted
      have hrec := hcom { l with progress := progress } (tryCommitQuorumAccepted_leader _ _).1 c hc
      rw [hkeeps.config] at hrec
      exact ⟨heach.accepted c hc, hrec hepoch⟩
    obtain ⟨X', hst⟩ := tryCommitQuorumAccepted_stays (V := l.committedVote) (by exact hs) hk.mem
      hlead.voteRef (hlead.vote hm) hlead.streams hgranted
    exact ⟨X', hk.trans (.of_stays hk.role hst)⟩

/-- `ReplicationHandler::update_progress`. -/
theorem updateProgress_keeps (hs : h.Sound e.config.mode) (hm : e.Mem h X) (hr : e.Role h X)
    (hl : e.leader = some l) {target : NID} {streamId : Nat} {result : ReplicationResult NID}
    {inflightId : Option Nat}
    (hack : l.isReplicationStreamValid target streamId = true → ∀ logId, result = .matching logId →
      AckOK h X e.config.mode l.committedVote target logId)
    (he : e.updateProgress l target streamId result inflightId = some e') (hcom : e'.CommitsIn h) :
    ∃ X', Keeps h X e X' e' := by
  have hlead := hr.leads hl
  unfold updateProgress at he
  split at he
  · rename_i hvalid
    dsimp only at he
    obtain ⟨e1, he1, rfl⟩ := Option.map_eq_some_iff.1 he
    have hk : ∃ X1, Keeps h X e X1 e1 := by
      cases result with
      | matching logId =>
        refine updateMatching_keeps hs hm hr hl (hack hvalid logId rfl) he1 ?_
        intro l1 hl1
        have hsame := hcom l1 (by rw [(tryPurgeLog_leader e1).1]; exact hl1)
        rw [(tryPurgeLog_keepsVote e1).config] at hsame
        exact hsame
      | conflict logId =>
        obtain rfl := Option.some.inj he1
        refine ⟨X, keeps_of_progress hm hr hl { l with progress := _ } rfl rfl ?_⟩
        refine hlead.progress.resetEntryWith ?_
        intro x _ hx
        obtain ⟨hid, hp⟩ := ProgressEntry.updateConflicting_spec e.config.allowLogReversion x
          logId.index inflightId
        rw [hid]
        rcases hp with hp | hp
        · rw [hp]
          exact nofun
        · rw [hp]
          exact hx
      | error =>
        obtain rfl := Option.some.inj he1
        exact ⟨X, keeps_of_data hm hr hl target _⟩
    obtain ⟨X1, hk⟩ := hk
    obtain ⟨X2, hst⟩ := tryPurgeLog_stays (by rw [hk.config]; exact hs) hk.mem
    exact ⟨X2, hk.trans (.of_stays hk.role hst)⟩
  · obtain rfl := Option.some.inj he
    exact ⟨X, .refl hm hr⟩

/-- `ReplicationHandler::update_local_progress`. -/
theorem updateLocalProgress_keeps (hs : h.Sound e.config.mode) (hm : e.Mem h X) (hr : e.Role h X)
    (hl : e.leader = some l) {upto : Option (LogId NID)}
    (hack : AckOK h X e.config.mode l.committedVote e.config.id upto)
    (he : e.updateLocalProgress l upto = some e') (hcom : e'.CommitsIn h) :
    ∃ X', Keeps h X e X' e' := by
  have hlead := hr.leads hl
  unfold updateLocalProgress at he
  split at he
  · obtain rfl := Option.some.inj he
    exact ⟨X, .refl hm hr⟩
  · obtain rfl := Option.some.inj he
    exact ⟨X, .refl hm hr⟩
  · split at he
    · obtain rfl := Option.some.inj he
      exact ⟨X, .refl hm hr⟩
    · rename_i upto entry hentry hlt
      have hk := keeps_of_data hm hr hl e.config.id
        fun d => { d with inflight := .newLogs none (some upto) 0 }
      obtain ⟨l1, hl1⟩ : ∃ l1, l1 = { l with
        progress := l.progress.updateDataWith e.config.id
          (fun d => { d with inflight := .newLogs none (some upto) 0 }) } := ⟨_, rfl⟩
      rw [← hl1] at hk
      have hV : l1.committedVote = l.committedVote := by rw [hl1]
      have he : ({ e with leader := some l1 } : Engine NID N D).updateMatching l1 e.config.id
          (some upto) (some 0) = some e' := by
        rw [hl1]
        exact he
      obtain ⟨X', hk'⟩ := updateMatching_keeps (e := { e with leader := some l1 }) hs hk.mem hk.role
        rfl (by rw [hV]; exact hack) he hcom
      exact ⟨X', hk.trans hk'⟩

/-! ## Streams -/

theorem nextSend_spec (x : ProgressEntry NID) (st : RaftState NID N) (maxEntries : Nat) :
    (ProgressEntry.nextSend x st maxEntries).1.id = x.id ∧
      (ProgressEntry.nextSend x st maxEntries).1.progress = x.progress := by
  unfold ProgressEntry.nextSend
  split <;> exact ⟨rfl, rfl⟩

theorem initiateReplicationLoop_each {I : NID → Option (LogId NID) → Prop}
    (config : EngineConfig NID) (V : LeaderId NID) (items : List (ProgressEntry NID))
    (st : RaftState NID N) (hI : ∀ x ∈ items, I x.id x.progress) :
    ∀ x ∈ (initiateReplicationLoop (D := D) config V items st).1, I x.id x.progress := by
  induction items generalizing st with
  | nil => exact nofun
  | cons item items ih =>
    have hrest := fun st => ih st fun x hx => hI x (List.mem_cons_of_mem _ hx)
    unfold initiateReplicationLoop
    split
    · intro x hx
      rcases List.mem_cons.1 hx with rfl | hx
      · exact hI x List.mem_cons_self
      · exact hrest st x hx
    · intro x hx
      rcases List.mem_cons.1 hx with rfl | hx
      · obtain ⟨hid, hp⟩ := nextSend_spec item st config.maxPayloadEntries
        rw [hid, hp]
        exact hI item List.mem_cons_self
      · exact hrest _ x hx

/-- `ReplicationHandler::initiate_replication`. -/
theorem initiateReplication_keeps (hm : e.Mem h X) (hr : e.Role h X) (hl : e.leader = some l) :
    Keeps h X e X (e.initiateReplication l) := by
  have hq := initiateReplication_quiet e l
  have hmem : (e.initiateReplication l).Mem h X := LogMem.of_sameLog hm hq.state
  have hlead := hr.leads hl
  refine ⟨.of_quiet hq, hmem, role_of_leader rfl ?_ (hr.candidate_of_leader hl)⟩
  refine ⟨hq.state.vote.trans hlead.voteRef, hlead.own, hlead.last, hlead.streams, ?_, ?_⟩
  · exact initiateReplicationLoop_each _ _ _ _ hlead.progress.entries
  · exact hlead.progress.accepted

theorem withLeader_initiateReplication_keeps (hm : e.Mem h X) (hr : e.Role h X) :
    Keeps h X e X (e.withLeader initiateReplication) := by
  unfold withLeader
  split
  · exact initiateReplication_keeps hm hr (by assumption)
  · exact .refl hm hr

theorem step_rebuild_eq (hstreams : X.streams = some V) (targets : List (NID × Nat))
    (closeOld : Bool) : X.step (.rebuildReplicationStreams V targets closeOld) = X := by
  obtain ⟨vote, purged, entries, io, submitted, streams, watch⟩ := X
  obtain rfl : streams = some V := hstreams
  rfl

/-- `ReplicationHandler::rebuild_replication_streams` of a leader that has streams. -/
theorem rebuildReplicationStreams_targets (items : List (ProgressEntry NID)) (id : NID) :
    ∀ t ∈ (items.filter fun item => decide (item.id ≠ id)).map fun item =>
      (item.id, item.data.streamId), t.1 ≠ id := by
  intro t ht
  obtain ⟨x, hx, rfl⟩ := List.mem_map.1 ht
  exact of_decide_eq_true (List.mem_filter.1 hx).2

theorem rebuildReplicationStreams_keeps (hm : e.Mem h X) (hr : e.Role h X) (hl : e.leader = some l)
    (closeOld : Bool) : Keeps h X e X (e.rebuildReplicationStreams l closeOld) := by
  have hlead := hr.leads hl
  obtain ⟨hV, hlog⟩ := hm.ok.streams _ hlead.streams
  have hmoves : ∀ targets (e1 : Engine NID N D), (∀ t ∈ targets, t.1 ≠ e.config.id) →
      e1.config = e.config → e1.output = e.output → e1.state = e.state → Moves h X e X
        (e1.pushCommand (.rebuildReplicationStreams l.committedVote targets closeOld)) := by
    intro targets e1 htargets hc ho hst
    have hok : (Command.rebuildReplicationStreams l.committedVote targets closeOld :
        Command NID N D).LogOK e.config.mode h e.config.id X := by
      refine ⟨⟨hV, hlog, ?_⟩, hlead.own, htargets⟩
      rw [hlead.vote hm]
    have hpush := Moves.push_of_output _ hc ho (by rw [hst]; exact .refl _) hok
    rw [step_rebuild_eq hlead.streams] at hpush
    exact hpush
  refine ⟨hmoves _ _ (rebuildReplicationStreams_targets _ _) rfl rfl rfl, hm,
    role_of_leader rfl ?_ (hr.candidate_of_leader hl)⟩
  refine ⟨hlead.voteRef, hlead.own, hlead.last, hlead.streams, ?_, hlead.progress.accepted⟩
  intro x hx
  obtain ⟨y, hy, rfl⟩ := List.mem_map.1 hx
  have hack := hlead.progress.entries y hy
  split <;> exact hack

/-- `ReplicationHandler::rebuild_progresses`. -/
theorem rebuildProgresses_keeps (hm : e.Mem h X) (hr : e.Role h X) (hl : e.leader = some l) :
    Keeps h X e X (e.rebuildProgresses l) := by
  have hq : Quiet e (e.rebuildProgresses l) :=
    .of_eq rfl ⟨rfl, rfl, rfl, rfl, rfl, rfl⟩ rfl
  have hlead := hr.leads hl
  refine ⟨.of_quiet hq, LogMem.of_sameLog hm hq.state,
    role_of_leader rfl ?_ (hr.candidate_of_leader hl)⟩
  refine ⟨hlead.voteRef, hlead.own, hlead.last, hlead.streams, ?_⟩
  have hfresh : ∀ id, AckOK h X e.config.mode l.committedVote id none := fun _ => nofun
  exact hlead.progress.upgradeQuorumSet (fun x hx => holds_of_ackOK hx) hfresh holds_none

/-! ## Appending -/

/-- The entries that `leader_append_entries` creates. -/
def proposals (e : Engine NID N D) (l : Leader NID N) (payloads : List (Payload NID N D)) :
    List (Entry NID N D) :=
  List.zipWith (fun logId payload => (⟨logId, payload⟩ : Entry NID N D))
    ((List.range' (nextIndex l.lastLogId) payloads.length).map fun i =>
      ⟨l.committedVote.toCommitted e.config.mode, i⟩) payloads

omit [LinearOrder NID] in
theorem length_proposals (e : Engine NID N D) (l : Leader NID N)
    (payloads : List (Payload NID N D)) : (e.proposals l payloads).length = payloads.length := by
  simp [proposals]

/-- The log ids that are assigned are those of the epoch of the leader, behind its log. -/
theorem proposals_continue (hm : e.Mem h X) (hr : e.Role h X) (hl : e.leader = some l)
    (payloads : List (Payload NID N D)) : e.proposals l payloads =
      entriesAt (l.committedVote.toCommitted e.config.mode) (X.full h).length payloads := by
  have hnext : nextIndex l.lastLogId = (X.full h).length := by
    rw [(hr.leads hl).last, nextIndex_tipId hm.ok.log.2]
  unfold proposals entriesAt
  rw [hnext]
  refine List.ext_getElem? fun i => ?_
  rw [List.getElem?_zipWith, List.getElem?_map, List.getElem?_map, List.getElem?_zipIdx]
  cases hp : payloads[i]? with
  | none => simp
  | some p =>
    have hlt := (List.getElem?_eq_some_iff.1 hp).1
    simp [hlt]

omit [LinearOrder NID] in
theorem tipId_proposals {payloads : List (Payload NID N D)} (hne : payloads ≠ []) :
    tipId (e.proposals l payloads) = some ⟨l.committedVote.toCommitted e.config.mode,
      nextIndex l.lastLogId + payloads.length - 1⟩ := by
  have hlen : payloads.length ≠ 0 := fun hz => hne (List.length_eq_zero_iff.1 hz)
  unfold tipId proposals
  rw [← List.getLast?_map, map_logId_zipWith _ _ (by simp), List.getLast?_map,
    List.getLast?_range', if_neg hlen]
  rfl

omit [LinearOrder NID] in
theorem assignLogIds_eq {payloads : List (Payload NID N D)} (hne : payloads ≠ []) :
    ∃ ids, l.assignLogIds e.config.mode payloads.length =
        some (ids, { l with lastLogId := tipId (e.proposals l payloads) }) ∧
      List.zipWith (fun logId payload => (⟨logId, payload⟩ : Entry NID N D)) ids.toList payloads =
        e.proposals l payloads := by
  have hlen : payloads.length ≠ 0 := fun hz => hne (List.length_eq_zero_iff.1 hz)
  refine ⟨⟨l.committedVote.toCommitted e.config.mode, nextIndex l.lastLogId,
    nextIndex l.lastLogId + payloads.length - 1⟩, ?_, ?_⟩
  · rw [tipId_proposals hne]
    unfold Leader.assignLogIds
    rw [if_neg hlen]
  · unfold LeaderLogIds.toList proposals
    dsimp only
    rw [show nextIndex l.lastLogId + payloads.length - 1 + 1 - nextIndex l.lastLogId =
      payloads.length by omega]

/-- The engine with some memberships appended to those it knows. -/
def withMemberships (e : Engine NID N D) (ms : List (StoredMembership NID N)) : Engine NID N D :=
  { e with state := { e.state with
    membershipState := ms.foldl MembershipState.append e.state.membershipState } }

/-- The engine with new entries of its leader, and with their memberships. -/
def extendedLog (e : Engine NID N D) (l : Leader NID N) (es : List (Entry NID N D)) :
    Engine NID N D :=
  (e.leaderExtendLog { l with lastLogId := tipId es } es).withMemberships (storedMemberships es)

/-- What follows in `leader_append_entries` on a membership: the progress and the streams are those
    of the new members. -/
def renewStreams (e : Engine NID N D) : Engine NID N D :=
  ((e.withLeader rebuildProgresses).withLeader fun e l =>
    e.rebuildReplicationStreams l false).withLeader initiateReplication

theorem leaderAppendEntries_eq {payloads : List (Payload NID N D)} (hne : payloads ≠ [])
    (hone : (storedMemberships (e.proposals l payloads)).length ≤ 1) :
    e.leaderAppendEntries l payloads =
      (if storedMemberships (e.proposals l payloads) = [] then
          e.extendedLog l (e.proposals l payloads)
        else (e.extendedLog l (e.proposals l payloads)).renewStreams).withLeader
        initiateReplication := by
  obtain ⟨ids, hassign, hentries⟩ := assignLogIds_eq (e := e) (l := l) hne
  unfold leaderAppendEntries
  rw [hassign]
  dsimp only
  rw [hentries]
  obtain ⟨es, hes⟩ : ∃ es, es = e.proposals l payloads := ⟨_, rfl⟩
  rw [← hes] at hone ⊢
  have hpairs : ∀ es : List (Entry NID N D), storedMemberships es = (es.filterMap fun ent =>
      ent.payload.getMembership.map fun m => (ent.logId, m)).map fun p => ⟨some p.1, p.2⟩ := by
    intro es
    unfold storedMemberships
    rw [List.map_filterMap]
    congr 1
    funext ent
    rw [Option.map_map]
    rfl
  rw [hpairs] at hone ⊢
  unfold extendedLog
  rw [hpairs]
  generalize es.filterMap (fun ent => ent.payload.getMembership.map fun m => (ent.logId, m)) = ps
    at hone ⊢
  cases ps with
  | nil => rfl
  | cons p rest =>
    obtain rfl : rest = [] := by
      simpa using hone
    rfl

/-- What a leader adds goes on after what its node has accepted. -/
theorem le_tipId_of_append (hs : h.Sound e.config.mode) {es : List (Entry NID N D)} (hne : es ≠ [])
    (hlog : h.IsLog (X.full h ++ es)) {a : Option (LogId NID)} (ha : Holds (X.full h) a) :
    a ≤ tipId es := by
  have hle : X.full h <+: X.full h ++ es := List.prefix_append _ _
  rw [hs.le_iff_nextIndex hlog (ha.mono hle) (holds_tipId_append hlog.2).2, ← tipId_append hne,
    nextIndex_tipId hlog.2, List.length_append]
  exact ha.nextIndex_le.trans (Nat.le_add_right _ _)

/-- New entries of the leader, which the history has as its own. -/
theorem extendedLog_keeps (hs : h.Sound e.config.mode) (hm : e.Mem h X) (hr : e.Role h X)
    (hl : e.leader = some l) {es : List (Entry NID N D)} (hne : es ≠ [])
    (hlog : X.full h ++ es <+: h.log (l.committedVote.toCommitted e.config.mode)) :
    Keeps h X e (X.step (.appendEntries l.committedVote es)) (e.extendedLog l es) := by
  have hlead := hr.leads hl
  have hXV := hlead.vote hm
  have his : h.IsLog (X.full h ++ es) := (hs.isLog_log _).of_le hlog
  have hle : X.full h <+: X.full h ++ es := List.prefix_append _ _
  obtain ⟨a, ha, -, hsub, -, hal, -⟩ := hm.accepted
  have htip := (holds_tipId_append his.2).2
  have hes : X.AppendOK e.config.mode h l.committedVote es := by
    refine ⟨hXV, hne, hlog, ?_, hsub.trans (le_tipId_of_append hs hne his hal)⟩
    intro W hW
    rw [hlead.streams] at hW
    exact (Option.some.inj hW).symm
  obtain ⟨s1, hs1⟩ : ∃ s1 : RaftState NID N, s1 = { e.state with
    logIds := e.state.logIds.extend (es.map Entry.logId) } := ⟨_, rfl⟩
  have hacc1 : s1.acceptedLogIo = e.state.acceptedLogIo := by rw [hs1]; rfl
  obtain ⟨a', ha', hav', htip', -, hal', halV'⟩ := nextAccepted_spec hm hXV s1 hacc1 htip
    (htip.mono hlog) fun _ hio => (hm.holds_accepted hio).mono hle
  have hstate : (e.extendedLog l es).state = { s1.acceptLogIo e.config.mode
      (.newLogIo l.committedVote (tipId es)) with
      membershipState := (storedMemberships es).foldl MembershipState.append
        (s1.acceptLogIo e.config.mode
          (.newLogIo l.committedVote (tipId es))).membershipState } := by
    rw [hs1]
    rfl
  have heq := RaftState.acceptLogIo_eq e.config.mode s1 (.newLogIo l.committedVote (tipId es))
  have hmem : LogMem e.config.mode h e.config.id (X.step (.appendEntries l.committedVote es))
      (e.extendedLog l es).state := by
    rw [hstate]
    refine LogMem.append hs hm hes ?_ ?_ ?_ ?_ ?_ ?_ ?_ ?_ ha' hav' htip' hal' halV'
    all_goals rw [heq, hs1]
    all_goals rfl
  have hgrows : RaftState.Grows e.state (e.extendedLog l es).state := by
    rw [hstate]
    have h1 : RaftState.Grows e.state s1 := by
      rw [hs1]
      exact .of_eq rfl
    refine (h1.trans (.acceptLogIo e.config.mode s1 (.newLogIo l.committedVote (tipId es)))).trans
      ?_
    exact .of_eq rfl
  have hmoves : Moves h X e (X.step (.appendEntries l.committedVote es)) (e.extendedLog l es) :=
    ⟨rfl, hgrows, rfl, [.appendEntries l.committedVote es], .of_eq rfl, ⟨hes, trivial⟩, rfl⟩
  refine ⟨hmoves, hmem, role_of_leader rfl ⟨?_, hlead.own, ?_, hlead.streams, ?_⟩
    (hr.candidate_of_leader hl)⟩
  · rw [hstate, heq, hs1]
    exact hlead.voteRef
  · rw [View.full_append, tipId_append hne]
  · have hfull := View.full_append (h := h) (X := X) l.committedVote es
    refine ⟨?_, ?_⟩
    · intro x hx y hy
      obtain ⟨hyl, hack⟩ := hlead.progress.entries x hx y hy
      rw [hfull]
      exact ⟨At.mono hyl hle, hack⟩
    · rw [hfull]
      exact hlead.progress.accepted.mono hle

theorem renewStreams_keeps (hm : e.Mem h X) (hr : e.Role h X) : Keeps h X e X e.renewStreams := by
  have hprogress : Keeps h X e X (e.withLeader rebuildProgresses) := by
    unfold withLeader
    split
    · exact rebuildProgresses_keeps hm hr (by assumption)
    · exact .refl hm hr
  have hstreams : Keeps h X (e.withLeader rebuildProgresses) X
      ((e.withLeader rebuildProgresses).withLeader fun e l =>
        e.rebuildReplicationStreams l false) := by
    generalize e.withLeader rebuildProgresses = e1 at *
    unfold withLeader
    split
    · exact rebuildReplicationStreams_keeps hprogress.mem hprogress.role (by assumption) false
    · exact .refl hprogress.mem hprogress.role
  exact (hprogress.trans hstreams).trans
    (withLeader_initiateReplication_keeps hstreams.mem hstreams.role)

/-- `LeaderHandler::leader_append_entries`, for entries that the history has as those of the
    leader. -/
theorem leaderAppendEntries_keeps (hs : h.Sound e.config.mode) (hm : e.Mem h X) (hr : e.Role h X)
    (hl : e.leader = some l) {payloads : List (Payload NID N D)} (hne : payloads ≠ [])
    (hone : (storedMemberships (e.proposals l payloads)).length ≤ 1)
    (hlog : X.full h ++ e.proposals l payloads <+:
      h.log (l.committedVote.toCommitted e.config.mode)) :
    Keeps h X e (X.step (.appendEntries l.committedVote (e.proposals l payloads)))
      (e.leaderAppendEntries l payloads) := by
  have hes : e.proposals l payloads ≠ [] := by
    intro hnil
    have hlen := length_proposals e l payloads
    rw [hnil] at hlen
    exact hne (List.length_eq_zero_iff.1 hlen.symm)
  have hk := extendedLog_keeps hs hm hr hl hes hlog
  rw [leaderAppendEntries_eq hne hone]
  split
  · exact hk.trans (withLeader_initiateReplication_keeps hk.mem hk.role)
  · have hk' := hk.trans (renewStreams_keeps hk.mem hk.role)
    exact hk'.trans (withLeader_initiateReplication_keeps hk'.mem hk'.role)

end Engine

end ZenohRaft
