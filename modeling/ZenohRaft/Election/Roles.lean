/-
  Candidates and leaders agree with the vote and the log of their node.

  Vote, candidate, pre-candidate and leader are separate fields of the engine. `Engine.RoleInv` says
  what holds of a candidate: its vote and its last log id are those of the node, the node is a
  member, and what is scheduled to be purged is in the log, so that a purge does not move the end of
  the log under the candidate.

  * `Engine.KeepsCandidate e e'`: a handler leaves the candidate as it is, together with all that
    `RoleInv` compares it with, or drops it. Most handlers do.
  * `updateVote_keepsCandidate`: so does a vote in a message, unless it is the committed vote of the
    candidate itself. No such vote exists before the candidate has won (`Cluster.Settled`).
  * `Cluster.roles_of_run`: what holds of the roles in every state of a run, and that a candidate
    which gets its quorum becomes the leader.
-/
import ZenohRaft.Election.Forming
import ZenohRaft.Election.Safety
import ZenohRaft.Lib.PartialRun
import ZenohRaft.Purge.Cursors

namespace ZenohRaft

open Lib

variable {NID N D : Type} [LinearOrder NID]

/-! ## Purges do not move the end of the log -/

namespace LogIds

variable {l : LogIds NID} {u : LogId NID}

omit [LinearOrder NID] in
theorem has_of_refAt {i : Nat} (h : l.refAt i = some u) : l.Has u := by
  have hi : u.index = i := by
    unfold refAt at h
    split at h
    · exact of_decide_eq_true (Option.filter_eq_some_iff.1 h).2
    · have hfound := List.find?_some h
      exact of_decide_eq_true hfound
  unfold Has
  rw [hi, h]

omit [LinearOrder NID] in
theorem Consecutive.purge (h : l.Consecutive) (u : LogId NID) : (l.purge u).Consecutive := by
  rcases purge_cases l u with ⟨heq, -⟩ | ⟨heq, -⟩ | ⟨heq, hfirst⟩
  · rw [heq]
    intro i x hx
    cases hx
  · rw [heq]
    exact h
  · rw [heq]
    intro i x hx
    dsimp only at hx
    rw [filter_index_gt h, List.getElem?_drop] at hx
    have := h _ x hx
    show x.index = u.index + 1 + i
    omega

/-- A purge up to an id of the log leaves its end where it is. -/
theorem Has.last_purge (hu : l.Has u) (h : l.Consecutive) : (l.purge u).last = l.last := by
  have hlt := hu.index_lt h
  rcases purge_cases l u with ⟨-, hlast⟩ | ⟨heq, -⟩ | ⟨heq, hfirst⟩
  · omega
  · rw [heq]
  · obtain ⟨x, hx⟩ : ∃ x, l.last = some x := by
      cases hl : l.last with
      | none => rw [hl] at hlt; exact absurd hlt (Nat.not_lt_zero _)
      | some x => exact ⟨x, rfl⟩
    have hxl : l.Has x := has_last h hx
    rw [hx] at hlt
    have hle : u.index ≤ x.index := Nat.lt_succ_iff.1 hlt
    rw [heq, hx]
    unfold last
    dsimp only
    rw [filter_index_gt h, List.getLast?_drop]
    rcases Nat.eq_or_lt_of_le hle with hsame | hbefore
    · -- the end itself is purged
      have hlen := h.nextIndex_last
      rw [hx] at hlen
      have hlen : x.index + 1 = l.firstIndex + l.ids.length := hlen
      rw [if_pos (by omega), hu.eq_of_index_eq hxl hsame]
      rfl
    · have hlen := h.nextIndex_last
      rw [hx] at hlen
      have hlen : x.index + 1 = l.firstIndex + l.ids.length := hlen
      have hids : l.ids.getLast? = some x := by
        unfold last at hx
        cases hl : l.ids.getLast? with
        | none =>
          rw [List.getLast?_eq_none_iff.1 hl] at hlen
          simp only [List.length_nil] at hlen
          omega
        | some y =>
          rw [hl] at hx
          exact hx
      rw [if_neg (by omega), hids]
      rfl

end LogIds

/-- What is scheduled to be purged is purged already or in the log. -/
structure RaftState.PurgeInLog (s : RaftState NID N) : Prop where
  consecutive : s.logIds.Consecutive
  scheduled : ∀ u, s.purgeUpto = some u → some u ≤ s.logIds.purged ∨ s.logIds.Has u

instance (s : RaftState NID N) : Decidable s.PurgeInLog :=
  decidable_of_iff ((∀ i (h : i < s.logIds.ids.length),
      s.logIds.ids[i].index = s.logIds.firstIndex + i) ∧
      ∀ u ∈ s.purgeUpto, some u ≤ s.logIds.purged ∨ s.logIds.Has u)
    ⟨fun h => ⟨fun i x hx => by
      obtain ⟨hi, rfl⟩ := List.getElem?_eq_some_iff.1 hx
      exact h.1 i hi, h.2⟩, fun h => ⟨fun i hi =>
      h.consecutive i _ (List.getElem?_eq_getElem hi), h.scheduled⟩⟩

namespace Engine

variable {e e' e'' : Engine NID N D}

/-! ## The engine -/

/-- What holds of a candidate. -/
structure CandidateAgrees (e : Engine NID N D) (c : Candidate NID N) : Prop where
  vote : c.vote = e.state.voteRef
  lastLogId : c.lastLogId = e.state.lastLogId
  member : e.state.membershipState.effective.membership.contains e.config.id = true
  term : c.vote.leaderId.term ≠ 0
  purge : e.state.PurgeInLog

/-- The invariant of the roles. -/
def RoleInv (e : Engine NID N D) : Prop := ∀ c, e.candidate = some c → e.CandidateAgrees c

/-- A handler that leaves the candidate and what it is compared with, or drops the candidate. -/
structure KeepsCandidate (e e' : Engine NID N D) : Prop where
  config : e'.config = e.config
  candidate : ∀ c', e'.candidate = some c' → ∃ c, e.candidate = some c ∧ c'.vote = c.vote ∧
    c'.lastLogId = c.lastLogId ∧ e'.state.voteRef = e.state.voteRef ∧
    e'.state.membershipState.effective = e.state.membershipState.effective ∧
    (e.state.PurgeInLog → e'.state.lastLogId = e.state.lastLogId ∧ e'.state.PurgeInLog)

namespace KeepsCandidate

theorem refl (e : Engine NID N D) : KeepsCandidate e e :=
  ⟨rfl, fun c hc => ⟨c, hc, rfl, rfl, rfl, rfl, fun hp => ⟨rfl, hp⟩⟩⟩

theorem trans (h : KeepsCandidate e e') (h' : KeepsCandidate e' e'') : KeepsCandidate e e'' := by
  refine ⟨h'.config.trans h.config, ?_⟩
  intro c'' hc''
  obtain ⟨c', hc', hvote', hlast', hv', hm', hp'⟩ := h'.candidate c'' hc''
  obtain ⟨c, hc, hvote, hlast, hv, hm, hp⟩ := h.candidate c' hc'
  refine ⟨c, hc, hvote'.trans hvote, hlast'.trans hlast, hv'.trans hv, hm'.trans hm, ?_⟩
  intro hpurge
  obtain ⟨hend, hpurge'⟩ := hp hpurge
  obtain ⟨hend', hpurge''⟩ := hp' hpurge'
  exact ⟨hend'.trans hend, hpurge''⟩

theorem of_none (hconfig : e'.config = e.config) (hnone : e'.candidate = none) :
    KeepsCandidate e e' :=
  ⟨hconfig, fun c hc => by rw [hnone] at hc; cases hc⟩

/-- A handler that does not look at candidates, where there is none. -/
theorem of_keepsVote (hnone : e.candidate = none) (hk : KeepsVote e e') : KeepsCandidate e e' :=
  of_none hk.config (hk.candidate.trans hnone)

/-- A handler that does not touch the log. -/
theorem of_same (hconfig : e'.config = e.config) (hcand : e'.candidate = e.candidate)
    (hvote : e'.state.voteRef = e.state.voteRef) (hlog : e'.state.logIds = e.state.logIds)
    (hupto : e'.state.purgeUpto = e.state.purgeUpto)
    (heff : e'.state.membershipState.effective = e.state.membershipState.effective) :
    KeepsCandidate e e' := by
  refine ⟨hconfig, fun c hc => ⟨c, hcand ▸ hc, rfl, rfl, hvote, heff, fun hp => ⟨?_, ?_, ?_⟩⟩⟩
  · unfold RaftState.lastLogId
    rw [hlog]
  · rw [hlog]
    exact hp.consecutive
  · rw [hlog, hupto]
    exact hp.scheduled

end KeepsCandidate

theorem RoleInv.keeps (h : e.RoleInv) (hk : KeepsCandidate e e') : e'.RoleInv := by
  intro c' hc'
  obtain ⟨c, hc, hvote, hlast, hv, hm, hp⟩ := hk.candidate c' hc'
  have hok := h c hc
  obtain ⟨hend, hpurge⟩ := hp hok.purge
  exact ⟨by rw [hvote, hv, hok.vote], by rw [hlast, hend, hok.lastLogId],
    by rw [hk.config, hm]; exact hok.member, by rw [hvote]; exact hok.term, hpurge⟩

/-! ### Purges -/

theorem Purges.keepsCandidate (h : Purges e e') : KeepsCandidate e e' := by
  cases h with
  | refl => exact .refl e
  | @purge x hx hlt _ =>
    refine ⟨rfl, fun c hc => ⟨c, hc, rfl, rfl, rfl, rfl, fun hp => ?_⟩⟩
    have hx' : e.state.logIds.Has x := by
      rcases hp.scheduled x hx with hle | hhas
      · exact absurd hle (not_le.2 hlt)
      · exact hhas
    refine ⟨hx'.last_purge hp.consecutive, hp.consecutive.purge x, ?_⟩
    intro u hu
    obtain rfl : x = u := Option.some.inj (hx.symm.trans hu)
    rcases LogIds.purge_cases e.state.logIds x with ⟨heq, -⟩ | ⟨heq, -⟩ | ⟨heq, -⟩
    · refine Or.inl ?_
      show some x ≤ (e.state.logIds.purge x).purged
      rw [heq]
    · refine Or.inr ?_
      show (e.state.logIds.purge x).Has x
      rw [heq]
      exact hx'
    · refine Or.inl ?_
      show some x ≤ (e.state.logIds.purge x).purged
      rw [heq]

/-- A schedule that is taken from the log. -/
theorem updatePurgeUpto_keepsCandidate {x : LogId NID} (hx : e.state.logIds.Has x) :
    KeepsCandidate e (e.updatePurgeUpto x) := by
  refine ⟨rfl, fun c hc => ⟨c, hc, rfl, rfl, rfl, rfl, fun hp => ⟨rfl, hp.consecutive, ?_⟩⟩⟩
  intro u hu
  obtain rfl : x = u := Option.some.inj hu
  exact Or.inr hx

theorem triggerPurgeLog_keepsCandidate {index : Nat} (h : e.triggerPurgeLog index = some e') :
    KeepsCandidate e e' := by
  unfold triggerPurgeLog at h
  split at h
  · obtain rfl := Option.some.inj h
    exact .refl e
  · split at h
    · obtain rfl := Option.some.inj h
      exact .refl e
    · split at h
      · cases h
      · rename_i x hx
        obtain rfl := Option.some.inj h
        exact (updatePurgeUpto_keepsCandidate (LogIds.has_of_refAt hx)).trans
          (tryPurgeLog_purges _).keepsCandidate

theorem schedulePolicyBasedPurge_keepsCandidate (e : Engine NID N D) :
    KeepsCandidate e e.schedulePolicyBasedPurge := by
  unfold schedulePolicyBasedPurge
  split
  · rename_i x hx
    refine updatePurgeUpto_keepsCandidate ?_
    unfold calcPurgeUpto at hx
    dsimp only at hx
    repeat' split at hx
    · cases hx
    · cases hx
    · exact LogIds.has_of_refAt hx
  · exact .refl e

theorem onBuildingSnapshotDone_keepsCandidate (e : Engine NID N D) (m : SnapshotMeta NID N) :
    KeepsCandidate e (e.onBuildingSnapshotDone m) := by
  obtain ⟨p, -, heq⟩ := onBuildingSnapshotDone_eq e m
  have htaken : KeepsCandidate e ((e.snapshotBuilt p).updateSnapshot m).1 := by
    unfold updateSnapshot
    split
    · exact .of_same rfl rfl rfl rfl rfl rfl
    · exact .of_same rfl rfl rfl rfl rfl rfl
  rw [heq]
  split
  · exact htaken
  · exact htaken.trans ((schedulePolicyBasedPurge_keepsCandidate _).trans
      (tryPurgeLog_purges _).keepsCandidate)

/-! ### Votes -/

omit [LinearOrder NID] in
theorem becomeFollowing_candidate (e : Engine NID N D) : e.becomeFollowing.candidate = none := by
  unfold becomeFollowing
  dsimp only
  split <;> rfl

theorem updateInternalServerState_candidate (e : Engine NID N D) (now : Nat) :
    (e.updateInternalServerState now).candidate = e.candidate ∨
      (e.updateInternalServerState now).candidate = none := by
  unfold updateInternalServerState
  split
  · rcases becomeLeader_cases e now with ⟨-, heq⟩ | hk
    · rw [heq]
      exact Or.inl rfl
    · exact Or.inl hk.candidate
  · split
    · exact Or.inl rfl
    · exact Or.inr e.becomeFollowing_candidate

/-- A member with an uncommitted vote of its own stays what it is. -/
theorem updateInternalServerState_of_candidate (now : Nat)
    (hcom : e.state.voteRef.committed = false)
    (hown : e.state.voteRef.leaderId.nodeId = e.config.id)
    (hmember : e.state.membershipState.effective.membership.contains e.config.id = true) :
    e.updateInternalServerState now = e := by
  have hleading : e.state.isLeading e.config.id = true := by
    unfold RaftState.isLeading
    rw [hmember, hown]
    simp
  unfold updateInternalServerState RaftState.isLeader
  rw [hleading, hcom]
  rfl

variable {A : Vote NID → Prop} {G : NID → LeaderId NID → Prop} {P : Membership NID N → Prop}
variable {F : EngineConfig NID × PendingResponds NID} {s : Vote NID}

/-- The vote of a candidate is uncommitted and its own. -/
theorem RoleInv.of_candidate (h : e.RoleInv) (hv : VoteInv A G P F s e) {c : Candidate NID N}
    (hc : e.candidate = some c) : e.CandidateAgrees c ∧ e.state.voteRef.committed = false ∧
      e.state.voteRef.leaderId.nodeId = e.config.id := by
  have hok := h c hc
  have hvote := (hv.candidate c hc).1
  rw [← hok.vote]
  exact ⟨hok, hvote.uncommitted, hvote.own⟩

/-- There is no candidate beside a leader. -/
theorem RoleInv.candidate_none (h : e.RoleInv) (hv : VoteInv A G P F s e) {l : Leader NID N}
    (hl : e.leader = some l) : e.candidate = none := by
  cases hc : e.candidate with
  | none => rfl
  | some c =>
    have hcom := (h.of_candidate hv hc).2.1
    rw [(hv.leader _ (leaderVote_eq hl)).1] at hcom
    cases hcom

theorem refreshServerState_keepsCandidate (h : e.RoleInv) (hv : VoteInv A G P F s e) (now : Nat) :
    KeepsCandidate e (e.updateInternalServerState now) := by
  cases hc : e.candidate with
  | none =>
    refine .of_none (updateInternalServerState_spec e now).2.1 ?_
    rcases updateInternalServerState_candidate e now with heq | heq
    · rw [heq, hc]
    · exact heq
  | some c =>
    obtain ⟨hok, hcom, hown⟩ := h.of_candidate hv hc
    rw [updateInternalServerState_of_candidate now hcom hown hok.member]
    exact .refl e

theorem adoptVote_log (e : Engine NID N D) (now : Nat) (v : Vote NID) :
    (e.adoptVote now v).state.logIds = e.state.logIds ∧
      (e.adoptVote now v).state.purgeUpto = e.state.purgeUpto ∧
      (e.adoptVote now v).state.membershipState = e.state.membershipState := by
  unfold adoptVote acceptLogIo
  dsimp only
  split
  · unfold pushCommand
    dsimp only
    rw [RaftState.acceptLogIo_eq]
    exact ⟨rfl, rfl, rfl⟩
  · exact ⟨rfl, rfl, rfl⟩

/-- A vote in a message. One that is accepted and committed leaves no candidate. -/
theorem updateVote_keepsCandidate (h : e.RoleInv) (hinv : VoteInv A G P F s e) (now : Nat)
    {v : Vote NID} (hv : Incoming A s e v)
    (hnew : ∀ c, e.candidate = some c → v ≠ ⟨c.vote.leaderId, true⟩) :
    KeepsCandidate e (e.updateVote now v).1 ∧
      ((e.updateVote now v).2 = true → v.committed = true →
        (e.updateVote now v).1.candidate = none) := by
  unfold updateVote
  split
  · rename_i hge
    obtain ⟨hvote, hconfig, -, hcand, -⟩ := adoptVote_spec now hge
    have hconfig' := (updateInternalServerState_spec (e.adoptVote now v) now).2.1.trans hconfig
    cases hc : e.candidate with
    | none =>
      have hnone : ((e.adoptVote now v).updateInternalServerState now).candidate = none := by
        rcases updateInternalServerState_candidate (e.adoptVote now v) now with heq | heq
        · rw [heq, hcand, hc]
        · exact heq
      exact ⟨.of_none hconfig' hnone, fun _ _ => hnone⟩
    | some c =>
      obtain ⟨hok, hcom, hown⟩ := h.of_candidate hinv hc
      by_cases hid : v.leaderId.nodeId = e.config.id
      · -- a vote of the node itself is the vote of the candidate
        have hsame := (hinv.toVoteCore.same_of_own hge
          (fun hid => (hv.2 hid).trans hinv.floor_le_run) hid).1
        have huncommitted : v.committed = false := by
          cases hvc : v.committed with
          | false => rfl
          | true =>
            refine absurd ?_ (hnew c hc)
            rw [hok.vote, ← hsame, ← hvc]
        obtain ⟨hlog, hupto, hms⟩ := adoptVote_log e now v
        have hkeep : (e.adoptVote now v).updateInternalServerState now = e.adoptVote now v := by
          refine updateInternalServerState_of_candidate now ?_ ?_ ?_
          · rw [hvote, huncommitted]
          · rw [hvote, hconfig, hid]
          · rw [hms, hconfig]
            exact hok.member
        rw [hkeep]
        refine ⟨.of_same hconfig hcand ?_ hlog hupto (by rw [hms]), ?_⟩
        · rw [hvote]
          obtain ⟨l, b⟩ := v
          obtain rfl : b = false := huncommitted
          have hl : l = e.state.voteRef.leaderId := hsame
          rw [hl, ← hcom]
        · intro _ hcommitted
          rw [huncommitted] at hcommitted
          cases hcommitted
      · have hfollow := updateInternalServerState_of_other (e := e.adoptVote now v)
          (by rw [hvote, hconfig]; exact hid) now
        rw [hfollow]
        have hnone := (e.adoptVote now v).becomeFollowing_candidate
        rw [hfollow] at hconfig'
        exact ⟨.of_none hconfig' hnone, fun _ _ => hnone⟩
  · exact ⟨.refl e, by simp⟩

/-! ### Elections -/

/-- A step that may start an election: a candidate is the one from before, or it is for the next
    term. -/
structure RoleStep (e e' : Engine NID N D) : Prop where
  inv : e'.RoleInv
  origin : ∀ c', e'.candidate = some c' → (∃ c, e.candidate = some c ∧ c'.vote = c.vote) ∨
    c'.vote.leaderId = ⟨e.state.voteRef.leaderId.term + 1, e.config.id⟩

theorem RoleInv.step (h : e.RoleInv) (hk : KeepsCandidate e e') : RoleStep e e' := by
  refine ⟨h.keeps hk, fun c' hc' => ?_⟩
  obtain ⟨c, hc, hvote, -⟩ := hk.candidate c' hc'
  exact Or.inl ⟨c, hc, hvote⟩

theorem doElect_roleStep (h : e.RoleInv) (hp : e.state.PurgeInLog) (now : Nat) (transfer : Bool) :
    RoleStep e (e.doElect now transfer) := by
  unfold doElect
  dsimp only
  split
  · exact h.step (.of_same rfl rfl rfl rfl rfl rfl)
  generalize hV : (⟨⟨e.state.voteRef.leaderId.term + 1, e.config.id⟩, false⟩ : Vote NID) = v
  obtain ⟨e1, he1⟩ : ∃ e1 : Engine NID N D, e1 = { e with
      preCandidate := none
      candidate := some (({ e with preCandidate := none } : Engine NID N D).createCandidate v) } :=
    ⟨_, rfl⟩
  have hge : v.ge e1.config.mode e1.state.voteRef = true := by
    rw [← hV, he1]
    exact newVote_ge _ _ _
  rw [← he1]
  unfold updateVote
  rw [if_pos hge]
  obtain ⟨hvote, hconfig, -, hcand, -⟩ := adoptVote_spec now hge
  obtain ⟨hlog, hupto, hms⟩ := adoptVote_log e1 now v
  have hcases : (e1.adoptVote now v).updateInternalServerState now = e1.adoptVote now v ∧
      e1.state.membershipState.effective.membership.contains e1.config.id = true ∨
      ((e1.adoptVote now v).updateInternalServerState now).candidate = none := by
    have hown : (e1.adoptVote now v).state.voteRef.leaderId.nodeId =
        (e1.adoptVote now v).config.id := by
      rw [hvote, hconfig, ← hV, he1]
    have hcom : (e1.adoptVote now v).state.voteRef.committed = false := by
      rw [hvote, ← hV]
    cases hmember : e1.state.membershipState.effective.membership.contains e1.config.id with
    | true =>
      refine Or.inl ⟨updateInternalServerState_of_candidate now hcom hown ?_, rfl⟩
      rw [hms, hconfig]
      exact hmember
    | false =>
      refine Or.inr ?_
      have hnot : (e1.adoptVote now v).state.isLeading (e1.adoptVote now v).config.id = false := by
        unfold RaftState.isLeading
        rw [hms, hconfig, hmember]
        rfl
      unfold updateInternalServerState RaftState.isLeader
      rw [hnot]
      exact becomeFollowing_candidate _
  rcases hcases with ⟨heq, hmember⟩ | hnone
  · rw [heq]
    have hcand' : (e1.adoptVote now v).candidate = some (e.createCandidate v) := by
      rw [hcand, he1]
      rfl
    constructor
    · intro c hc
      obtain rfl : e.createCandidate v = c := Option.some.inj (hcand'.symm.trans hc)
      refine ⟨?_, ?_, ?_, ?_, ?_, ?_⟩
      · exact hvote.symm
      · show e.state.lastLogId = (e1.adoptVote now v).state.logIds.last
        rw [hlog, he1]
        rfl
      · show (e1.adoptVote now v).state.membershipState.effective.membership.contains
          (e1.adoptVote now v).config.id = true
        rw [hms, hconfig]
        exact hmember
      · show v.leaderId.term ≠ 0
        rw [← hV]
        exact Nat.succ_ne_zero _
      · show (e1.adoptVote now v).state.logIds.Consecutive
        rw [hlog, he1]
        exact hp.consecutive
      · show ∀ u, (e1.adoptVote now v).state.purgeUpto = some u →
          some u ≤ (e1.adoptVote now v).state.logIds.purged ∨
            (e1.adoptVote now v).state.logIds.Has u
        rw [hlog, hupto, he1]
        exact hp.scheduled
    · intro c hc
      obtain rfl : e.createCandidate v = c := Option.some.inj (hcand'.symm.trans hc)
      exact Or.inr (by rw [← hV]; rfl)
  · constructor
    · intro c hc
      cases hnone.symm.trans hc
    · intro c hc
      cases hnone.symm.trans hc

theorem preElect_roleStep (h : e.RoleInv) (hp : e.state.PurgeInLog) (now : Nat) :
    RoleStep e (e.preElect now) := by
  unfold preElect
  split
  · exact h.step (.refl e)
  · dsimp only
    have hpre : ∀ pc, RoleInv ({ e with preCandidate := pc } : Engine NID N D) := fun pc =>
      h.keeps (.of_same rfl rfl rfl rfl rfl rfl)
    split
    · obtain ⟨hinv, horigin⟩ := doElect_roleStep (hpre _) hp now false
      exact ⟨hinv, horigin⟩
    · exact h.step (.of_same rfl rfl rfl rfl rfl rfl)

theorem handleRejectedVoteResp_keepsCandidate (h : e.RoleInv) (hinv : VoteInv A G P F s e)
    (henv : OwnVotes A e.config.id) (now : Nat) {resp : VoteResponse NID} (isPreVote : Bool)
    (hv : Incoming A s e resp.vote) :
    KeepsCandidate e (e.handleRejectedVoteResp now resp isPreVote) := by
  unfold handleRejectedVoteResp
  dsimp only
  generalize hg : (if e.state.lastLogId < resp.lastLogId then
    ({ e with seenGreaterLog := true } : Engine NID N D) else e) = e1
  have h1 : KeepsCandidate e e1 ∧ VoteInv A G P F s e1 := by
    subst hg
    split
    · exact ⟨.of_same rfl rfl rfl rfl rfl rfl,
        ⟨⟨hinv.frame, hinv.queue, hinv.memory, hinv.admitted⟩, hinv.leader, hinv.candidate⟩⟩
    · exact ⟨.refl e, hinv⟩
  obtain ⟨hk, hinv1⟩ := h1
  split
  · refine hk.trans (updateVote_keepsCandidate (h.keeps hk) hinv1 now ⟨henv.nonCommitted _ hv.1, ?_⟩
      ?_).1
    · rw [hk.config]
      exact hv.2
    · rintro c - heq
      cases congrArg Vote.committed heq
  · exact hk

theorem grantBy_same (c : Candidate NID N) (target : NID) :
    (c.grantBy target).1.vote = c.vote ∧ (c.grantBy target).1.lastLogId = c.lastLogId := by
  unfold Candidate.grantBy
  split <;> exact ⟨rfl, rfl⟩

/-- A leader of the election that the vote of the node is about commits this vote and stays. -/
theorem startLeading_spec {l : Leader NID N} (hl : e.leader = some l)
    (hV : l.committedVote = e.state.voteRef.leaderId) (hown : l.committedVote.nodeId = e.config.id)
    (hmember : e.state.membershipState.effective.membership.contains e.config.id = true)
    (now : Nat) :
    ∃ e' l', e.startLeading now l = some e' ∧ e'.leader = some l' ∧
      l'.committedVote = l.committedVote ∧ e'.state.voteRef = ⟨l.committedVote, true⟩ ∧
      e'.candidate = e.candidate ∧ e'.config = e.config := by
  unfold startLeading
  dsimp only
  have hk1 := rebuildReplicationStreams_keepsVote hl true
  have hms1 : (e.rebuildReplicationStreams l true).state.membershipState =
      e.state.membershipState := rfl
  generalize e.rebuildReplicationStreams l true = e1 at hk1 hms1 ⊢
  obtain ⟨l1, hl1, hV1⟩ := hk1.leader_some hl
  have hge : Vote.ge e1.config.mode ⟨l.committedVote, true⟩ e1.state.voteRef = true := by
    rw [hk1.vote, hV]
    exact Vote.ge_iff.2 ((Vote.le_toCommitted _ e.state.voteRef).imp Eq.symm id)
  obtain ⟨hv2, hconfig2, hleader2, hcand2, -⟩ := adoptVote_spec now hge
  obtain ⟨-, -, hms2⟩ := adoptVote_log e1 now ⟨l.committedVote, true⟩
  have hup : e1.updateVote now ⟨l.committedVote, true⟩ =
      (e1.adoptVote now ⟨l.committedVote, true⟩, true) := by
    unfold updateVote
    rw [if_pos hge]
    generalize e1.adoptVote now ⟨l.committedVote, true⟩ = e2 at hv2 hconfig2 hleader2 hms2 ⊢
    have hlead : e2.state.isLeader e2.config.id = true := by
      unfold RaftState.isLeader RaftState.isLeading
      rw [hv2, hconfig2, hms2, hms1, hk1.config, hmember, hown]
      simp
    unfold updateInternalServerState becomeLeader
    rw [if_pos hlead, if_pos]
    rw [hleader2, hl1, hv2]
    exact decide_eq_true hV1
  rw [hup]
  dsimp only
  generalize e1.adoptVote now ⟨l.committedVote, true⟩ = e2 at hv2 hconfig2 hleader2 hcand2 ⊢
  have hk3 := acceptLogIo_keepsVote e2 (.newLogIo l.committedVote l.lastLogId)
  obtain ⟨l3, hl3, hV3⟩ := hk3.leader_some (hleader2.trans hl1)
  have hk4 := leaderAppendEntries_keepsVote hl3 [(.blank : Payload NID N D)]
  obtain ⟨l4, hl4, hV4⟩ := hk4.leader_some hl3
  rw [hl3, Option.map_some]
  refine ⟨_, l4, rfl, hl4, ?_, ?_, ?_, ?_⟩
  · rw [hV4, hV3, hV1]
  · rw [hk4.vote, hk3.vote, hv2]
  · rw [hk4.candidate, hk3.candidate, hcand2, hk1.candidate]
  · rw [hk4.config, hk3.config, hconfig2, hk1.config]

theorem establishLeader_eq (hl : e.leader = none) (now : Nat) (c : Candidate NID N) :
    ∃ (e1 : Engine NID N D) (l : Leader NID N),
      e.establishLeader now c = e1.startLeading now l ∧ e1.leader = some l ∧
      l.committedVote = c.vote.leaderId ∧ e1.candidate = none ∧ e1.config = e.config ∧
      e1.state.voteRef = e.state.voteRef ∧ e1.state.membershipState = e.state.membershipState := by
  unfold establishLeader establish
  dsimp only
  rw [hl]
  simp only [Option.any_none, Bool.false_eq_true, if_false]
  exact ⟨_, _, rfl, rfl, rfl, rfl, rfl, rfl, rfl⟩

/-- A candidate that has its quorum: its vote update is accepted, and the leader is there. -/
theorem handleVoteResp_of_wins (h : e.RoleInv) (hinv : VoteInv A G P F s e) (now : Nat)
    {target : NID} {resp : VoteResponse NID} {c : Candidate NID N} (hw : e.Wins target resp c) :
    ∃ e' l, e.handleVoteResp now target resp = some e' ∧ e'.leader = some l ∧
      l.committedVote = c.vote.leaderId ∧ e'.state.voteRef = ⟨c.vote.leaderId, true⟩ ∧
      e'.candidate = none ∧ e'.config = e.config := by
  obtain ⟨hok, hcom, hown⟩ := h.of_candidate hinv hw.candidate
  have hleader : e.leader = none := by
    cases hl : e.leader with
    | none => rfl
    | some l => cases (h.candidate_none hinv hl).symm.trans hw.candidate
  obtain ⟨hvote, -⟩ := grantBy_same c target
  have hresp : (resp.voteGranted && decide (resp.vote = c.vote)) = true := by
    rw [hw.granted, hw.vote]
    simp
  obtain ⟨e1, l, heq, hl, hV, hcand, hconfig, hv, hms⟩ :=
    establishLeader_eq hleader now (c.grantBy target).1
  rw [hvote] at hV
  obtain ⟨e', l', he', hl', hV', hv', hcand', hconfig'⟩ := startLeading_spec hl
    (by rw [hV, hv, hok.vote]) (by rw [hV, hconfig, hok.vote, hown])
    (by rw [hms, hconfig]; exact hok.member) now
  refine ⟨e', l', ?_, hl', hV'.trans hV, by rw [hv', hV], hcand'.trans hcand,
    hconfig'.trans hconfig⟩
  unfold handleVoteResp
  rw [hw.candidate]
  dsimp only
  rw [if_pos hresp, if_pos hw.quorum, heq, he']

/-- An answer to a vote request. -/
theorem handleVoteResp_roleStep (h : e.RoleInv) (hinv : VoteInv A G P F s e)
    (henv : OwnVotes A e.config.id) (now : Nat) {target : NID} {resp : VoteResponse NID}
    (hv : Incoming A s e resp.vote) (he : e.handleVoteResp now target resp = some e') :
    RoleStep e e' := by
  by_cases hw : ∃ c, e.Wins target resp c
  · obtain ⟨c, hw⟩ := hw
    obtain ⟨e1, -, he1, -, -, -, hnone, hconfig⟩ := handleVoteResp_of_wins h hinv now hw
    obtain rfl : e1 = e' := Option.some.inj (he1.symm.trans he)
    exact h.step (.of_none hconfig hnone)
  · unfold handleVoteResp at he
    split at he
    · obtain rfl := Option.some.inj he
      exact h.step (.refl e)
    · rename_i c hc
      split at he
      · rename_i hgr
        rw [Bool.and_eq_true, decide_eq_true_eq] at hgr
        dsimp only at he
        rw [if_neg fun hq => hw ⟨c, hc, hgr.1, hgr.2, hq⟩] at he
        obtain rfl := Option.some.inj he
        obtain ⟨hvote, hlast⟩ := grantBy_same c target
        refine h.step ⟨rfl, ?_⟩
        rintro c' ⟨⟩
        exact ⟨c, hc, hvote, hlast, rfl, rfl, fun hp => ⟨rfl, hp⟩⟩
      · obtain rfl := Option.some.inj he
        exact h.step (handleRejectedVoteResp_keepsCandidate h hinv henv now false hv)

theorem handlePreVoteResp_roleStep (h : e.RoleInv) (hinv : VoteInv A G P F s e)
    (henv : OwnVotes A e.config.id) (hp : e.state.PurgeInLog) (now : Nat) (target : NID)
    {resp : VoteResponse NID} (hv : Incoming A s e resp.vote) :
    RoleStep e (e.handlePreVoteResp now target resp) := by
  unfold handlePreVoteResp
  split
  · exact h.step (.refl e)
  · split
    · dsimp only
      have hpre : ∀ pc, RoleInv ({ e with preCandidate := pc } : Engine NID N D) := fun pc =>
        h.keeps (.of_same rfl rfl rfl rfl rfl rfl)
      split
      · obtain ⟨hinv', horigin⟩ := doElect_roleStep (hpre _) hp now false
        exact ⟨hinv', horigin⟩
      · exact h.step (.of_same rfl rfl rfl rfl rfl rfl)
    · exact h.step (handleRejectedVoteResp_keepsCandidate h hinv henv now true hv)

/-! ### Requests -/

theorem handleVoteReq_keepsCandidate (h : e.RoleInv) (hinv : VoteInv A G P F s e) (now : Nat)
    {req : VoteRequest NID} (hv : Incoming A s e req.vote)
    (hnew : ∀ c, e.candidate = some c → req.vote ≠ ⟨c.vote.leaderId, true⟩) :
    KeepsCandidate e (e.handleVoteReq now req).1 := by
  unfold handleVoteReq
  split
  · exact .refl e
  · exact (updateVote_keepsCandidate h hinv now hv hnew).1

/-- A request of a leader: there is no candidate left when the log is looked at. -/
theorem handleAppendEntries_keepsCandidate (h : e.RoleInv) (hinv : VoteInv A G P F s e) (now : Nat)
    (ctx : StreamCtx NID) {v : Vote NID} (hv : Incoming A s e v) (hcom : v.committed = true)
    (hnew : ∀ c, e.candidate = some c → v ≠ ⟨c.vote.leaderId, true⟩) (prev : Option (LogId NID))
    (entries : List (Entry NID N D)) :
    KeepsCandidate e (e.handleAppendEntries now ctx v prev entries) := by
  obtain ⟨hk, hnone⟩ := updateVote_keepsCandidate h hinv now hv hnew
  unfold handleAppendEntries appendEntries
  dsimp only
  generalize e.updateVote now v = r at hk hnone ⊢
  obtain ⟨e1, _ | _⟩ := r
  · exact hk.trans (.of_same rfl rfl rfl rfl rfl rfl)
  · have hnone1 : e1.candidate = none := hnone rfl hcom
    have hens := ensureLogConsecutive_keepsVote e1 prev
    dsimp only
    generalize e1.ensureLogConsecutive prev = r at hens ⊢
    obtain ⟨e2, _ | err⟩ := r
    · have happ := hens.trans (followingAppendEntries_keepsVote e2 prev entries)
      exact hk.trans ((KeepsCandidate.of_keepsVote hnone1 happ).trans
        (.of_same rfl rfl rfl rfl rfl rfl))
    · exact hk.trans ((KeepsCandidate.of_keepsVote hnone1 hens).trans
        (.of_same rfl rfl rfl rfl rfl rfl))

theorem handleInstallFullSnapshot_keepsCandidate (h : e.RoleInv) (hinv : VoteInv A G P F s e)
    (now : Nat) {ctx : StreamCtx NID} {v : Vote NID} (hv : Incoming A s e v)
    (hcom : v.committed = true)
    (hnew : ∀ c, e.candidate = some c → v ≠ ⟨c.vote.leaderId, true⟩) {snapshot : Snapshot NID N D}
    (he : e.handleInstallFullSnapshot now ctx v snapshot = some e') : KeepsCandidate e e' := by
  obtain ⟨hk, hnone⟩ := updateVote_keepsCandidate h hinv now hv hnew
  unfold handleInstallFullSnapshot at he
  dsimp only at he
  generalize e.updateVote now v = r at hk hnone he
  obtain ⟨e1, _ | _⟩ := r
  · obtain rfl := Option.some.inj he
    exact hk.trans (.of_same rfl rfl rfl rfl rfl rfl)
  · obtain ⟨⟨e2, cond⟩, hinst, rfl⟩ := Option.map_eq_some_iff.1 he
    exact hk.trans ((KeepsCandidate.of_keepsVote (hnone rfl hcom)
      (installFullSnapshot_keepsVote hinst)).trans (.of_same rfl rfl rfl rfl rfl rfl))

theorem updateCommitted_keepsCandidate (e : Engine NID N D) (mode : LeaderIdMode)
    (cc : LogIOId NID) :
    KeepsCandidate e { e with state := e.state.updateCommitted mode cc } := by
  have hsame : (e.state.updateCommitted mode cc).logIds = e.state.logIds ∧
      (e.state.updateCommitted mode cc).purgeUpto = e.state.purgeUpto ∧
      (e.state.updateCommitted mode cc).membershipState.effective =
        e.state.membershipState.effective := by
    unfold RaftState.updateCommitted RaftState.updateLocalCommitted MembershipState.commit
    dsimp only
    repeat' split
    all_goals exact ⟨rfl, rfl, rfl⟩
  exact .of_same rfl rfl (updateCommitted_voteRef _ _ _) hsame.1 hsame.2.1 hsame.2.2

end Engine

/-! ## The node -/

/-- A request of a leader carries a committed vote. -/
def Message.FromLeader : Message NID N D → Prop
  | .appendEntries _ req => req.vote.committed = true
  | .installFullSnapshot _ v _ => v.committed = true
  | _ => True

omit [LinearOrder NID] in
theorem Respond.fromLeader (r : Respond NID) (src : NID) :
    (r.toMessage src : Message NID N D).FromLeader := by
  cases r <;> exact trivial

/-- The events that may start an election. -/
def Event.mayElect : Event NID N D → Bool
  | .elect => true
  | .preElect => true
  | .receive (.voteResp true _ _ _ _) => true
  | .receive (.transferLeader _ _ _ _) => true
  | _ => false

namespace Node

variable {n n' n'' : Node NID N D} {e' : Engine NID N D}

/-- An event that leaves the candidate alone, or drops it. -/
structure Passes (n n' : Node NID N D) : Prop where
  engine : n.engine.KeepsCandidate n'.engine
  sent : ∀ msg ∈ n'.sent, msg ∈ n.sent ∨ msg.FromLeader

theorem Passes.trans (h : Passes n n') (h' : Passes n' n'') : Passes n n'' := by
  refine ⟨h.engine.trans h'.engine, fun msg hmsg => ?_⟩
  rcases h'.sent msg hmsg with hold | hnew
  · exact h.sent msg hold
  · exact Or.inr hnew

/-- A change outside of the engine. -/
theorem Passes.outside (he : n'.engine = n.engine) (hs : n'.sent = n.sent) : Passes n n' :=
  ⟨by rw [he]; exact .refl _, fun msg hmsg => Or.inl (hs ▸ hmsg)⟩

/-- A change of the cursors or of the queue of commands. -/
theorem Passes.idle (hconfig : n'.engine.config = n.engine.config)
    (hcand : n'.engine.candidate = n.engine.candidate)
    (hstate : n'.engine.state = { n.engine.state with ioState := n'.engine.state.ioState })
    (hs : n'.sent = n.sent) : Passes n n' :=
  ⟨.of_same hconfig hcand (by rw [hstate]; rfl) (by rw [hstate]) (by rw [hstate])
    (by rw [hstate]), fun msg hmsg => Or.inl (hs ▸ hmsg)⟩

theorem Passes.withEngine (h : n.engine.KeepsCandidate e') : Passes n (n.withEngine e') :=
  ⟨h, fun _ hmsg => Or.inl hmsg⟩

theorem Passes.afterEngine {r : Option (Engine NID N D)}
    (h : ∀ e', r = some e' → n.engine.KeepsCandidate e') : Passes n (n.afterEngine r) := by
  cases r with
  | none => exact .outside rfl rfl
  | some e' => exact .withEngine (h e' rfl)

theorem Passes.refl (n : Node NID N D) : Passes n n := .outside rfl rfl

theorem Passes.send (h : Passes n n') {ms : List (Message NID N D)}
    (hms : ∀ msg ∈ ms, msg.FromLeader) : Passes n (n'.send ms) := by
  refine ⟨h.engine, fun msg hmsg => ?_⟩
  rcases List.mem_append.1 hmsg with hold | hnew
  · exact h.sent msg hold
  · exact Or.inr (hms msg hnew)

/-! ### Commands -/

theorem runSaveVote_passes (n : Node NID N D) (v : Vote NID) : Passes n (n.runSaveVote v) := by
  unfold runSaveVote
  dsimp only
  split
  · exact .idle rfl rfl rfl rfl
  · apply Passes.send
    · exact .idle rfl rfl rfl rfl
    · intro msg hmsg
      obtain rfl := List.mem_singleton.1 hmsg
      trivial

theorem runSaveCommittedAndApply_passes (n : Node NID N D) (alreadyApplied : Option (LogId NID))
    (upto : LogId NID) : Passes n (n.runSaveCommittedAndApply alreadyApplied upto) := by
  unfold runSaveCommittedAndApply
  dsimp only
  split
  · exact .idle rfl rfl rfl rfl
  · exact .idle rfl rfl rfl rfl

theorem runStateMachine_passes (n : Node NID N D) (command : SmCommand NID N D) :
    Passes n (n.runStateMachine command) := by
  unfold runStateMachine
  dsimp only
  split
  · split <;> exact .idle rfl rfl rfl rfl
  · exact .idle rfl rfl rfl rfl

theorem execCommand_passes {c : Command NID N D} (he : n.execCommand c = some n') :
    Passes n n' := by
  cases c with
  | updateIOProgress _ io =>
    obtain rfl := Option.some.inj he
    exact .idle rfl rfl rfl rfl
  | appendEntries V entries =>
    obtain rfl := Option.some.inj he
    exact .idle rfl rfl rfl rfl
  | replicateCommitted committed =>
    obtain rfl := Option.some.inj he
    exact .outside rfl rfl
  | saveCommittedAndApply alreadyApplied upto =>
    obtain rfl := Option.some.inj he
    exact n.runSaveCommittedAndApply_passes alreadyApplied upto
  | replicate target inflight =>
    obtain rfl := Option.some.inj he
    exact .outside rfl rfl
  | replicateSnapshot V target id =>
    obtain rfl := Option.some.inj he
    exact .outside rfl rfl
  | broadcastTransferLeader V target last =>
    obtain rfl := Option.some.inj he
    refine (Passes.refl n).send fun msg hmsg => ?_
    obtain ⟨t, -, rfl⟩ := List.mem_map.1 hmsg
    trivial
  | closeReplicationStreams =>
    obtain rfl := Option.some.inj he
    exact .outside rfl rfl
  | failPendingReads =>
    obtain rfl := Option.some.inj he
    exact .outside rfl rfl
  | rebuildReplicationStreams V targets closeOld =>
    obtain rfl := Option.some.inj he
    exact .outside rfl rfl
  | saveVote v =>
    obtain ⟨-, heq⟩ := Option.ite_none_right_eq_some.1 he
    obtain rfl := Option.some.inj heq
    exact n.runSaveVote_passes v
  | sendVote isPreVote req =>
    obtain rfl := Option.some.inj he
    refine (Passes.refl n).send fun msg hmsg => ?_
    obtain ⟨t, -, rfl⟩ := List.mem_map.1 hmsg
    trivial
  | purgeLog upto =>
    obtain ⟨-, heq⟩ := Option.ite_none_right_eq_some.1 he
    obtain rfl := Option.some.inj heq
    exact .idle rfl rfl rfl rfl
  | truncateLog after =>
    obtain ⟨-, heq⟩ := Option.ite_none_right_eq_some.1 he
    obtain rfl := Option.some.inj heq
    exact .outside rfl rfl
  | stateMachine command =>
    obtain rfl := Option.some.inj he
    exact n.runStateMachine_passes command
  | respond _ resp =>
    obtain rfl := Option.some.inj he
    refine (Passes.refl n).send fun msg hmsg => ?_
    obtain rfl := List.mem_singleton.1 hmsg
    exact resp.fromLeader n.id

theorem runCommand_passes (he : n.runCommand = some n') : Passes n n' := by
  unfold runCommand at he
  split at he
  · cases he
  · rename_i c cs hcs
    have hpop : Passes n (n.withCommands cs) := .idle rfl rfl rfl rfl
    split at he
    · exact hpop.trans (execCommand_passes he)
    · split at he
      · obtain rfl := Option.some.inj he
        exact hpop.trans (.idle rfl rfl rfl rfl)
      · cases he

theorem runProgressDrivenCommand_passes (he : n.runProgressDrivenCommand = some n') :
    Passes n n' := by
  unfold runProgressDrivenCommand at he
  obtain ⟨-, he⟩ := Option.ite_none_right_eq_some.1 he
  obtain ⟨c, -, he⟩ := Option.bind_eq_some_iff.1 he
  exact execCommand_passes he

theorem sendSatisfiedOnLogIo_passes (he : n.sendSatisfiedOnLogIo = some n') : Passes n n' := by
  unfold sendSatisfiedOnLogIo at he
  dsimp only at he
  split at he
  · cases he
  · rename_i io resp rest hpending
    obtain ⟨-, heq⟩ := Option.ite_none_right_eq_some.1 he
    obtain rfl := Option.some.inj heq
    apply Passes.send
    · exact .idle rfl rfl rfl rfl
    · intro msg hmsg
      obtain rfl := List.mem_singleton.1 hmsg
      exact resp.fromLeader n.id

theorem sendSatisfiedOnSnapshot_passes (he : n.sendSatisfiedOnSnapshot = some n') :
    Passes n n' := by
  unfold sendSatisfiedOnSnapshot at he
  dsimp only at he
  split at he
  · cases he
  · rename_i logId resp rest hpending
    obtain ⟨-, heq⟩ := Option.ite_none_right_eq_some.1 he
    obtain rfl := Option.some.inj heq
    apply Passes.send
    · exact .idle rfl rfl rfl rfl
    · intro msg hmsg
      obtain rfl := List.mem_singleton.1 hmsg
      exact resp.fromLeader n.id

theorem flush_passes (he : n.flush = some n') : Passes n n' := by
  unfold flush at he
  split at he
  · cases he
  · obtain rfl := Option.some.inj he
    exact .outside rfl rfl

theorem workerLoop_passes (he : n.workerLoop = some n') : Passes n n' := by
  unfold workerLoop at he
  repeat' split at he
  · cases he
  all_goals
    obtain rfl := Option.some.inj he
    exact .outside rfl rfl

/-! ### Events -/

/-- What an event does to the roles. -/
structure RoleStep (n n' : Node NID N D) : Prop where
  engine : n.engine.RoleStep n'.engine
  sent : ∀ msg ∈ n'.sent, msg ∈ n.sent ∨ msg.FromLeader

variable {A : Vote NID → Prop} {G : NID → LeaderId NID → Prop} {P : Membership NID N → Prop}

theorem Passes.step (hk : Passes n n') (h : n.engine.RoleInv) : RoleStep n n' :=
  ⟨h.step hk.engine, hk.sent⟩

theorem RoleStep.withEngine (h : n.engine.RoleStep e') : RoleStep n (n.withEngine e') :=
  ⟨h, fun _ hmsg => Or.inl hmsg⟩

/-- Whoever leads has no candidate to look after. -/
theorem keepsCandidate_of_leader (h : n.engine.RoleInv) (hinv : n.VoteInv A G P)
    {l : Leader NID N} (hl : n.engine.leader = some l) (hk : n.engine.KeepsVote e') :
    n.engine.KeepsCandidate e' :=
  .of_keepsVote (h.candidate_none hinv.engine hl) hk

theorem withLeader_passes (h : n.engine.RoleInv) (hinv : n.VoteInv A G P)
    {f : Engine NID N D → Leader NID N → Engine NID N D}
    (hf : ∀ l, n.engine.leader = some l → n.engine.KeepsVote (f n.engine l)) :
    Passes n (n.withEngine (n.engine.withLeader f)) := by
  refine .withEngine ?_
  unfold Engine.withLeader
  split
  · rename_i l hl
    exact keepsCandidate_of_leader h hinv hl (hf l hl)
  · exact .refl _

theorem handleLocalIo_passes (h : n.engine.RoleInv) (hinv : n.VoteInv A G P) (io : IOId NID) :
    Passes n (n.handleLocalIo io) := by
  unfold handleLocalIo
  dsimp only
  have hflush : Passes n (n.mapIo fun s => { s with
      logProgress := s.logProgress.tryFlush (IOId.gt n.engine.config.mode) io }) :=
    .idle rfl rfl rfl rfl
  have hinv1 := (hinv.mapIo fun s => { s with
      logProgress := s.logProgress.tryFlush (IOId.gt n.engine.config.mode) io }).1
  split
  · rename_i logIo l hl
    split
    · exact hflush.trans (.afterEngine fun e' he' =>
        keepsCandidate_of_leader (h.keeps hflush.engine) hinv1 hl
          (Engine.updateLocalProgress_keepsVote hl he'))
    · exact hflush
  · exact hflush

theorem handleStateMachineResult_passes (n : Node NID N D) (r : SmResponse NID N) :
    Passes n (n.handleStateMachineResult r) := by
  cases r with
  | buildSnapshotDone m => exact .withEngine (n.engine.onBuildingSnapshotDone_keepsCandidate m)
  | installSnapshot io m =>
    unfold handleStateMachineResult
    dsimp only
    split <;> exact .idle rfl rfl rfl rfl
  | apply last => exact .idle rfl rfl rfl rfl

theorem handleReplicationProgress_passes (h : n.engine.RoleInv) (hinv : n.VoteInv A G P)
    (ctx : StreamCtx NID) (result : Engine.ReplicationResult NID) :
    Passes n (n.handleReplicationProgress ctx result) := by
  unfold handleReplicationProgress
  split
  · rename_i l hl
    exact .afterEngine fun e' he' =>
      keepsCandidate_of_leader h hinv hl (Engine.updateProgress_keepsVote hl he')
  · exact .refl n

theorem handleHigherVote_passes (h : n.engine.RoleInv) (hinv : n.VoteInv A G P) (now : Nat)
    (leaderVote : LeaderId NID) {v : Vote NID} (hv : n.engine.Incoming A n.savedVote v)
    (hnew : ∀ c, n.engine.candidate = some c → v ≠ ⟨c.vote.leaderId, true⟩) :
    Passes n (n.handleHigherVote now leaderVote v) := by
  unfold handleHigherVote
  split
  · exact .withEngine (Engine.updateVote_keepsCandidate h hinv.engine now hv hnew).1
  · exact .refl n

theorem handleAppendEntriesResponse_passes (h : n.engine.RoleInv) (hinv : n.VoteInv A G P)
    (now : Nat) (ctx : StreamCtx NID)
    {result : Except (StreamAppendError NID) (Option (LogId NID))}
    (hv : ∀ v, result = .error (.higherVote v) → n.engine.Incoming A n.savedVote v ∧
      ∀ c, n.engine.candidate = some c → v ≠ ⟨c.vote.leaderId, true⟩) :
    Passes n (n.handleAppendEntriesResponse now ctx result) := by
  unfold handleAppendEntriesResponse
  split
  · exact .refl n
  · split
    · exact .refl n
    · exact handleReplicationProgress_passes h hinv ctx _
  · exact handleReplicationProgress_passes h hinv ctx _
  · exact handleHigherVote_passes h hinv now _ (hv _ rfl).1 (hv _ rfl).2

theorem handleInstallSnapshotResponse_passes (h : n.engine.RoleInv) (hinv : n.VoteInv A G P)
    (now : Nat) (ctx : StreamCtx NID) (lastLogId : Option (LogId NID)) {v : Vote NID}
    (hv : n.engine.Incoming A n.savedVote v)
    (hnew : ∀ c, n.engine.candidate = some c → v ≠ ⟨c.vote.leaderId, true⟩) :
    Passes n (n.handleInstallSnapshotResponse now ctx lastLogId v) := by
  unfold handleInstallSnapshotResponse
  split
  · exact handleHigherVote_passes h hinv now _ hv hnew
  · exact handleReplicationProgress_passes h hinv ctx _

theorem handleAppendEntriesRequest_passes (h : n.engine.RoleInv) (hinv : n.VoteInv A G P)
    (now : Nat) (ctx : StreamCtx NID) {req : AppendEntriesRequest NID N D}
    (hv : n.engine.Incoming A n.savedVote req.vote) (hcom : req.vote.committed = true)
    (hnew : ∀ c, n.engine.candidate = some c → req.vote ≠ ⟨c.vote.leaderId, true⟩) :
    Passes n (n.handleAppendEntriesRequest now ctx req) :=
  .withEngine ((Engine.handleAppendEntries_keepsCandidate h hinv.engine now ctx hv hcom hnew _
    _).trans (Engine.updateCommitted_keepsCandidate _ _ _))

theorem handleVoteResponse_roleStep (h : n.engine.RoleInv) (hinv : n.VoteInv A G P)
    (henv : OwnVotes A n.id) (now : Nat) (isPreVote : Bool)
    (hp : isPreVote = true → n.engine.state.PurgeInLog) (src : NID) (candidateVote : LeaderId NID)
    {resp : VoteResponse NID} (hv : n.engine.Incoming A n.savedVote resp.vote) :
    RoleStep n (n.handleVoteResponse now isPreVote src candidateVote resp) := by
  unfold handleVoteResponse
  cases isPreVote with
  | true =>
    simp only [if_true]
    split
    · exact .withEngine (Engine.handlePreVoteResp_roleStep h hinv.engine henv (hp rfl) now src hv)
    · exact (Passes.refl n).step h
  | false =>
    simp only [Bool.false_eq_true, if_false]
    split
    · cases he : n.engine.handleVoteResp now src resp with
      | none =>
        refine Passes.step ?_ h
        exact .outside rfl rfl
      | some e' =>
        exact .withEngine (Engine.handleVoteResp_roleStep h hinv.engine henv now hv he)
    · exact (Passes.refl n).step h

theorem handleTransferLeader_roleStep (h : n.engine.RoleInv) (hp : n.engine.state.PurgeInLog)
    (now : Nat) (V : LeaderId NID) (target : NID) (lastLogId : Option (LogId NID)) :
    RoleStep n (n.handleTransferLeader now V target lastLogId) := by
  unfold handleTransferLeader
  dsimp only
  split
  · have hk : n.engine.KeepsCandidate { n.engine with
        state := { n.engine.state with vote := n.engine.state.vote.disableLease } } :=
      .of_same rfl rfl rfl rfl rfl rfl
    split
    · obtain ⟨hinv, horigin⟩ := Engine.doElect_roleStep (h.keeps hk)
        ⟨hp.consecutive, hp.scheduled⟩ now true
      exact .withEngine ⟨hinv, horigin⟩
    · exact (Passes.withEngine hk).step h
  · exact (Passes.refl n).step h

theorem writeEntries_passes (h : n.engine.RoleInv) (hinv : n.VoteInv A G P) (now : Nat)
    (payloads : List (Payload NID N D)) : Passes n (n.writeEntries now payloads) := by
  unfold writeEntries
  split
  · rename_i l hl
    have hlead := ensureLeaderHandler_some (Option.filter_eq_some_iff.1 hl).1
    exact .withEngine (keepsCandidate_of_leader h hinv hlead
      (Engine.leaderAppendEntries_keepsVote hlead _))
  · exact .refl n

theorem changeMembership_passes (h : n.engine.RoleInv) (hinv : n.VoteInv A G P) (now : Nat)
    (changes : ChangeMembers NID N) (retain : Bool) :
    Passes n (n.changeMembership now changes retain) := by
  unfold changeMembership
  repeat' split
  · exact .refl n
  · exact .outside rfl rfl
  · exact .refl n
  · exact writeEntries_passes h hinv now _

theorem appendMembership_passes [DecidableEq N] (h : n.engine.RoleInv) (hinv : n.VoteInv A G P)
    (now : Nat) (m : Membership NID N) : Passes n (n.appendMembership now m) := by
  unfold appendMembership
  repeat' split
  · exact .refl n
  · exact .refl n
  · exact .refl n
  · exact writeEntries_passes h hinv now _

theorem sendOnStream_passes (hsend : n.SendsOnStream n') : Passes n n' := by
  cases hsend <;>
  · refine (Passes.refl n).send fun msg hmsg => ?_
    obtain rfl := List.mem_singleton.1 hmsg
    rfl

/-- Nobody is a candidate when a node starts. -/
theorem start_candidate {config : EngineConfig NID} {incarnation : Nat}
    {sent : List (Message NID N D)} {now : Nat} {store : LogStore NID N D}
    {sm : StateMachine NID N D} (h : Node.start config incarnation sent now store sm = some n) :
    n.engine.candidate = none ∧ n.sent = sent := by
  obtain ⟨⟨state, store', sm'⟩, -, rfl⟩ := Option.map_eq_some_iff.1 h
  refine ⟨?_, rfl⟩
  show (Engine.startup (Engine.new state config : Engine NID N D) now).candidate = none
  unfold Engine.startup
  split
  · split
    · rcases Engine.updateInternalServerState_candidate
        (Engine.new state config : Engine NID N D) now with heq | heq
      · exact heq
      · exact heq
    · rfl
  · rfl

theorem restart_roleStep (h : n.engine.RoleInv) (now keep appliedKeep : Nat) :
    RoleStep n (n.restart now keep appliedKeep) := by
  unfold restart
  dsimp only
  generalize hs : Node.start n.engine.config (n.incarnation + 1) n.sent now
    (n.store.crash keep) _ = r
  cases r with
  | none =>
    refine Passes.step ?_ h
    exact .outside rfl rfl
  | some n' =>
    obtain ⟨hnone, hsent⟩ := start_candidate hs
    rw [Option.getD_some]
    refine ⟨⟨?_, ?_⟩, fun msg hmsg => Or.inl (hsent ▸ hmsg)⟩
    · intro c hc
      cases hnone.symm.trans hc
    · intro c hc
      cases hnone.symm.trans hc

/-- What the candidate needs of a message that arrives: its vote is in order, it is not the
    committed vote of the candidate, and a request of a leader has a committed vote. -/
structure Harmless (A : Vote NID → Prop) (n : Node NID N D) (msg : Message NID N D) : Prop where
  incoming : ∀ v ∈ msg.vote?, n.engine.Incoming A n.savedVote v
  fresh : ∀ v ∈ msg.vote?, ∀ c, n.engine.candidate = some c → v ≠ ⟨c.vote.leaderId, true⟩
  fromLeader : msg.FromLeader

theorem receive_roleStep (h : n.engine.RoleInv) (hinv : n.VoteInv A G P) (henv : OwnVotes A n.id)
    {now : Nat} {msg : Message NID N D} (hmsg : Harmless A n msg)
    (hp : (Event.receive msg).mayElect = true → n.engine.state.PurgeInLog)
    (he : n.receive now msg = some n') : RoleStep n n' := by
  cases msg with
  | vote isPreVote src dst req =>
    cases isPreVote with
    | true =>
      obtain rfl := Option.some.inj he
      refine Passes.step (.withEngine ?_) h
      exact .of_same rfl rfl rfl rfl rfl rfl
    | false =>
      obtain rfl := Option.some.inj he
      have hk := Engine.handleVoteReq_keepsCandidate h hinv.engine now (hmsg.incoming _ rfl)
        (hmsg.fresh _ rfl)
      refine Passes.step (.withEngine ?_) h
      exact hk.trans (.of_same rfl rfl rfl rfl rfl rfl)
  | voteResp isPreVote src dst candidateVote resp =>
    obtain rfl := Option.some.inj he
    refine handleVoteResponse_roleStep h hinv henv now isPreVote ?_ src candidateVote
      (hmsg.incoming _ rfl)
    rintro rfl
    exact hp rfl
  | appendEntries ctx req =>
    obtain rfl := Option.some.inj he
    exact (handleAppendEntriesRequest_passes h hinv now ctx (hmsg.incoming _ rfl) hmsg.fromLeader
      (hmsg.fresh _ rfl)).step h
  | appendEntriesResp ctx result =>
    unfold Node.receive at he
    simp only [Option.ite_none_right_eq_some, Option.some.injEq] at he
    obtain ⟨-, rfl⟩ := he
    refine (handleAppendEntriesResponse_passes h hinv now ctx ?_).step h
    rintro v rfl
    exact ⟨hmsg.incoming v rfl, hmsg.fresh v rfl⟩
  | installFullSnapshot ctx v snapshot =>
    obtain rfl := Option.some.inj he
    refine Passes.step (.afterEngine fun e' he' => ?_) h
    exact Engine.handleInstallFullSnapshot_keepsCandidate h hinv.engine now
      (hmsg.incoming _ rfl) hmsg.fromLeader (hmsg.fresh _ rfl) he'
  | installFullSnapshotResp ctx lastLogId v =>
    unfold Node.receive at he
    simp only [Option.ite_none_right_eq_some, Option.some.injEq] at he
    obtain ⟨-, rfl⟩ := he
    exact (handleInstallSnapshotResponse_passes h hinv now ctx lastLogId (hmsg.incoming _ rfl)
      (hmsg.fresh _ rfl)).step h
  | transferLeader dst V target lastLogId =>
    obtain rfl := Option.some.inj he
    exact handleTransferLeader_roleStep h (hp rfl) now V target lastLogId
  | initializeResp node error => exact absurd he (by simp [Node.receive])

theorem receiveClock_passes (h : n.engine.RoleInv) (hinv : n.VoteInv A G P)
    {msg : Message NID N D} (he : n.receiveClock msg = some n') : Passes n n' := by
  have hclock : ∀ ctx, Passes n (n.handleHeartbeatProgress ctx) := fun ctx =>
    withLeader_passes h hinv fun _ hl => Engine.tryUpdateLeaderClock_keepsVote hl _ _ _
  unfold Node.receiveClock at he
  repeat' split at he
  all_goals cases he
  all_goals exact hclock _

/-- Every event keeps the invariant of the roles. -/
theorem perform_roleStep [DecidableEq N] (h : n.engine.RoleInv) (hinv : n.VoteInv A G P)
    (henv : OwnVotes A n.id) {now : Nat} {ev : Event NID N D}
    (hmsg : ∀ msg, ev = .receive msg → Harmless A n msg)
    (hp : ev.mayElect = true → n.engine.state.PurgeInLog)
    (he : n.perform now ev = some n') : RoleStep n n' := by
  cases ev with
  | receive msg => exact receive_roleStep h hinv henv (hmsg msg rfl) hp he
  | receiveClock msg => exact (receiveClock_passes h hinv he).step h
  | runCommand => exact (runCommand_passes he).step h
  | runProgressDrivenCommand => exact (runProgressDrivenCommand_passes he).step h
  | sendSatisfiedOnLogIo => exact (sendSatisfiedOnLogIo_passes he).step h
  | sendSatisfiedOnSnapshot => exact (sendSatisfiedOnSnapshot_passes he).step h
  | flush => exact (flush_passes he).step h
  | workerLoop => exact (workerLoop_passes he).step h
  | localIo io =>
    simp only [Node.perform, Option.ite_none_right_eq_some, Option.some.injEq] at he
    obtain ⟨-, rfl⟩ := he
    exact (handleLocalIo_passes h hinv io).step h
  | stateMachineResult =>
    unfold Node.perform at he
    dsimp only at he
    split at he
    · cases he
    · rename_i r rest hdone
      obtain rfl := Option.some.inj he
      have hrest : Passes n { n with smDone := rest } := .outside rfl rfl
      exact (hrest.trans (handleStateMachineResult_passes _ r)).step h
  | elect =>
    obtain rfl := Option.some.inj he
    exact .withEngine (Engine.doElect_roleStep h (hp rfl) now false)
  | preElect =>
    obtain rfl := Option.some.inj he
    exact .withEngine (Engine.preElect_roleStep h (hp rfl) now)
  | triggerSnapshot =>
    obtain rfl := Option.some.inj he
    refine Passes.step (.withEngine ?_) h
    unfold Engine.triggerSnapshot
    split <;> exact .of_same rfl rfl rfl rfl rfl rfl
  | purgeLog index =>
    obtain rfl := Option.some.inj he
    refine Passes.step (.afterEngine fun e' he' => ?_) h
    exact Engine.triggerPurgeLog_keepsCandidate he'
  | triggerTransferLeader target =>
    obtain rfl := Option.some.inj he
    exact (withLeader_passes h hinv fun _ hl =>
      Engine.transferLeader_keepsVote hl target).step h
  | refreshServerState =>
    obtain rfl := Option.some.inj he
    refine Passes.step (.withEngine ?_) h
    exact Engine.refreshServerState_keepsCandidate h hinv.engine now
  | initiateReplication =>
    obtain rfl := Option.some.inj he
    exact (withLeader_passes h hinv fun _ hl => Engine.initiateReplication_keepsVote hl).step h
  | replicationError target streamId inflightId =>
    obtain ⟨l, hl, rfl⟩ := Option.map_eq_some_iff.1 he
    refine Passes.step (.afterEngine fun e' he' => ?_) h
    exact keepsCandidate_of_leader h hinv hl (Engine.updateProgress_keepsVote hl he')
  | write data =>
    obtain rfl := Option.some.inj he
    exact (writeEntries_passes h hinv now _).step h
  | changeMembership changes retain =>
    obtain rfl := Option.some.inj he
    exact (changeMembership_passes h hinv now changes retain).step h
  | appendMembership membership =>
    obtain rfl := Option.some.inj he
    exact (appendMembership_passes h hinv now membership).step h
  | sendAppendEntries target prev count inflightId =>
    exact (sendOnStream_passes (sendAppendEntries_sends he)).step h
  | sendHeartbeat target => exact (sendOnStream_passes (sendHeartbeat_sends he)).step h
  | sendSnapshot target inflightId =>
    exact (sendOnStream_passes (sendSnapshot_sends he)).step h
  | restart keep appliedKeep =>
    obtain rfl := Option.some.inj he
    exact restart_roleStep h now keep appliedKeep

theorem vote_of_wins {msg : Message NID N D} {c : Candidate NID N} (hw : n.Wins c msg) :
    c.vote ∈ msg.vote? := by
  rcases msg with _ | ⟨_ | _, _, _, _, _⟩ | _ | _ | _ | _ | _ | _
  · exact hw.elim
  · exact congrArg some hw.2.vote
  all_goals exact hw.elim

/-- The candidate that has won is gone. -/
theorem candidate_none_of_wins (h : n.engine.RoleInv) (hinv : n.VoteInv A G P) {now : Nat}
    {msg : Message NID N D} {c : Candidate NID N} (hw : n.Wins c msg)
    (he : n.receive now msg = some n') : n'.engine.candidate = none := by
  rcases msg with _ | ⟨_ | _, src, dst, candidateVote, resp⟩ | _ | _ | _ | _ | _ | _
  · exact hw.elim
  · obtain ⟨rfl, hw⟩ := hw
    obtain rfl := Option.some.inj he
    obtain ⟨e', l, he', -, -, -, hnone, -⟩ := Engine.handleVoteResp_of_wins h hinv.engine now hw
    unfold handleVoteResponse
    rw [if_neg Bool.false_ne_true, if_neg Bool.false_ne_true, if_pos (by rw [hw.candidate]; rfl),
      he']
    exact hnone
  all_goals exact hw.elim

end Node

/-! ## Forming a cluster -/

namespace Engine

variable {e : Engine NID N D}
variable {A : Vote NID → Prop} {G : NID → LeaderId NID → Prop} {P : Membership NID N → Prop}
variable {F : EngineConfig NID × PendingResponds NID} {s : Vote NID}

theorem PurgeInLog.appendFirst (h : e.state.PurgeInLog) (hlast : e.state.lastLogId = none)
    (m : Membership NID N) : (e.appendFirst m).state.PurgeInLog := by
  have hnil : e.state.logIds.ids = [] ∧ e.state.logIds.purged = none := by
    have hor : e.state.logIds.ids.getLast?.or e.state.logIds.purged = none := hlast
    rw [Option.or_eq_none_iff, List.getLast?_eq_none_iff] at hor
    exact hor
  have hfirst : e.state.logIds.firstIndex = 0 := by
    unfold LogIds.firstIndex
    rw [hnil.2]
    rfl
  constructor
  · intro i x hx
    show x.index = e.state.logIds.firstIndex + i
    have hx : (e.state.logIds.ids ++ [_])[i]? = some x := hx
    rw [hnil.1, List.nil_append, List.getElem?_singleton] at hx
    split at hx
    · rename_i hi
      obtain rfl := Option.some.inj hx
      rw [hfirst, hi]
    · cases hx
  · intro u hu
    rcases h.scheduled u hu with hle | hhas
    · exact Or.inl hle
    · exact Or.inr (hhas.extend _)

end Engine

namespace Node

variable {n n' : Node NID N D}
variable {A : Vote NID → Prop} {G : NID → LeaderId NID → Prop} {P : Membership NID N → Prop}

theorem handleInitialize_roleStep (h : n.engine.RoleInv) (hinv : n.VoteInv A G P)
    (hA : ∀ V, A ⟨V, true⟩ → V.term ≠ 0) (hp : n.engine.state.PurgeInLog) (now : Nat)
    (memberNodes : NodeMap NID N) : RoleStep n (n.handleInitialize now memberNodes) := by
  rcases handleInitialize_cases hinv (fun c hc => (h c hc).term) hA now memberNodes with
    ⟨err, heq⟩ | ⟨hcand, hlast, w, heq⟩
  · rw [heq]
    refine Passes.step (.withEngine ?_) h
    exact .of_same rfl rfl rfl rfl rfl rfl
  · rw [heq]
    have hroles : ((n.engine.appendFirst (.ofNodes memberNodes)).pushCommand
        (.respond w (.initialized none))).RoleInv := fun c hc => by cases hcand.symm.trans hc
    have hpurge := Engine.PurgeInLog.appendFirst hp hlast (.ofNodes memberNodes)
    obtain ⟨hinv', horigin⟩ := Engine.doElect_roleStep hroles hpurge now false
    exact .withEngine ⟨hinv', horigin⟩

end Node

/-! ## The cluster -/

namespace Cluster

variable {mode : LeaderIdMode} {S : LeaderId NID → Prop} {c c' : Cluster NID N D}

/-- The votes that the node `k` may adopt, where `S` are the leader ids that have won. -/
def Adopts (mode : LeaderIdMode) (S : LeaderId NID → Prop) (c : Cluster NID N D) (k : NID)
    (v : Vote NID) : Prop :=
  (v.committed = true → S v.leaderId) ∧ (v.leaderId.nodeId ≠ k → c.Issued mode v)

theorem adopts_ownVotes (mode : LeaderIdMode) (S : LeaderId NID → Prop) (c : Cluster NID N D)
    (k : NID) : OwnVotes (c.Adopts mode S k) k :=
  ⟨fun _ hl => ⟨nofun, fun hne => absurd hl hne⟩, fun _ hv => ⟨nofun, hv.2⟩⟩

/-- The votes of a cluster in which the leader ids in `S` have won. -/
structure Voting (mode : LeaderIdMode) (S : LeaderId NID → Prop) (c : Cluster NID N D) :
    Prop where
  ids : ∀ k, (c k).id = k
  modes : ∀ k, (c k).engine.config.mode = mode
  votes : ∀ k, (c k).VoteInv (c.Adopts mode S k) (fun _ _ => True) (fun _ => True)

namespace Voting

theorem issuedOut (h : c.Voting mode S) {src : NID} {msg : Message NID N D}
    (hmsg : msg ∈ (c src).sent) {v : Vote NID} (hv : v ∈ msg.vote?) : c.Issued mode v :=
  issued_of_out (h.ids src) (h.modes src) (h.votes src) (fun _ hadopts => hadopts.2)
    (mem_out_of_sent hmsg) hv

theorem incoming (h : c.Voting mode S) {src : NID} {msg : Message NID N D}
    (hmsg : msg ∈ (c src).sent) {v : Vote NID} (hv : v ∈ msg.vote?) (k : NID) :
    (c k).engine.Incoming (c.Adopts mode S k) (c k).savedVote v := by
  have hissued := h.issuedOut hmsg hv
  have hcom := ((h.votes src).out.votes msg (mem_out_of_sent hmsg) v hv).1.1
  exact hissued.incoming (h.ids k) (h.modes k) ⟨hcom, fun _ => hissued⟩

theorem ownVotes (h : c.Voting mode S) (k : NID) : OwnVotes (c.Adopts mode S k) (c k).id := by
  rw [h.ids]
  exact adopts_ownVotes mode S c k

end Voting

/-- What holds of the node that moves and of the others holds of all. -/
theorem forall_update {Q : NID → Node NID N D → Prop} {k : NID} {n' : Node NID N D} (hk : Q k n')
    (hne : ∀ j, j ≠ k → Q j (c j)) : ∀ j, Q j (Function.update c k n' j) := by
  intro j
  by_cases hj : j = k
  · subst hj
    rw [Function.update_self]
    exact hk
  · rw [Function.update_of_ne hj]
    exact hne j hj

/-- One node moves on, and more leader ids may have won. -/
theorem Voting.move (h : c.Voting mode S) {S' : LeaderId NID → Prop} {k : NID}
    {n' : Node NID N D} (hS : ∀ l, S l → S' l)
    (hv : (c k).VoteStep (c.Adopts mode S' k) (fun _ _ => True) (fun _ => True) n') :
    Voting mode S' (Function.update c k n') ∧
      ∀ v, c.Issued mode v → Issued mode (Function.update c k n') v := by
  have hadv := Advances.update (h.ids k) (h.modes k) hv.2
  have hissued : ∀ v, c.Issued mode v → Issued mode (Function.update c k n') v := fun _ hv =>
    hv.trans (hadv _).2
  refine ⟨⟨?_, ?_, ?_⟩, hissued⟩
  · exact forall_update (Q := fun j n => n.id = j) (hv.2.id.trans (h.ids k)) fun j _ => h.ids j
  · refine forall_update (Q := fun _ n => n.engine.config.mode = mode) ?_ fun j _ => h.modes j
    rw [hv.2.config, h.modes]
  · refine forall_update (Q := fun j n => n.VoteInv (Adopts mode S' (Function.update c k n') j)
      (fun _ _ => True) (fun _ => True)) ?_ ?_
    · exact hv.1.mono (fun v hA => ⟨hA.1, fun ho => hissued v (hA.2 ho)⟩) fun _ _ _ => trivial
    · intro j _
      exact (h.votes j).mono (fun v hA => ⟨fun hc => hS _ (hA.1 hc), fun ho =>
        hissued v (hA.2 ho)⟩) fun _ _ _ => trivial

/-- An event at one node. If it makes its candidate the leader, the leader id has won. -/
theorem Voting.perform [DecidableEq N] (h : c.Voting mode S) {S' : LeaderId NID → Prop} {k : NID}
    {now : Nat} {ev : Event NID N D} {n' : Node NID N D} (hS : ∀ l, S l → S' l)
    (hmsg : ∀ msg, ev = .receive msg → ∃ src, msg ∈ (c src).sent)
    (hwin : ∀ msg cand, ev = .receive msg → (c k).Wins cand msg → S' cand.vote.leaderId)
    (hn : (c k).perform now ev = some n') :
    (c k).VoteStep (c.Adopts mode S' k) (fun _ _ => True) (fun _ => True) n' := by
  have hinv' : (c k).VoteInv (c.Adopts mode S' k) (fun _ _ => True) (fun _ => True) :=
    (h.votes k).mono (fun v hv => ⟨fun hc => hS _ (hv.1 hc), hv.2⟩) fun _ _ hg => hg
  refine hinv'.perform ?_ trivial ?_ ?_ hn
  · rw [h.ids]
    exact adopts_ownVotes mode S' c k
  · intro msg hrecv
    obtain ⟨src, hsent⟩ := hmsg msg hrecv
    refine ⟨fun v hv => ?_, fun _ _ _ => trivial⟩
    obtain ⟨hA, hle⟩ := h.incoming hsent hv k
    exact ⟨⟨fun hc => hS _ (hA.1 hc), hA.2⟩, hle⟩
  · intro msg hrecv cand hw _
    have hcand := (h.votes k).engine.candidate cand (Node.candidate_of_wins hw)
    exact ⟨fun _ => hwin msg cand hrecv hw, fun hne => absurd (hcand.1.own.trans (h.ids k)) hne⟩

/-- The invariant of the roles in a cluster, where `S` are the leader ids that have won: a
    committed vote is of a leader id in `S`, and no candidate is. -/
structure Settled (mode : LeaderIdMode) (S : LeaderId NID → Prop) (c : Cluster NID N D) :
    Prop where
  ids : ∀ k, (c k).id = k
  modes : ∀ k, (c k).engine.config.mode = mode
  votes : ∀ k, (c k).VoteInv (c.Adopts mode S k) (fun _ _ => True) (fun _ => True)
  roles : ∀ k, (c k).engine.RoleInv
  sent : ∀ k, ∀ msg ∈ (c k).sent, msg.FromLeader
  issued : ∀ l, S l → c.Issued mode ⟨l, true⟩
  term : ∀ l, S l → l.term ≠ 0
  candidate : ∀ k cand, (c k).engine.candidate = some cand → ¬ S cand.vote.leaderId

namespace Settled

theorem voting (h : c.Settled mode S) : c.Voting mode S := ⟨h.ids, h.modes, h.votes⟩

theorem harmless (h : c.Settled mode S) {src : NID} {msg : Message NID N D}
    (hmsg : msg ∈ (c src).sent) (k : NID) : (c k).Harmless (c.Adopts mode S k) msg := by
  refine ⟨fun v hv => h.voting.incoming hmsg hv k, ?_, h.sent src msg hmsg⟩
  rintro v hv cand hcand rfl
  exact h.candidate k cand hcand ((h.voting.incoming hmsg hv k).1.1 rfl)

/-- The terms of the elections that a node has won are not above its current one. -/
theorem term_le (h : c.Settled mode S) {l : LeaderId NID} (hl : S l) :
    l.term ≤ (c l.nodeId).engine.state.voteRef.leaderId.term := by
  have hissued : Vote.Le mode ⟨l, false⟩ ((c l.nodeId).savedVote.floor l.nodeId) := h.issued l hl
  have hrun := (h.votes l.nodeId).engine.floor_le_run
  have hid : (c l.nodeId).engine.config.id = l.nodeId := h.ids l.nodeId
  rw [hid, h.modes] at hrun
  have hle := (hissued.trans hrun).rank
  have hsame : (runOps voteStep (c l.nodeId).savedVote
      (c l.nodeId).engine.output.commands).leaderId =
      (c l.nodeId).engine.state.voteRef.leaderId := by
    rcases (h.votes l.nodeId).engine.memory with hm | hm
    · rw [hm]
    · rw [hm, Vote.floor_leaderId]
  by_contra hlt
  refine absurd (Vote.rank_lt_iff.2 (Or.inl (CommittedLeaderId.lt_iff.2 (Or.inl ?_))))
    (not_lt.2 hle)
  rw [Vote.floor_leaderId, hsame, LeaderId.toCommitted_term, LeaderId.toCommitted_term]
  exact not_le.1 hlt

/-- One node moves on, and may win its election. -/
theorem move (h : c.Settled mode S) {S' : LeaderId NID → Prop} {k : NID} {n' : Node NID N D}
    (hS : ∀ l, S l → S' l)
    (hS' : ∀ l, S' l → S l ∨ l.nodeId = k ∧ n'.engine.candidate = none ∧ l.term ≠ 0 ∧
      c.Issued mode ⟨l, true⟩)
    (hv : (c k).VoteStep (c.Adopts mode S' k) (fun _ _ => True) (fun _ => True) n')
    (hr : (c k).RoleStep n') : Settled mode S' (Function.update c k n') := by
  obtain ⟨hvoting, hissued⟩ := h.voting.move hS hv
  refine ⟨hvoting.ids, hvoting.modes, hvoting.votes, ?_, ?_, ?_, ?_, ?_⟩
  · exact forall_update (Q := fun _ n => n.engine.RoleInv) hr.engine.inv fun j _ => h.roles j
  · refine forall_update (Q := fun _ n => ∀ msg ∈ n.sent, msg.FromLeader) ?_ fun j _ => h.sent j
    intro msg hmsg
    exact (hr.sent msg hmsg).elim (h.sent k msg) fun hnew => hnew
  · intro l hl
    exact hissued _ ((hS' l hl).elim (h.issued l) fun hwon => hwon.2.2.2)
  · intro l hl
    exact (hS' l hl).elim (h.term l) fun hwon => hwon.2.2.1
  · refine forall_update (Q := fun _ n => ∀ cand, n.engine.candidate = some cand →
      ¬ S' cand.vote.leaderId) ?_ ?_
    · intro cand hcand hwon
      rcases hS' _ hwon with hold | ⟨-, hnone, -⟩
      · rcases hr.engine.origin cand hcand with ⟨before, hbefore, hvote⟩ | hnext
        · rw [hvote] at hold
          exact h.candidate k before hbefore hold
        · -- the term of a new candidate is above all that this node has won
          have hk : (c k).engine.config.id = k := h.ids k
          rw [hnext, hk] at hold
          have hle := h.term_le hold
          dsimp only at hle
          omega
      · cases hnone.symm.trans hcand
    · intro j hj cand hcand hwon
      rcases hS' _ hwon with hold | ⟨hnode, -⟩
      · exact h.candidate j cand hcand hold
      · have hown := ((h.votes j).engine.candidate cand hcand).1.own
        rw [hnode] at hown
        exact hj (((h.ids j).symm.trans hown.symm))

theorem step [DecidableEq N] (h : c.Settled mode S) {l : Label NID N D}
    (hp : (c.eventOf l.node l.action).any Event.mayElect = true →
      (c l.node).engine.state.PurgeInLog) (hs : c.step l = some c') :
    ∃ S', c'.Settled mode S' := by
  obtain ⟨ev, n', hn, rfl, hev⟩ := step_cases hs
  rw [hev] at hp
  have hn := Node.perform_of_step hn
  have hmsg : ∀ msg, ev = .receive msg → ∃ src, msg ∈ (c src).sent := by
    rintro msg rfl
    obtain ⟨src, hsent, -⟩ := eventOf_receive hev
    exact ⟨src, hsent⟩
  have hr : (c l.node).RoleStep n' := by
    refine Node.perform_roleStep (h.roles l.node) (h.votes l.node) (h.voting.ownVotes l.node) ?_ hp
      hn
    intro msg hrecv
    obtain ⟨src, hsent⟩ := hmsg msg hrecv
    exact h.harmless hsent l.node
  -- the leader id of this step, if it makes its candidate the leader, joins those that have won
  obtain ⟨S', hS'⟩ : ∃ S' : LeaderId NID → Prop, S' = fun V => S V ∨ ∃ msg cand,
      ev = .receive msg ∧ (c l.node).Wins cand msg ∧ V = cand.vote.leaderId := ⟨_, rfl⟩
  have hmono : ∀ V, S V → S' V := fun V hV => by
    rw [hS']
    exact Or.inl hV
  have hv := h.voting.perform hmono hmsg (fun msg cand hrecv hw => by
    rw [hS']
    exact Or.inr ⟨msg, cand, hrecv, hw, rfl⟩) hn
  refine ⟨S', h.move hmono ?_ hv hr⟩
  intro V hV
  rw [hS'] at hV
  refine hV.imp (fun hold => hold) ?_
  rintro ⟨msg, cand, rfl, hw, rfl⟩
  have hcand := Node.candidate_of_wins hw
  obtain ⟨src, hsent⟩ := hmsg msg rfl
  refine ⟨((h.votes l.node).engine.candidate cand hcand).1.own.trans (h.ids l.node),
    Node.candidate_none_of_wins (h.roles l.node) (h.votes l.node) hw hn,
    (h.roles l.node cand hcand).term, ?_⟩
  exact h.voting.issuedOut hsent (v := cand.vote) (Node.vote_of_wins hw)

theorem handleInitialize (h : c.Settled mode S) {k : NID} (hp : (c k).engine.state.PurgeInLog)
    (now : Nat) (memberNodes : NodeMap NID N) :
    Settled mode S (Function.update c k ((c k).handleInitialize now memberNodes)) := by
  have hterm : ∀ V, c.Adopts mode S k ⟨V, true⟩ → V.term ≠ 0 := fun V hV => h.term V (hV.1 rfl)
  refine h.move (fun _ hl => hl) (fun _ hl => Or.inl hl) ?_ ?_
  · exact (h.votes k).handleInitialize (fun cand hc => (h.roles k cand hc).term)
      (h.voting.ownVotes k) (fun _ => trivial) hterm now memberNodes
  · exact Node.handleInitialize_roleStep (h.roles k) (h.votes k) hterm hp now memberNodes

end Settled

/-! ### Runs -/

/-- What happens in a cluster: a step of a run, or a node is asked to form a cluster. -/
inductive Move (NID N D : Type) where
  | label (l : Label NID N D)
  | form (node : NID) (now : Nat) (memberNodes : NodeMap NID N)

/-- The cluster after a move; `none` means that it cannot happen. -/
def makeMove [DecidableEq N] (c : Cluster NID N D) : Move NID N D → Option (Cluster NID N D)
  | .label l => c.step l
  | .form node now memberNodes =>
    if (c node).stopped then none
    else some (Function.update c node ((c node).handleInitialize now memberNodes))

/-- The node at which a move may start an election. -/
def electsAt (c : Cluster NID N D) : Move NID N D → Option NID
  | .label l => if (c.eventOf l.node l.action).any Event.mayElect then some l.node else none
  | .form node _ _ => some node

/-- Where a move may start an election, what is scheduled to be purged is in the log. -/
def ElectsInLog (c : Cluster NID N D) (m : Move NID N D) : Prop :=
  ∀ k ∈ c.electsAt m, (c k).engine.state.PurgeInLog

instance (c : Cluster NID N D) (m : Move NID N D) : Decidable (c.ElectsInLog m) :=
  inferInstanceAs (Decidable (∀ k ∈ c.electsAt m, (c k).engine.state.PurgeInLog))

theorem Unvoted.settled (h : c.Unvoted mode) : c.Settled mode fun _ => False := by
  have hk : ∀ k, (c k).id = k ∧ (c k).engine.config.mode = mode ∧
      (c k).VoteInv (c.Adopts mode (fun _ => False) k) (fun _ _ => True) (fun _ => True) ∧
      (c k).engine.candidate = none ∧ (c k).sent = [] := by
    intro k
    obtain ⟨config, now, store, sm, rfl, hmode, hvote, hstart⟩ := h k
    have hown := adopts_ownVotes mode (fun _ => False) c config.id
    obtain ⟨hinv, hconfig, hsent, -⟩ := Node.start_voteInv (G := fun _ _ => True)
      (P := fun _ => True) hown (by rw [hvote]; exact hown.own _ rfl)
      ⟨by simp, by simp, by simp⟩ hstart
    exact ⟨by rw [Node.id, hconfig], by rw [hconfig, hmode], hinv,
      (Node.start_candidate hstart).1, hsent⟩
  refine ⟨fun k => (hk k).1, fun k => (hk k).2.1, fun k => (hk k).2.2.1, ?_, ?_,
    fun _ hS => hS.elim, fun _ hS => hS.elim, fun _ _ _ => id⟩
  · intro k cand hcand
    cases (hk k).2.2.2.1.symm.trans hcand
  · intro k msg hmsg
    rw [(hk k).2.2.2.2] at hmsg
    cases hmsg

theorem Settled.makeMove [DecidableEq N] (h : c.Settled mode S) {m : Move NID N D}
    (hm : c.ElectsInLog m) (hs : c.makeMove m = some c') : ∃ S', c'.Settled mode S' := by
  cases m with
  | label l =>
    exact h.step (fun hmay => hm l.node (if_pos hmay)) hs
  | form node now memberNodes =>
    unfold Cluster.makeMove at hs
    dsimp only at hs
    split at hs
    · cases hs
    · obtain rfl := Option.some.inj hs
      exact ⟨S, h.handleInitialize (hm node rfl) now memberNodes⟩

end Cluster

/-- The roles of an engine agree with its vote and its log, and a candidate that gets its quorum
    becomes the leader: the committed vote is taken over, and the leader is there for the blank
    entry. -/
structure Engine.RolesAgree (e : Engine NID N D) : Prop where
  vote : ∀ c, e.candidate = some c → c.vote = e.state.voteRef
  lastLogId : ∀ c, e.candidate = some c → c.lastLogId = e.state.lastLogId
  single : e.candidate = none ∨ e.leader = none
  leader : ∀ l, e.leader = some l → l.committedVote = e.state.voteRef.leaderId
  establishes : ∀ c now target resp, e.Wins target resp c →
    ∃ e' l, e.handleVoteResp now target resp = some e' ∧ e'.leader = some l ∧
      l.committedVote = c.vote.leaderId ∧ e'.state.voteRef = ⟨c.vote.leaderId, true⟩

theorem Engine.VoteInv.rolesAgree {A : Vote NID → Prop} {G : NID → LeaderId NID → Prop}
    {P : Membership NID N → Prop} {F : EngineConfig NID × PendingResponds NID} {s : Vote NID}
    {e : Engine NID N D} (hinv : e.VoteInv A G P F s) (h : e.RoleInv) : e.RolesAgree := by
  refine ⟨fun c hc => (h c hc).vote, fun c hc => (h c hc).lastLogId, ?_, ?_, ?_⟩
  · cases hl : e.leader with
    | none => exact Or.inr rfl
    | some l => exact Or.inl (h.candidate_none hinv hl)
  · intro l hl
    rw [(hinv.leader _ (Engine.leaderVote_eq hl)).1]
  · intro c now target resp hw
    obtain ⟨e', l, he', hl, hV, hv, -⟩ := Engine.handleVoteResp_of_wins h hinv now hw
    exact ⟨e', l, he', hl, hV, hv⟩

namespace Cluster

/-- In every run in which elections start only at nodes that have in their log what they are going
    to purge, the roles of every node agree with its vote and its log. -/
theorem roles_of_run [DecidableEq N] {mode : LeaderIdMode} {c0 c : Cluster NID N D}
    {ms : List (Move NID N D)} (hinit : c0.Unvoted mode)
    (hfit : FitAll makeMove ElectsInLog c0 ms) (hrun : runPartial makeMove c0 ms = some c)
    (k : NID) : (c k).engine.RolesAgree := by
  obtain ⟨S, hS⟩ : ∃ S, c.Settled mode S := by
    refine hfit.invariant (P := fun c => ∃ S, c.Settled mode S) ⟨_, hinit.settled⟩ ?_ hrun
    rintro c1 m c2 hm ⟨S, hS⟩ hstep
    exact hS.makeMove hm hstep
  exact (hS.votes k).engine.rolesAgree (hS.roles k)

/-- Three nodes whose storage is empty. -/
def Three.blank : Cluster (Fin 3) Unit Nat := fun k =>
  (Node.start (Three.config true k) 0 [] 0 ⟨none, none, none, [], []⟩ ⟨[], none⟩).get
    (by revert k; decide +kernel)

/-- Node 0 forms a cluster of three, and is a candidate then. -/
theorem roles_of_run_formed : ∃ c cand,
    runPartial makeMove Three.blank [.form 0 0 Three.membership.nodes] = some c ∧
      (c 0).engine.candidate = some cand ∧ cand.vote = (c 0).engine.state.voteRef ∧
      cand.lastLogId = some ⟨⟨0, none⟩, 0⟩ := by
  have hinit : Three.blank.Unvoted .std := fun k =>
    ⟨Three.config true k, 0, _, _, rfl, rfl, rfl, (Option.some_get _).symm⟩
  obtain ⟨c, hc⟩ : ∃ c, c = (runPartial makeMove Three.blank
      [.form 0 0 Three.membership.nodes]).get (by decide +kernel) := ⟨_, rfl⟩
  have hrun : runPartial makeMove Three.blank [.form 0 0 Three.membership.nodes] = some c := by
    rw [hc]
    exact (Option.some_get _).symm
  obtain ⟨hvote, hlast, -⟩ := roles_of_run hinit (by decide +kernel) hrun 0
  have hsome : (c 0).engine.candidate.isSome = true ∧
      (c 0).engine.state.lastLogId = some ⟨⟨0, none⟩, 0⟩ := by
    rw [hc]
    decide +kernel
  obtain ⟨cand, hcand⟩ := Option.isSome_iff_exists.1 hsome.1
  exact ⟨c, cand, hrun, hcand, hvote cand hcand, (hlast cand hcand).trans hsome.2⟩

end Cluster

/-! ## A purge under a candidate

From a joint membership, one leader goes to the old voters and another one to the new ones, and each
commits on its own. Node 2 has committed and applied its entries up to index 7 and has scheduled a
purge up to index 6 when it has to take over the log of node 0, which ends at index 5. A snapshot of
what it had applied is still being built. It is done while node 2 is a candidate, and carries out
the purge. -/

namespace TwoHistories

open Three

def logId (term index : Nat) : LogId (Fin 3) := ⟨⟨term, none⟩, index⟩

/-- Node `k` carries out `n` commands. -/
def commands (k : Fin 3) (n : Nat) : List (Label (Fin 3) Unit Nat) :=
  List.replicate n (event k .runCommand)

/-- The entries up to `io` are durable at node `k`. -/
def durable (k : Fin 3) (io : LogIOId (Fin 3)) : List (Label (Fin 3) Unit Nat) :=
  [event k .flush, event k (.localIo (.log io))]

/-- Node `k` carries out `n` commands, the log up to `io` is durable, and the answer is sent. -/
def answer (k : Fin 3) (n : Nat) (io : LogIOId (Fin 3)) : List (Label (Fin 3) Unit Nat) :=
  commands k n ++ durable k io ++ [event k .sendSatisfiedOnLogIo]

/-- Node `k`, which is a candidate, gets its own vote and, at the time `now`, the one of node 1. -/
def granted (k : Fin 3) (term self ask grant now : Nat) : List (Label (Fin 3) Unit Nat) :=
  [deliver k k self, ⟨1, now, .deliver k ask⟩] ++ commands 1 3 ++
    [event 1 (.localIo (.vote ⟨term, k⟩)), event 1 .sendSatisfiedOnLogIo, deliver k 1 grant] ++
    commands k 5

/-- Node 2 applies what it has committed. -/
def applied : List (Label (Fin 3) Unit Nat) :=
  [event 2 .runCommand, event 2 .runProgressDrivenCommand, event 2 .workerLoop,
    event 2 .stateMachineResult]

/-- Node 0 leads in term 1. With node 2 it commits entry 1, and entry 2 which is the joint
    membership of the three nodes and node 2 alone. -/
def firstTerm : List (Label (Fin 3) Unit Nat) :=
  election ++ commands 0 5 ++ durable 0 ⟨⟨1, 0⟩, some (logId 1 1)⟩ ++
    [event 0 (.sendAppendEntries 2 none 2 (some 2)), deliver 2 0 3] ++
    answer 2 4 ⟨⟨1, 0⟩, some (logId 1 1)⟩ ++
    [deliver 0 2 0, ⟨0, 0, .deliverClock 2 0⟩, event 0 .runCommand,
      event 0 (.changeMembership (.replaceAllVoters {2}) true)] ++
    commands 0 3 ++ durable 0 ⟨⟨1, 0⟩, some (logId 1 2)⟩ ++
    [event 0 (.sendAppendEntries 2 (some (logId 1 1)) 1 (some 3)), deliver 2 0 4] ++
    answer 2 3 ⟨⟨1, 0⟩, some (logId 1 2)⟩ ++ [deliver 0 2 1]

/-- Node 0 goes back to the three nodes, in an entry 3 that it keeps for now. -/
def back : List (Label (Fin 3) Unit Nat) :=
  [event 0 .runCommand, event 0 (.sendHeartbeat 2), deliver 2 0 5,
    event 0 (.changeMembership (.replaceAllVoters {0, 1, 2}) true)] ++ commands 0 2 ++
    [event 0 .flush]

/-- Node 2 leads in term 2, goes on to node 2 alone, and commits its entries 3 to 6 on its own. -/
def secondTerm : List (Label (Fin 3) Unit Nat) :=
  [event 2 .elect] ++ commands 2 4 ++ granted 2 2 3 5 3 0 ++
    [event 2 (.sendHeartbeat 1), deliver 1 2 6] ++ commands 1 3 ++
    [event 1 (.localIo (.log ⟨⟨2, 2⟩, none⟩)), event 1 .sendSatisfiedOnLogIo,
      ⟨2, 0, .deliverClock 1 4⟩, event 2 (.changeMembership (.replaceAllVoters {2}) true)] ++
    commands 2 2 ++ [event 2 .flush] ++ durable 2 ⟨⟨2, 2⟩, some (logId 2 4)⟩ ++
    [event 2 .runCommand, event 2 (.write [7, 7]), event 2 .runCommand] ++
    durable 2 ⟨⟨2, 2⟩, some (logId 2 6)⟩ ++ applied

/-- Node 2 has a snapshot up to entry 6 and a purge scheduled there, and builds the next snapshot,
    up to entry 7. -/
def snapshots : List (Label (Fin 3) Unit Nat) :=
  [event 2 .triggerSnapshot, event 2 .runCommand, event 2 .workerLoop, event 2 .stateMachineResult,
    event 2 (.purgeLog 6), event 2 (.write [7]), event 2 .runCommand] ++
    durable 2 ⟨⟨2, 2⟩, some (logId 2 7)⟩ ++ applied ++
    [event 2 .triggerSnapshot, event 2 .runCommand, event 2 .workerLoop]

/-- Node 0 leads in term 3, with node 1, and commits its log up to entry 4. -/
def thirdTerm : List (Label (Fin 3) Unit Nat) :=
  [event 0 (.sendHeartbeat 1), deliver 1 0 6] ++ commands 1 1 ++ [deliver 0 1 5] ++
    commands 0 2 ++ [event 0 .elect] ++ commands 0 3 ++ granted 0 3 7 8 7 100 ++
    durable 0 ⟨⟨3, 0⟩, some (logId 3 4)⟩ ++
    [event 0 (.sendAppendEntries 1 none 5 none), deliver 1 0 10] ++
    answer 1 4 ⟨⟨3, 0⟩, some (logId 3 4)⟩ ++
    [deliver 0 1 8, ⟨0, 0, .deliverClock 1 8⟩, event 0 .runCommand]

/-- Node 2 gets this log and one more entry, and starts an election. -/
def following : List (Label (Fin 3) Unit Nat) :=
  [event 0 (.sendAppendEntries 2 none 5 (some 5)), deliver 2 0 11, event 0 (.write [9]),
    event 0 .runCommand, event 0 .flush,
    event 0 (.sendAppendEntries 2 (some (logId 3 4)) 1 (some 5)), deliver 2 0 12, event 2 .elect]

/-- All of it, and the snapshot of node 2 is done. -/
def run : List (Label (Fin 3) Unit Nat) :=
  firstTerm ++ back ++ secondTerm ++ snapshots ++ thirdTerm ++ following ++
    [event 2 .stateMachineResult]

/-- Node 2 is a candidate for a log that ends at index 5, and its log ends at index 6. -/
theorem purge_under_candidate : ∃ c cand,
    Cluster.Unvoted .std (cluster false) ∧
      runPartial Cluster.makeMove (cluster false) (run.map .label) = some c ∧
      (c 2).engine.candidate = some cand ∧ cand.lastLogId = some (logId 3 5) ∧
      (c 2).engine.state.lastLogId = some (logId 2 6) ∧ ¬ (c 2).engine.RolesAgree := by
  have hinit : Cluster.Unvoted .std (cluster false) := fun k =>
    ⟨config false k, 0, _, _, rfl, rfl, rfl, (Option.some_get _).symm⟩
  have hrun : (runPartial Cluster.makeMove (cluster false) (run.map .label)).any (fun c =>
      decide ((c 2).engine.candidate.map Candidate.lastLogId = some (some (logId 3 5))) &&
        decide ((c 2).engine.state.lastLogId = some (logId 2 6))) = true := by
    decide +kernel
  obtain ⟨c, hc, hroles⟩ := (Option.any_eq_true _ _).1 hrun
  rw [Bool.and_eq_true, decide_eq_true_eq, decide_eq_true_eq] at hroles
  obtain ⟨cand, hcand, hlast⟩ := Option.map_eq_some_iff.1 hroles.1
  refine ⟨c, cand, hinit, hc, hcand, hlast, hroles.2, fun hagree => ?_⟩
  have heq := hagree.lastLogId cand hcand
  rw [hlast, hroles.2] at heq
  exact absurd heq (by decide)

end TwoHistories

end ZenohRaft
