/-
  Forming a cluster: `initialize` and the election that follows it.

  `Engine::initialize` puts a vote in memory that it does not save, and the election that follows
  replaces that vote at once. So for elections a node that is initialised is one that has appended
  its first entry and stands for election (`Node.handleInitialize_cases`).
-/
import ZenohRaft.Cluster
import ZenohRaft.Election.Node

namespace ZenohRaft

open Lib

variable {NID N D : Type} [LinearOrder NID]

namespace Engine

variable {e : Engine NID N D}
variable {A : Vote NID → Prop} {G : NID → LeaderId NID → Prop} {P : Membership NID N → Prop}
variable {F : EngineConfig NID × PendingResponds NID} {s : Vote NID}

theorem newVote_gt (mode : LeaderIdMode) {v : Vote NID} {t : Nat} (h : v.leaderId.term = t)
    (id : NID) : Vote.gt mode ⟨⟨t + 1, id⟩, false⟩ v = true := by
  refine Vote.gt_iff.2 (Vote.rank_lt_iff.2 (Or.inl (CommittedLeaderId.lt_iff.2 (Or.inl ?_))))
  simp [h]

theorem updateVote_of_gt {e' : Engine NID N D} {w : Leased (Vote NID)} {v : Vote NID} (now : Nat)
    (he : e' = { e with state := { e.state with vote := w } })
    (hgt : v.gt e.config.mode e.state.voteRef = true) (hgt' : v.gt e.config.mode w.data = true) :
    e'.updateVote now v = e.updateVote now v := by
  subst he
  have hadopt : ({ e with state := { e.state with vote := w } } : Engine NID N D).adoptVote now v =
      e.adoptVote now v := by
    unfold adoptVote
    rw [if_pos hgt, if_pos (by exact hgt')]
    rfl
  unfold updateVote
  rw [hadopt, if_pos (Vote.ge_iff.2 (Or.inr (Vote.gt_iff.1 hgt))),
    if_pos (by exact Vote.ge_iff.2 (Or.inr (Vote.gt_iff.1 hgt')))]

/-- An election reads nothing of the vote but its term. -/
theorem doElect_of_term {e' : Engine NID N D} {w : Leased (Vote NID)}
    (he : e' = { e with state := { e.state with vote := w } }) (hl : e.leader = none)
    (hterm : w.data.leaderId.term = e.state.voteRef.leaderId.term) (now : Nat) (transfer : Bool) :
    e'.doElect now transfer = e.doElect now transfer := by
  have hgt := newVote_gt e.config.mode (v := e.state.voteRef) rfl e.config.id
  have hgt' := newVote_gt e.config.mode hterm e.config.id
  subst he
  unfold doElect
  dsimp only
  rw [hl, RaftState.voteRef, hterm]
  simp only [Option.isSome_none, Bool.false_eq_true, if_false]
  congr 2
  exact updateVote_of_gt now rfl hgt hgt'

/-- What `initialize` does beside setting the vote. -/
def appendFirst (e : Engine NID N D) (m : Membership NID N) : Engine NID N D :=
  let leaderId : LeaderId NID := ⟨0, e.config.id⟩
  let first : Entry NID N D := ⟨⟨leaderId.toCommitted e.config.mode, 0⟩, .membership m⟩
  { e with state := { e.state with
      logIds := e.state.logIds.extend [first.logId]
      membershipState :=
        (lastTwoMemberships [first]).foldl MembershipState.append e.state.membershipState }
    }.pushCommand (.appendEntries leaderId [first])

omit [LinearOrder NID] in
theorem appendFirst_keepsVote (e : Engine NID N D) (m : Membership NID N) :
    KeepsVote e (e.appendFirst m) :=
  .ofStatePush _ (by rfl) (by trivial)

/-- A node that can be initialised is neither leader nor candidate, and its log is empty. -/
theorem blank_of_checkInitialize (hinv : VoteInv A G P F s e)
    (hcand : ∀ c, e.candidate = some c → c.vote.leaderId.term ≠ 0)
    (hA : ∀ V, A ⟨V, true⟩ → V.term ≠ 0) {m : Membership NID N} (hm : e.checkInitialize m = none) :
    e.leader = none ∧ e.candidate = none ∧ e.state.lastLogId = none ∧
      e.state.voteRef.leaderId.term = 0 := by
  have hinit : e.state.lastLogId = none ∧ e.state.voteRef.leaderId.term = 0 := by
    unfold checkInitialize RaftState.isInitialized at hm
    split at hm
    · cases hm
    · rename_i hnot
      simpa using hnot
  refine ⟨?_, ?_, hinit⟩
  · cases hl : e.leader with
    | none => rfl
    | some l =>
      obtain ⟨hv, -⟩ := hinv.leader _ (leaderVote_eq hl)
      have hadmitted := hinv.admitted
      rw [hv] at hadmitted
      have hterm := hinit.2
      rw [hv] at hterm
      exact absurd hterm (hA _ hadmitted)
  · cases hc : e.candidate with
    | none => rfl
    | some c =>
      have hterm := hcand c hc
      rw [(hinv.candidate c hc).2] at hterm
      exact absurd hinit.2 hterm

end Engine

namespace Node

variable {n n' : Node NID N D}
variable {A : Vote NID → Prop} {G : NID → LeaderId NID → Prop} {P : Membership NID N → Prop}

/-- What `handle_initialize` comes to: a respond, or the first entry and an election. -/
theorem handleInitialize_cases (hinv : n.VoteInv A G P)
    (hcand : ∀ c, n.engine.candidate = some c → c.vote.leaderId.term ≠ 0)
    (hA : ∀ V, A ⟨V, true⟩ → V.term ≠ 0) (now : Nat) (memberNodes : NodeMap NID N) :
    (∃ err, n.handleInitialize now memberNodes =
      n.withEngine (n.engine.pushCommand (.respond none (.initialized err)))) ∨
    n.engine.candidate = none ∧ n.engine.state.lastLogId = none ∧
      ∃ w, n.handleInitialize now memberNodes = n.withEngine
        (((n.engine.appendFirst (.ofNodes memberNodes)).pushCommand
          (.respond w (.initialized none))).doElect now false) := by
  unfold handleInitialize Engine.initializeNode
  cases hcheck : n.engine.checkInitialize (.ofNodes memberNodes) with
  | some err => exact Or.inl ⟨some err, rfl⟩
  | none =>
    obtain ⟨hl, hcand, hlast, hterm⟩ :=
      Engine.blank_of_checkInitialize hinv.engine hcand hA hcheck
    refine Or.inr ⟨hcand, hlast, n.engine.state.acceptedLogIo.map .ioFlushed, ?_⟩
    refine congrArg n.withEngine (Engine.doElect_of_term
      (w := n.engine.state.vote.update now 0 ⟨⟨0, n.engine.config.id⟩, true⟩) ?_ ?_ ?_ now false)
    · rfl
    · exact hl
    · exact hterm.symm

theorem VoteInv.handleInitialize (hinv : n.VoteInv A G P)
    (hcand : ∀ c, n.engine.candidate = some c → c.vote.leaderId.term ≠ 0) (henv : OwnVotes A n.id)
    (hP : ∀ m, P m) (hA : ∀ V, A ⟨V, true⟩ → V.term ≠ 0) (now : Nat)
    (memberNodes : NodeMap NID N) : VoteStep A G P n (n.handleInitialize now memberNodes) := by
  rcases handleInitialize_cases hinv hcand hA now memberNodes with ⟨err, heq⟩ | ⟨-, -, w, heq⟩
  · rw [heq]
    refine hinv.ofEngine (hinv.engine.pushRespond none ?_)
    exact nofun
  · rw [heq]
    have hfirst := hinv.engine.keeps (Engine.appendFirst_keepsVote n.engine (.ofNodes memberNodes))
    have hresp : Engine.VoteInv A G P n.engine.frame n.savedVote
        ((n.engine.appendFirst (.ofNodes memberNodes)).pushCommand
          (.respond w (.initialized none))) := hfirst.pushRespond w nofun
    exact hinv.ofEngine (hresp.doElect now henv (hP _) false)

end Node

/-- A cluster at the start: every node has started on a storage without a vote. -/
def Cluster.Unvoted (mode : LeaderIdMode) (c : Cluster NID N D) : Prop :=
  ∀ k, ∃ config now store sm, config.id = k ∧ config.mode = mode ∧ store.vote = none ∧
    Node.start config 0 [] now store sm = some (c k)

end ZenohRaft
