/-
  The votes that a node saves, in a cluster.

  Committed votes are of leaders (`Cluster.Orderly`). So if no two leaders are of one rank, the
  committed votes that a node may adopt are one for each rank, and the votes of every node rise.

  `Cluster.saved_votes_increase`: in every run in which no two nodes lead under one leader id or in
  one standard term, with or without leader restore, each vote that a node saves is greater than
  those it has saved before and greater than the stored one.
-/
import ZenohRaft.Election.Rising
import ZenohRaft.Lib.PartialRun

namespace ZenohRaft

open Lib

variable {NID N D : Type} [LinearOrder NID]

/-! ## The cluster -/

namespace Cluster

variable {mode : LeaderIdMode} {S : LeaderId NID → Prop} {c c' : Cluster NID N D} {k : NID}

/-- The invariant of a cluster in which the leader ids in `S` have won. -/
structure Orderly (mode : LeaderIdMode) (S : LeaderId NID → Prop) (c : Cluster NID N D) :
    Prop extends Voting mode S c where
  rising : ∀ k, (c k).Rising
  term : ∀ l, S l → l.term ≠ 0

/-- Leader ids of one rank are the same. -/
def OneLeaderPerRank (mode : LeaderIdMode) (S : LeaderId NID → Prop) : Prop :=
  ∀ l l', S l → S l' → l.toCommitted mode = l'.toCommitted mode → l = l'

/-- The vote that a move passes to `save_vote` at the node `k`. -/
def savesAt (k : NID) (c : Cluster NID N D) : Move NID N D → Option (Vote NID)
  | .label l => if l.node = k then (c.eventOf l.node l.action).bind (c k).savesVote else none
  | .form _ _ _ => none

namespace Orderly

theorem move (h : c.Orderly mode S) {S' : LeaderId NID → Prop} {n' : Node NID N D}
    (hS : ∀ l, S l → S' l) (hterm : ∀ l, S' l → l.term ≠ 0)
    (hv : (c k).VoteStep (c.Adopts mode S' k) (fun _ _ => True) (fun _ => True) n')
    (hr : n'.Rising) : Orderly mode S' (Function.update c k n') :=
  ⟨(h.toVoting.move hS hv).1,
    forall_update (Q := fun _ n => n.Rising) hr fun j _ => h.rising j, hterm⟩

theorem onePerRank (h : c.Orderly mode S) (hu : OneLeaderPerRank mode S) (k : NID) :
    Engine.OnePerRank (c k).engine.config.mode (c.Adopts mode S k) := by
  intro l l' hl hl' hrank
  rw [h.modes] at hrank
  exact hu l l' (hl.1 rfl) (hl'.1 rfl) hrank

theorem heeds (h : c.Orderly mode S) {src : NID} {msg : Message NID N D}
    (hmsg : msg ∈ (c src).sent) (hdst : msg.dst = k) :
    (c k).Heeds (c.Adopts mode S k) msg :=
  ⟨fun _ hv => h.incoming hmsg hv k, (h.rising src).sent msg hmsg, hdst.trans (h.ids k).symm⟩

/-- A step of a run: what wins is a leader afterwards, and the stored votes are as saved. -/
theorem step [DecidableEq N] (h : c.Orderly mode S) (hu : OneLeaderPerRank mode S)
    {l : Label NID N D} (hs : c.step l = some c') :
    ∃ S', c'.Orderly mode S' ∧
      (∀ V, S' V → S V ∨ (c' l.node).engine.leaderVote = some V) ∧
      ∀ k, (c' k).store.vote = (c.savesAt k (.label l)).or (c k).store.vote := by
  obtain ⟨ev, n', hn, rfl, hev⟩ := step_cases hs
  have hn := Node.perform_of_step hn
  have hmsg : ∀ msg, ev = .receive msg → ∃ src, msg ∈ (c src).sent ∧ msg.dst = l.node := by
    rintro msg rfl
    exact eventOf_receive hev
  have hsent : ∀ msg, ev = .receive msg → ∃ src, msg ∈ (c src).sent := fun msg hrecv => by
    obtain ⟨src, hmem, -⟩ := hmsg msg hrecv
    exact ⟨src, hmem⟩
  have hheeds : ∀ msg, ev = .receive msg → (c l.node).Heeds (c.Adopts mode S l.node) msg := by
    intro msg hrecv
    obtain ⟨src, hmem, hdst⟩ := hmsg msg hrecv
    exact h.heeds hmem hdst
  have hone := h.onePerRank hu l.node
  have hown := h.toVoting.ownVotes l.node
  -- the leader id of this step, if it makes its candidate the leader, joins those that have won
  obtain ⟨S', hS'⟩ : ∃ S' : LeaderId NID → Prop, S' = fun V => S V ∨
      ∃ msg cand, ev = .receive msg ∧ (c l.node).Wins cand msg ∧ V = cand.vote.leaderId := ⟨_, rfl⟩
  have hmono : ∀ V, S V → S' V := fun V hV => by
    rw [hS']
    exact Or.inl hV
  have hv := h.toVoting.perform hmono hsent (fun msg cand hrecv hw => by
    rw [hS']
    exact Or.inr ⟨msg, cand, hrecv, hw, rfl⟩) hn
  obtain ⟨hrise, hvote⟩ :=
    (h.rising l.node).perform (h.votes l.node) hone hown hheeds hn hv.2.config
  have hstored : ∀ k, (Function.update c l.node n' k).store.vote =
      (c.savesAt k (.label l)).or (c k).store.vote := by
    intro k
    unfold savesAt
    dsimp only
    by_cases hk : k = l.node
    · subst hk
      rw [Function.update_self, hvote, if_pos rfl, hev]
      rfl
    · rw [Function.update_of_ne hk, if_neg (Ne.symm hk)]
      rfl
  by_cases hstop : n' = { c l.node with stopped := true }
  · -- an election that stops the node has no winner
    refine ⟨S, h.move (fun _ hl => hl) h.term ?_ hrise, fun V hV => Or.inl hV, hstored⟩
    rw [hstop]
    exact (h.votes l.node).outside rfl rfl (Or.inl rfl) rfl
  · have hleads : ∀ msg cand, ev = .receive msg → (c l.node).Wins cand msg →
        n'.engine.leaderVote = some cand.vote.leaderId := by
      rintro msg cand rfl hw
      obtain ⟨hsome, hcommitted⟩ := ((h.rising l.node).receive_of_wins (h.votes l.node) hone hown
        (hheeds msg rfl) hw hn).resolve_left hstop
      obtain ⟨ld, hl⟩ := Option.isSome_iff_exists.1 hsome
      have hled := Engine.leaderVote_eq hl
      have heq := (hv.1.engine.leader _ hled).1
      rw [hcommitted] at heq
      rw [hled, congrArg Vote.leaderId heq]
    refine ⟨S', h.move hmono ?_ hv hrise, ?_, hstored⟩
    · intro V hV
      rw [hS'] at hV
      rcases hV with hold | ⟨msg, cand, -, hw, rfl⟩
      · exact h.term V hold
      · exact ((h.rising l.node).engine.candidate cand (Node.candidate_of_wins hw)).2
    · intro V hV
      rw [hS'] at hV
      rw [Function.update_self]
      rcases hV with hold | ⟨msg, cand, hrecv, hw, rfl⟩
      · exact Or.inl hold
      · exact Or.inr (hleads msg cand hrecv hw)

theorem handleInitialize (h : c.Orderly mode S) (k : NID) (now : Nat)
    (memberNodes : NodeMap NID N) :
    Orderly mode S (Function.update c k ((c k).handleInitialize now memberNodes)) ∧
      ((c k).handleInitialize now memberNodes).store.vote = (c k).store.vote := by
  have hterm : ∀ V, c.Adopts mode S k ⟨V, true⟩ → V.term ≠ 0 := fun V hV => h.term V (hV.1 rfl)
  have hv := (h.votes k).handleInitialize
    (fun cand hc => ((h.rising k).engine.candidate cand hc).2) (h.toVoting.ownVotes k)
    (fun _ => trivial) hterm now memberNodes
  obtain ⟨hrise, hvote⟩ := (h.rising k).handleInitialize (h.votes k) hterm hv.2.config
  exact ⟨h.move (fun _ hl => hl) h.term hv hrise, hvote⟩

theorem makeMove [DecidableEq N] (h : c.Orderly mode S) (hu : OneLeaderPerRank mode S)
    {m : Move NID N D} (hs : c.makeMove m = some c') :
    ∃ S', c'.Orderly mode S' ∧
      (∀ V, S' V → S V ∨ ∃ j, (c' j).engine.leaderVote = some V) ∧
      ∀ k, (c' k).store.vote = (c.savesAt k m).or (c k).store.vote := by
  cases m with
  | label l =>
    obtain ⟨S', h', hwon, hstored⟩ := h.step hu hs
    exact ⟨S', h', fun V hV => (hwon V hV).imp (fun hold => hold) fun hl => ⟨l.node, hl⟩, hstored⟩
  | form node now memberNodes =>
    unfold Cluster.makeMove at hs
    dsimp only at hs
    split at hs
    · cases hs
    · obtain rfl := Option.some.inj hs
      obtain ⟨h', hvote⟩ := h.handleInitialize node now memberNodes
      refine ⟨S, h', fun V hV => Or.inl hV, ?_⟩
      exact forall_update (Q := fun j n => n.store.vote = (c j).store.vote) hvote fun _ _ => rfl

end Orderly

theorem Unvoted.orderly (h : c.Unvoted mode) : c.Orderly mode fun _ => False := by
  refine ⟨h.settled.voting, fun k => ?_, fun _ hS => hS.elim⟩
  obtain ⟨config, now, store, sm, -, -, -, hstart⟩ := h k
  exact (Node.start_rising (fun msg hmsg => by cases hmsg) hstart).1

/-! ### Runs -/

/-- What a run saves at the node `k`: with each vote that is passed to `save_vote`, the vote that is
    stored at that time. -/
def saves [DecidableEq N] (k : NID) (c : Cluster NID N D) (ms : List (Move NID N D)) :
    List (Option (Vote NID) × Vote NID) :=
  trace makeMove (fun c m => (c.savesAt k m).map fun v => ((c k).store.vote, v)) c ms

theorem gt_trans {u v w : Vote NID} (h : w.gt mode v = true) (h' : v.gt mode u = true) :
    w.gt mode u = true :=
  Vote.gt_iff.2 ((Vote.gt_iff.1 h').trans (Vote.gt_iff.1 h))

/-- A move that saves a vote saves it over a smaller one. -/
theorem Orderly.gt_of_savesAt (h : c.Orderly mode S) {m : Move NID N D} {v w : Vote NID}
    (hv : c.savesAt k m = some v) (hw : (c k).store.vote = some w) : v.gt mode w = true := by
  cases m with
  | label l =>
    unfold savesAt at hv
    dsimp only at hv
    split at hv
    · obtain ⟨ev, -, hsaves⟩ := Option.bind_eq_some_iff.1 hv
      rw [← h.modes k]
      exact (h.rising k).gt_of_savesVote hsaves hw
    · cases hv
  | form node now memberNodes => cases hv

/-- The votes that a run saves rise from the stored one on, where `L` are the leader ids of all the
    leaders of the run. -/
theorem Orderly.saves_rise [DecidableEq N] (h : c.Orderly mode S) {L : LeaderId NID → Prop}
    (hS : ∀ l, S l → L l) (hL : OneLeaderPerRank mode L) {ms : List (Move NID N D)}
    (hleads : ∀ c' ∈ states Cluster.makeMove c ms, ∀ j V, (c' j).engine.leaderVote = some V →
      V.nodeId = j → L V) :
    (∀ p ∈ c.saves k ms, ∀ w, p.1 = some w ∨ (c k).store.vote = some w → p.2.gt mode w = true) ∧
      ((c.saves k ms).map Prod.snd).Pairwise fun v w => w.gt mode v = true := by
  induction ms generalizing c S with
  | nil => exact ⟨fun p hp => (List.not_mem_nil hp).elim, List.Pairwise.nil⟩
  | cons m ms ih =>
    cases hm : c.makeMove m with
    | none =>
      have hnil : c.saves k (m :: ms) = [] := trace_of_none hm
      rw [hnil]
      exact ⟨fun p hp => (List.not_mem_nil hp).elim, List.Pairwise.nil⟩
    | some c' =>
      have hu : OneLeaderPerRank mode S := fun l l' hl hl' => hL l l' (hS l hl) (hS l' hl')
      obtain ⟨S', h', hwon, hstored⟩ := h.makeMove hu hm
      have hS' : ∀ l, S' l → L l := by
        intro l hl
        rcases hwon l hl with hold | ⟨j, hlead⟩
        · exact hS l hold
        · refine hleads c' (mem_states_cons hm (mem_states_self c' ms)) j l hlead ?_
          exact ((h'.votes j).engine.leader l hlead).2.trans (h'.ids j)
      obtain ⟨hgt, hpair⟩ := ih h' hS' fun c'' hc'' => hleads c'' (mem_states_cons hm hc'')
      have hcons : c.saves k (m :: ms) =
          ((c.savesAt k m).map fun v => ((c k).store.vote, v)).toList ++ c'.saves k ms :=
        trace_of_some hm
      rw [hcons]
      cases hv : c.savesAt k m with
      | none =>
        have hsame : (c' k).store.vote = (c k).store.vote := by
          rw [hstored k, hv]
          rfl
        rw [hsame] at hgt
        exact ⟨hgt, hpair⟩
      | some v =>
        have hnow : (c' k).store.vote = some v := by
          rw [hstored k, hv]
          rfl
        have hlater : ∀ p ∈ c'.saves k ms, p.2.gt mode v = true := fun p hp =>
          hgt p hp v (Or.inr hnow)
        refine ⟨fun p hp w hw => ?_, List.pairwise_cons.2 ⟨fun u hu => ?_, hpair⟩⟩
        · rcases List.mem_cons.1 hp with rfl | hp
          · exact h.gt_of_savesAt hv (hw.elim (fun heq => heq) fun heq => heq)
          · rcases hw with hw | hw
            · exact hgt p hp w (Or.inl hw)
            · exact gt_trans (hlater p hp) (h.gt_of_savesAt hv hw)
        · obtain ⟨p, hp, rfl⟩ := List.mem_map.1 hu
          exact hlater p hp

/-- In every run in which no two nodes lead under one leader id or, with the standard leader id, in
    one term, be it at one time or at different times: the votes that a node passes to `save_vote`
    increase strictly, and each is greater than the vote that is stored when it is saved. -/
theorem saved_votes_increase [DecidableEq N] {c0 : Cluster NID N D} {ms : List (Move NID N D)}
    (hinit : c0.Unvoted mode)
    (hlead : ∀ c ∈ states makeMove c0 ms, ∀ c' ∈ states makeMove c0 ms, ∀ j j' V V',
      (c j).engine.leaderVote = some V → (c' j').engine.leaderVote = some V' →
        V = V' ∨ mode = .std ∧ V.term = V'.term → j = j') (k : NID) :
    ((c0.saves k ms).map Prod.snd).Pairwise (fun v w => w.gt mode v = true) ∧
      ∀ p ∈ c0.saves k ms, ∀ w, p.1 = some w → p.2.gt mode w = true := by
  obtain ⟨L, hL⟩ : ∃ L : LeaderId NID → Prop, L = fun V => ∃ c ∈ states makeMove c0 ms,
      (c V.nodeId).engine.leaderVote = some V := ⟨_, rfl⟩
  have hone : OneLeaderPerRank mode L := by
    intro l l' hl hl' hrank
    rw [hL] at hl hl'
    obtain ⟨c, hc, hl⟩ := hl
    obtain ⟨c', hc', hl'⟩ := hl'
    have hterm : l.term = l'.term := by
      rw [← LeaderId.toCommitted_term mode l, hrank, LeaderId.toCommitted_term]
    have hnode : l.nodeId = l'.nodeId := by
      cases mode with
      | adv => exact Option.some.inj (congrArg CommittedLeaderId.nodeId hrank)
      | std => exact hlead c hc c' hc' _ _ l l' hl hl' (Or.inr ⟨rfl, hterm⟩)
    obtain ⟨t, i⟩ := l
    obtain ⟨t', i'⟩ := l'
    dsimp only at hterm hnode
    rw [hterm, hnode]
  obtain ⟨hgt, hpair⟩ := hinit.orderly.saves_rise (k := k) (fun _ hS => hS.elim) hone
    fun c hc j V hV hid => by
      rw [hL]
      subst hid
      exact ⟨c, hc, hV⟩
  exact ⟨hpair, fun p hp w hw => hgt p hp w (Or.inl hw)⟩

/-- Node 0 is elected in term 1 and saves its committed vote. It restarts without leader restore, so
    with the uncommitted vote in memory, and stands for election again. -/
def Three.demoted : List (Move (Fin 3) Unit Nat) :=
  (Three.election ++ [Three.event 0 .runCommand, Three.event 0 .runCommand,
    Three.event 0 (.restart 0 0), Three.event 0 .elect, Three.event 0 .runCommand]).map .label

/-- The three votes that node 0 saves then. -/
theorem saved_votes_increase_demoted :
    (Three.cluster false).saves 0 Three.demoted =
      [(none, ⟨⟨1, 0⟩, false⟩), (some ⟨⟨1, 0⟩, false⟩, ⟨⟨1, 0⟩, true⟩),
        (some ⟨⟨1, 0⟩, true⟩, ⟨⟨2, 0⟩, false⟩)] ∧
      (((Three.cluster false).saves 0 Three.demoted).map Prod.snd).Pairwise
        (fun v w => w.gt .std v = true) ∧
      ∀ p ∈ (Three.cluster false).saves 0 Three.demoted, ∀ w, p.1 = some w →
        p.2.gt .std w = true := by
  have hinit : (Three.cluster false).Unvoted .std := fun k =>
    ⟨Three.config false k, 0, _, _, rfl, rfl, rfl, (Option.some_get _).symm⟩
  have hzero : ∀ c ∈ states makeMove (Three.cluster false) Three.demoted, ∀ j,
      (c j).engine.leaderVote.isSome = true → j = 0 := by
    decide +kernel
  refine ⟨by decide +kernel, saved_votes_increase hinit ?_ 0⟩
  intro c hc c' hc' j j' V V' hV hV' _
  rw [hzero c hc j (by rw [hV]; rfl), hzero c' hc' j' (by rw [hV']; rfl)]

end Cluster

end ZenohRaft
