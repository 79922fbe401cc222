/-
  Election safety, at one node.

  `Node.VoteInv` puts the invariant of the engine on top of the vote in the log store, and adds
  the messages the node has handed out and the streams it replicates on. `Node.VoteInv.step`
  says that every event keeps it, provided that the votes that arrive are admitted.
-/
import ZenohRaft.Cluster
import ZenohRaft.Election.Engine

namespace ZenohRaft

open Lib

variable {NID N D : Type} [LinearOrder NID]

/-! ## Messages -/

/-- The vote of a message that its receiver may take over. -/
def Message.vote? : Message NID N D → Option (Vote NID)
  | .vote false _ _ req => some req.vote
  | .voteResp _ _ _ _ resp => some resp.vote
  | .appendEntries _ req => some req.vote
  | .appendEntriesResp _ (.error (.higherVote v)) => some v
  | .installFullSnapshot _ v _ => some v
  | .installFullSnapshotResp _ _ v => some v
  | _ => none

/-- A message by which `src` grants `l`. -/
def Message.Grants (src : NID) (l : LeaderId NID) : Message NID N D → Prop
  | .voteResp false src' _ _ resp =>
    src' = src ∧ resp.voteGranted = true ∧ resp.vote = ⟨l, false⟩
  | _ => False

omit [LinearOrder NID] in
theorem Respond.vote?_toMessage (src : NID) (r : Respond NID) :
    (r.toMessage src : Message NID N D).vote? = r.vote? := by
  rcases r with ⟨_ | _, _, _, _⟩ | ⟨_, (_ | _) | _⟩ | _ | _ <;> rfl

omit [LinearOrder NID] in
theorem Respond.grants_toMessage {src src' : NID} {l : LeaderId NID} {r : Respond NID}
    (h : (r.toMessage src : Message NID N D).Grants src' l) :
    src' = src ∧ r.vote? = some ⟨l, false⟩ := by
  rcases r with ⟨_ | _, _, _, resp⟩ | _ | _ | _
  · obtain ⟨rfl, -, hv⟩ := h
    exact ⟨rfl, congrArg some hv⟩
  · exact h.elim
  · exact h.elim
  · exact h.elim
  · exact h.elim

/-- What has to hold of the messages that a node has handed out, on top of the saved vote `s`:
    the votes in them are saved, and no two grants are of one rank. -/
structure OutOK (A : Vote NID → Prop) (mode : LeaderIdMode) (id : NID) (s : Vote NID)
    (out : List (Message NID N D)) : Prop where
  votes : ∀ msg ∈ out, ∀ v ∈ msg.vote?, A v ∧
    (v.leaderId.nodeId = id → v.toNonCommitted.Le mode (s.floor id))
  grants : ∀ msg ∈ out, ∀ src l, msg.Grants src l →
    src = id ∧ Vote.Le mode ⟨l, false⟩ (s.floor id)
  unique : ∀ msg ∈ out, ∀ msg' ∈ out, ∀ src src' l l', msg.Grants src l → msg'.Grants src' l' →
    l.toCommitted mode = l'.toCommitted mode → l = l'

namespace OutOK

variable {A : Vote NID → Prop} {mode : LeaderIdMode} {id : NID} {s s' : Vote NID}
variable {out out' : List (Message NID N D)}

theorem mono (h : OutOK A mode id s out) (hs : (s.floor id).Le mode (s'.floor id)) :
    OutOK A mode id s' out :=
  ⟨fun msg hmsg v hv => ⟨(h.votes msg hmsg v hv).1, fun hid =>
      ((h.votes msg hmsg v hv).2 hid).trans hs⟩,
    fun msg hmsg src l hg => ⟨(h.grants msg hmsg src l hg).1,
      (h.grants msg hmsg src l hg).2.trans hs⟩, h.unique⟩

theorem subset (h : OutOK A mode id s out) (hsub : ∀ msg ∈ out', msg ∈ out) :
    OutOK A mode id s out' :=
  ⟨fun msg hmsg => h.votes msg (hsub msg hmsg), fun msg hmsg => h.grants msg (hsub msg hmsg),
    fun msg hmsg msg' hmsg' => h.unique msg (hsub msg hmsg) msg' (hsub msg' hmsg')⟩

/-- New messages carry saved votes, and grant what is saved. -/
theorem add (h : OutOK A mode id s out)
    (hnew : ∀ msg ∈ out', msg ∈ out ∨
      ((∀ v ∈ msg.vote?, A v ∧ (v.leaderId.nodeId = id → v.toNonCommitted.Le mode (s.floor id))) ∧
        ∀ src l, msg.Grants src l → src = id ∧ s.floor id = ⟨l, false⟩)) :
    OutOK A mode id s out' := by
  have hgrant : ∀ msg ∈ out', ∀ src l, msg.Grants src l →
      src = id ∧ Vote.Le mode ⟨l, false⟩ (s.floor id) := by
    intro msg hmsg src l hg
    rcases hnew msg hmsg with hold | ⟨-, hn⟩
    · exact h.grants msg hold src l hg
    · exact ⟨(hn src l hg).1, Or.inl (hn src l hg).2.symm⟩
  -- a grant of the rank of what is saved is what is saved
  have hsame : ∀ msg ∈ out', ∀ src l l', msg.Grants src l → s.floor id = ⟨l', false⟩ →
      l.toCommitted mode = l'.toCommitted mode → l = l' := by
    intro msg hmsg src l l' hg hl' hr
    have hle := (hgrant msg hmsg src l hg).2
    rw [hl'] at hle
    have heq := hle.eq_of_rank (by rw [Vote.rank, Vote.rank, hr])
    exact congrArg Vote.leaderId heq
  refine ⟨?_, hgrant, ?_⟩
  · intro msg hmsg v hv
    rcases hnew msg hmsg with hold | ⟨hn, -⟩
    · exact h.votes msg hold v hv
    · exact hn v hv
  · intro msg hmsg msg' hmsg' src src' l l' hg hg' hr
    rcases hnew msg' hmsg' with hold' | ⟨-, hn'⟩
    · rcases hnew msg hmsg with hold | ⟨-, hn⟩
      · exact h.unique msg hold msg' hold' src src' l l' hg hg' hr
      · exact (hsame msg' hmsg' src' l' l hg' (hn src l hg).2 hr.symm).symm
    · exact hsame msg hmsg src l l' hg (hn' src' l' hg').2 hr

end OutOK

namespace Node

/-- The saved vote. -/
def savedVote (n : Node NID N D) : Vote NID := n.store.vote.getD ⟨⟨0, n.id⟩, false⟩

/-- The messages that a node has handed out: those sent, and the responds put aside. -/
def out (n : Node NID N D) : List (Message NID N D) :=
  n.sent ++ (n.engine.output.pendingResponds.onLogIo.map fun p => p.2.toMessage n.id) ++
    n.engine.output.pendingResponds.onSnapshot.map fun p => p.2.toMessage n.id

/-- The invariant of elections for one node. -/
structure VoteInv (A : Vote NID → Prop) (G : NID → LeaderId NID → Prop)
    (P : Membership NID N → Prop)
    (n : Node NID N D) : Prop where
  saved : A n.savedVote
  engine : n.engine.VoteInv A G P n.engine.frame n.savedVote
  streams : ∀ V ts, n.streams = some (V, ts) → V.nodeId = n.id ∧
    Vote.Le n.engine.config.mode ⟨V, false⟩ (n.savedVote.floor n.id) ∧ A ⟨V, true⟩
  out : OutOK A n.engine.config.mode n.id n.savedVote n.out

/-- How a node moves on: nothing sent or saved is taken back. -/
structure Advances (n n' : Node NID N D) : Prop where
  config : n'.engine.config = n.engine.config
  sent : ∀ msg ∈ n.sent, msg ∈ n'.sent
  saved : (n.savedVote.floor n.id).Le n.engine.config.mode (n'.savedVote.floor n.id)

variable {A : Vote NID → Prop} {G : NID → LeaderId NID → Prop}
variable {P : Membership NID N → Prop}
variable {n n' : Node NID N D} {e' : Engine NID N D}

/-- The invariant after an event, and that the node has moved on. -/
def VoteStep (A : Vote NID → Prop) (G : NID → LeaderId NID → Prop)
    (P : Membership NID N → Prop)
    (n n' : Node NID N D) : Prop :=
  n'.VoteInv A G P ∧ n.Advances n'

/-- A handler of the engine. -/
theorem VoteInv.ofEngine (h : n.VoteInv A G P)
    (he : e'.VoteInv A G P n.engine.frame n.savedVote) : VoteStep A G P n (n.withEngine e') := by
  have hconfig : e'.config = n.engine.config := congrArg Prod.fst he.frame
  have hpending : e'.output.pendingResponds = n.engine.output.pendingResponds :=
    congrArg Prod.snd he.frame
  have hid : (n.withEngine e').id = n.id := congrArg EngineConfig.id hconfig
  have hsaved : (n.withEngine e').savedVote = n.savedVote := by
    unfold savedVote
    rw [hid]
    rfl
  have hout : (n.withEngine e').out = n.out := by
    unfold Node.out
    rw [hid]
    unfold withEngine
    rw [hpending]
  refine ⟨⟨?_, ?_, ?_, ?_⟩, hconfig, fun msg hmsg => hmsg, ?_⟩
  · rw [hsaved]
    exact h.saved
  · rw [hsaved]
    have hf : (n.withEngine e').engine.frame = n.engine.frame := he.frame
    rw [hf]
    exact he
  · rw [hsaved, hid]
    have hmode : (n.withEngine e').engine.config.mode = n.engine.config.mode :=
      congrArg EngineConfig.mode hconfig
    rw [hmode]
    exact h.streams
  · rw [hsaved, hid, hout]
    have hmode : (n.withEngine e').engine.config.mode = n.engine.config.mode :=
      congrArg EngineConfig.mode hconfig
    rw [hmode]
    exact h.out
  · rw [hsaved]
    exact .refl _

theorem Advances.id (h : n.Advances n') : n'.id = n.id := congrArg EngineConfig.id h.config

theorem VoteStep.trans {n'' : Node NID N D} (h : VoteStep A G P n n')
    (h' : VoteStep A G P n' n'') : VoteStep A G P n n'' := by
  refine ⟨h'.1, h'.2.config.trans h.2.config, fun msg hmsg => h'.2.sent msg (h.2.sent msg hmsg), ?_⟩
  have hle := h'.2.saved
  rw [h.2.id, h.2.config] at hle
  exact h.2.saved.trans hle

theorem VoteInv.refl (h : n.VoteInv A G P) : VoteStep A G P n n :=
  ⟨h, rfl, fun _ hmsg => hmsg, .refl _⟩

/-- Changes outside of the engine that concern neither votes nor messages. -/
theorem VoteInv.outside (h : n.VoteInv A G P) (he : n'.engine = n.engine)
    (hv : n'.store.vote = n.store.vote) (hst : n'.streams = n.streams ∨ n'.streams = none)
    (hsent : n'.sent = n.sent) : VoteStep A G P n n' := by
  have hid : n'.id = n.id := by rw [Node.id, he, Node.id]
  have hsaved : n'.savedVote = n.savedVote := by rw [savedVote, hv, hid, savedVote]
  refine ⟨⟨?_, ?_, ?_, ?_⟩, by rw [he], by rw [hsent]; exact fun _ hmsg => hmsg, ?_⟩
  · rw [hsaved]
    exact h.saved
  · rw [hsaved, he]
    exact h.engine
  · intro V ts hV
    rw [hsaved, he, hid]
    rcases hst with hst | hst
    · exact h.streams V ts (hst.symm.trans hV)
    · cases hst.symm.trans hV
  · rw [hsaved, he, hid, Node.out, hid, hsent, he]
    exact h.out
  · rw [hsaved]
    exact .refl _

theorem VoteInv.keeps (h : n.VoteInv A G P) (hk : n.engine.KeepsVote e') :
    VoteStep A G P n (n.withEngine e') :=
  h.ofEngine (h.engine.keeps hk)

theorem VoteInv.afterEngine (h : n.VoteInv A G P) {r : Option (Engine NID N D)}
    (hr : ∀ e', r = some e' → e'.VoteInv A G P n.engine.frame n.savedVote) :
    VoteStep A G P n (n.afterEngine r) := by
  cases r with
  | none => exact h.outside rfl rfl (Or.inl rfl) rfl
  | some e' => exact h.ofEngine (hr e' rfl)

theorem VoteInv.mapIo (h : n.VoteInv A G P) (f : IOState NID → IOState NID) :
    VoteStep A G P n (n.mapIo f) :=
  h.keeps (.ofState _ rfl)

/-- Sending messages whose votes are saved, and which grant what is saved. -/
theorem VoteInv.send (h : n.VoteInv A G P) {ms : List (Message NID N D)}
    (hms : ∀ msg ∈ ms, (∀ v ∈ msg.vote?, A v ∧ (v.leaderId.nodeId = n.id →
      v.toNonCommitted.Le n.engine.config.mode (n.savedVote.floor n.id))) ∧
        ∀ src l, msg.Grants src l → src = n.id ∧ n.savedVote.floor n.id = ⟨l, false⟩) :
    VoteStep A G P n (n.send ms) := by
  refine ⟨⟨h.saved, h.engine, h.streams, h.out.add ?_⟩, rfl, ?_, .refl _⟩
  · intro msg hmsg
    have hmem : msg ∈ n.out ∨ msg ∈ ms := by
      unfold Node.out Node.send at hmsg
      unfold Node.out
      simp only [List.mem_append] at hmsg ⊢
      tauto
    exact hmem.imp (fun hold => hold) (hms msg)
  · exact fun msg hmsg => List.mem_append_left _ hmsg

/-! ### Commands -/

theorem engine_pop {c : Command NID N D} {cs : List (Command NID N D)} {s : Vote NID}
    {e : Engine NID N D} {F : EngineConfig NID × PendingResponds NID}
    (h : e.VoteInv A G P F s) (hc : e.output.commands = c :: cs) :
    Engine.VoteInv A G P F (voteStep s c)
      ({ e with output := { e.output with commands := cs } } : Engine NID N D) := by
  obtain ⟨⟨hframe, hqueue, hmem, hadm⟩, hl, hcand⟩ := h
  rw [hc] at hqueue hmem
  exact ⟨⟨hframe, hqueue.2, hmem, hadm⟩, hl, hcand⟩

theorem VoteInv.head (h : n.VoteInv A G P) {c : Command NID N D} {cs : List (Command NID N D)}
    (hc : n.engine.output.commands = c :: cs) :
    c.VoteOK A n.engine.config.mode n.id n.savedVote := by
  have hqueue := h.engine.queue
  rw [hc] at hqueue
  exact hqueue.1

theorem VoteInv.pop (h : n.VoteInv A G P) {c : Command NID N D} {cs : List (Command NID N D)}
    (hc : n.engine.output.commands = c :: cs) (hidle : ∀ v : Vote NID, voteStep v c = v) :
    VoteStep A G P n (n.withCommands cs) := by
  have hpop := engine_pop h.engine hc
  rw [hidle] at hpop
  exact h.ofEngine hpop

/-- What a respond needs that is carried out or put aside when it is at the head. -/
theorem respond_out {resp : Respond NID} {w : Option (Condition NID)} {mode : LeaderIdMode}
    {id : NID} {s : Vote NID}
    (h : (Command.respond w resp : Command NID N D).VoteOK A mode id s) :
    (∀ v ∈ (resp.toMessage id : Message NID N D).vote?, A v ∧ (v.leaderId.nodeId = id →
      v.toNonCommitted.Le mode (s.floor id))) ∧
      ∀ src l, (resp.toMessage id : Message NID N D).Grants src l →
        src = id ∧ s.floor id = ⟨l, false⟩ := by
  have hfloor : ∀ v ∈ resp.vote?, v.floor id = s.floor id := by
    intro v hv
    rcases (h v hv).1 with rfl | rfl
    · rfl
    · exact Vote.floor_floor id s
  refine ⟨?_, ?_⟩
  · intro v hv
    rw [Respond.vote?_toMessage] at hv
    refine ⟨(h v hv).2, fun hid => Or.inl ?_⟩
    rw [← hfloor v hv, Vote.floor_of_own hid]
  · intro src l hg
    obtain ⟨hsrc, hv⟩ := Respond.grants_toMessage hg
    refine ⟨hsrc, ?_⟩
    rw [← hfloor _ hv, Vote.floor_of_not_committed rfl]

theorem VoteInv.runSaveVote (h : n.VoteInv A G P) {v : Vote NID} {cs : List (Command NID N D)}
    (hc : n.engine.output.commands = .saveVote v :: cs) :
    VoteStep A G P n ((n.withCommands cs).runSaveVote v) := by
  obtain ⟨hle, hA⟩ := h.head hc
  have hsaved : VoteStep A G P n { (n.withCommands cs).submitLog (.new v) with
      store := { n.store with vote := some v }
      ioDone := n.ioDone ++ [.new v] } := by
    have hpop : Engine.VoteInv A G P n.engine.frame v
        ((n.withCommands cs).submitLog (.new v)).engine :=
      (engine_pop h.engine hc).keeps (.ofState _ rfl)
    refine ⟨⟨hA, hpop, ?_, h.out.mono hle⟩, rfl, fun _ hmsg => hmsg, hle⟩
    intro V ts hV
    obtain ⟨hid, hV', hAV⟩ := h.streams V ts hV
    exact ⟨hid, hV'.trans hle, hAV⟩
  unfold Node.runSaveVote
  dsimp only
  split
  · exact hsaved
  · rename_i hcom
    have huncom : v.committed = false := by simpa using hcom
    -- the answer of the node to itself grants the vote it has just saved
    refine hsaved.trans (hsaved.1.send ?_)
    intro msg hmsg
    obtain rfl := List.mem_singleton.1 hmsg
    refine ⟨?_, ?_⟩
    · rintro w ⟨⟩
      refine ⟨hA, fun _ => Or.inl ?_⟩
      exact (Vote.toNonCommitted_of_not_committed huncom).trans
        (Vote.floor_of_not_committed huncom).symm
    · rintro src l ⟨hsrc, -, hv⟩
      exact ⟨hsrc.symm, (Vote.floor_of_not_committed huncom).trans hv⟩

theorem VoteStep.outside {n'' : Node NID N D} (h : VoteStep A G P n n')
    (he : n''.engine = n'.engine) (hv : n''.store.vote = n'.store.vote)
    (hst : n''.streams = n'.streams ∨ n''.streams = none) (hsent : n''.sent = n'.sent) :
    VoteStep A G P n n'' :=
  h.trans (h.1.outside he hv hst hsent)

/-- Changes of the cursors of the engine, and outside of the engine. -/
theorem VoteInv.cursors (h : n.VoteInv A G P) (hk : n.engine.KeepsVote n'.engine)
    (hv : n'.store.vote = n.store.vote) (hst : n'.streams = n.streams ∨ n'.streams = none)
    (hsent : n'.sent = n.sent) : VoteStep A G P n n' :=
  (h.keeps hk).outside rfl hv hst hsent

theorem VoteInv.runStateMachine (h : n.VoteInv A G P) (command : SmCommand NID N D) :
    VoteStep A G P n (n.runStateMachine command) := by
  unfold Node.runStateMachine
  cases command with
  | installFullSnapshot io snapshot =>
    dsimp only
    split <;> exact h.cursors (.ofState _ rfl) rfl (Or.inl rfl) rfl
  | buildSnapshot => exact h.outside rfl rfl (Or.inl rfl) rfl
  | apply first last => exact h.outside rfl rfl (Or.inl rfl) rfl

/-- Commands that have nothing to do with votes. -/
theorem VoteInv.execPlain (h : n.VoteInv A G P) {c : Command NID N D} (hc : c.IsPlain n.id none)
    (he : n.execCommand c = some n') : VoteStep A G P n n' := by
  cases c with
  | saveVote v => exact hc.elim
  | respond w resp => exact hc.elim
  | sendVote isPreVote req => exact hc.elim
  | rebuildReplicationStreams V targets closeOld => cases hc.1
  | updateIOProgress w io =>
    obtain rfl := Option.some.inj he
    exact h.cursors (.ofState _ rfl) rfl (Or.inl rfl) rfl
  | appendEntries V entries =>
    obtain rfl := Option.some.inj he
    exact h.cursors (.ofState _ rfl) rfl (Or.inl rfl) rfl
  | replicateCommitted committed =>
    obtain rfl := Option.some.inj he
    exact h.outside rfl rfl (Or.inl rfl) rfl
  | saveCommittedAndApply already upto =>
    obtain rfl := Option.some.inj he
    unfold runSaveCommittedAndApply
    dsimp only
    split <;> exact h.cursors (.ofState _ rfl) rfl (Or.inl rfl) rfl
  | replicate target inflight =>
    obtain rfl := Option.some.inj he
    exact h.refl
  | replicateSnapshot V target inflightId =>
    obtain rfl := Option.some.inj he
    exact h.refl
  | broadcastTransferLeader V target last =>
    obtain rfl := Option.some.inj he
    refine h.send ?_
    intro msg hmsg
    obtain ⟨t, -, rfl⟩ := List.mem_map.1 hmsg
    exact ⟨nofun, nofun⟩
  | closeReplicationStreams =>
    obtain rfl := Option.some.inj he
    exact h.outside rfl rfl (Or.inr rfl) rfl
  | failPendingReads =>
    obtain rfl := Option.some.inj he
    exact h.refl
  | purgeLog upto =>
    simp only [Node.execCommand, Option.ite_none_right_eq_some, Option.some.injEq] at he
    obtain ⟨-, rfl⟩ := he
    exact h.cursors (.ofState _ rfl) rfl (Or.inl rfl) rfl
  | truncateLog after =>
    simp only [Node.execCommand, Option.ite_none_right_eq_some, Option.some.injEq] at he
    obtain ⟨-, rfl⟩ := he
    exact h.outside rfl rfl (Or.inl rfl) rfl
  | stateMachine command =>
    obtain rfl := Option.some.inj he
    exact h.runStateMachine command

/-- The command at the head of the queue. -/
theorem VoteInv.execHead (h : n.VoteInv A G P) {c : Command NID N D}
    {cs : List (Command NID N D)} (hc : n.engine.output.commands = c :: cs)
    (he : (n.withCommands cs).execCommand c = some n') : VoteStep A G P n n' := by
  have hhead := h.head hc
  by_cases hplain : c.IsPlain n.id none
  · have hpop := h.pop hc (Engine.voteStep_of_isPlain hplain)
    exact hpop.trans (hpop.1.execPlain hplain he)
  cases c with
  | saveVote v =>
    simp only [Node.execCommand, Option.ite_none_right_eq_some, Option.some.injEq] at he
    obtain ⟨-, rfl⟩ := he
    exact h.runSaveVote hc
  | respond w resp =>
    have hpop := h.pop hc fun _ => rfl
    obtain rfl := Option.some.inj he
    refine hpop.trans (hpop.1.send ?_)
    intro msg hmsg
    obtain rfl := List.mem_singleton.1 hmsg
    exact respond_out hhead
  | sendVote isPreVote req =>
    have hpop := h.pop hc fun _ => rfl
    obtain rfl := Option.some.inj he
    refine hpop.trans (hpop.1.send ?_)
    intro msg hmsg
    obtain ⟨t, -, rfl⟩ := List.mem_map.1 hmsg
    refine ⟨?_, nofun⟩
    cases isPreVote with
    | true => exact nofun
    | false =>
      rintro v ⟨⟩
      obtain ⟨hv, hA, hcom⟩ := hhead rfl
      refine ⟨hA, fun hid => Or.inl ?_⟩
      have hfloor : req.vote.floor n.id = n.savedVote.floor n.id := by
        rcases hv with hv | hv
        · exact congrArg (Vote.floor n.id) hv
        · rw [hv]
          exact Vote.floor_floor n.id n.savedVote
      exact (Vote.floor_of_own hid).symm.trans hfloor
  | rebuildReplicationStreams V targets closeOld =>
    have hpop := h.pop hc fun _ => rfl
    obtain rfl := Option.some.inj he
    obtain ⟨hfloor, hid, hA⟩ := hhead
    refine hpop.trans ⟨⟨hpop.1.saved, hpop.1.engine, ?_, hpop.1.out⟩, rfl, fun _ hmsg => hmsg,
      .refl _⟩
    rintro V' ts ⟨⟩
    exact ⟨hid, Or.inl hfloor.symm, hA⟩
  | _ => exact absurd trivial hplain

/-- A respond at the head is put aside. -/
theorem VoteInv.postponeRespond (h : n.VoteInv A G P) {cond : Condition NID}
    {resp : Respond NID} {cs : List (Command NID N D)}
    (hc : n.engine.output.commands = .respond (some cond) resp :: cs) :
    VoteStep A G P n ((n.withCommands cs).postponeRespond cond resp) := by
  have hhead := h.head hc
  have hpop := h.pop hc fun _ => rfl
  have heng := hpop.1.engine
  refine hpop.trans ⟨⟨hpop.1.saved, ⟨⟨rfl, heng.queue, heng.memory, heng.admitted⟩, heng.leader,
    heng.candidate⟩, hpop.1.streams, hpop.1.out.add ?_⟩, rfl, fun _ hmsg => hmsg, .refl _⟩
  intro msg hmsg
  have hmem : msg ∈ (n.withCommands cs).out ∨ msg = resp.toMessage n.id := by
    unfold Node.out Node.postponeRespond at hmsg
    unfold Node.out
    cases cond with
    | ioFlushed io =>
      simp only [withEngine, List.map_append, List.map_cons, List.map_nil, List.mem_append,
        List.mem_singleton] at hmsg ⊢
      tauto
    | snapshot logId =>
      simp only [withEngine, List.map_append, List.map_cons, List.map_nil, List.mem_append,
        List.mem_singleton] at hmsg ⊢
      tauto
  rcases hmem with hmem | rfl
  · exact Or.inl hmem
  · exact Or.inr (respond_out hhead)

theorem VoteInv.runCommand (h : n.VoteInv A G P) (he : n.runCommand = some n') :
    VoteStep A G P n n' := by
  unfold Node.runCommand at he
  split at he
  · cases he
  · rename_i c cs hc
    split at he
    · exact h.execHead hc he
    · split at he
      · obtain rfl := Option.some.inj he
        exact h.postponeRespond hc
      · cases he

theorem nextProgressDrivenCommand_isPlain {e : Engine NID N D} {c : Command NID N D}
    (h : e.nextProgressDrivenCommand = some c) (id : NID) : c.IsPlain id none := by
  unfold Engine.nextProgressDrivenCommand at h
  dsimp only at h
  repeat' split at h
  all_goals cases h
  trivial

theorem VoteInv.runProgressDrivenCommand (h : n.VoteInv A G P)
    (he : n.runProgressDrivenCommand = some n') : VoteStep A G P n n' := by
  unfold Node.runProgressDrivenCommand at he
  split at he
  · obtain ⟨c, hc, he⟩ := Option.bind_eq_some_iff.1 he
    exact h.execPlain (nextProgressDrivenCommand_isPlain hc _) he
  · cases he

/-- A respond that was put aside is sent. -/
theorem VoteInv.sendPending (h : n.VoteInv A G P) {pending : PendingResponds NID}
    {msg : Message NID N D} (hmsg : msg ∈ n.out)
    (hlog : pending.onLogIo ⊆ n.engine.output.pendingResponds.onLogIo)
    (hsnap : pending.onSnapshot ⊆ n.engine.output.pendingResponds.onSnapshot) :
    VoteStep A G P n ((n.withEngine { n.engine with output := { n.engine.output with
      pendingResponds := pending } }).send [msg]) := by
  have heng := h.engine
  refine ⟨⟨h.saved, ⟨⟨rfl, heng.queue, heng.memory, heng.admitted⟩, heng.leader, heng.candidate⟩,
    h.streams, h.out.subset ?_⟩, rfl, fun _ hmem => List.mem_append_left _ hmem, .refl _⟩
  intro msg' hmsg'
  unfold Node.out Node.send at hmsg'
  simp only [withEngine, List.mem_append, List.mem_singleton] at hmsg'
  rcases hmsg' with ((hold | rfl) | hp) | hp
  · unfold Node.out
    simp only [List.mem_append]
    exact Or.inl (Or.inl hold)
  · exact hmsg
  · unfold Node.out
    simp only [List.mem_append]
    exact Or.inl (Or.inr (List.map_subset _ hlog hp))
  · unfold Node.out
    simp only [List.mem_append]
    exact Or.inr (List.map_subset _ hsnap hp)

theorem VoteInv.sendSatisfiedOnLogIo (h : n.VoteInv A G P)
    (he : n.sendSatisfiedOnLogIo = some n') : VoteStep A G P n n' := by
  unfold Node.sendSatisfiedOnLogIo at he
  dsimp only at he
  split at he
  · cases he
  · rename_i io resp rest hp
    split at he
    · obtain rfl := Option.some.inj he
      refine h.sendPending ?_ ?_ ?_
      · unfold Node.out
        rw [hp]
        simp
      · rw [hp]
        exact List.subset_cons_self _ _
      · exact fun _ hx => hx
    · cases he

theorem VoteInv.sendSatisfiedOnSnapshot (h : n.VoteInv A G P)
    (he : n.sendSatisfiedOnSnapshot = some n') : VoteStep A G P n n' := by
  unfold Node.sendSatisfiedOnSnapshot at he
  dsimp only at he
  split at he
  · cases he
  · rename_i io resp rest hp
    split at he
    · obtain rfl := Option.some.inj he
      refine h.sendPending ?_ ?_ ?_
      · unfold Node.out
        rw [hp]
        simp
      · exact fun _ hx => hx
      · rw [hp]
        exact List.subset_cons_self _ _
    · cases he

/-! ### Storage -/

theorem VoteInv.flush (h : n.VoteInv A G P) (he : n.flush = some n') : VoteStep A G P n n' := by
  unfold Node.flush at he
  split at he
  · cases he
  · obtain rfl := Option.some.inj he
    exact h.outside rfl rfl (Or.inl rfl) rfl

theorem VoteInv.workerLoop (h : n.VoteInv A G P) (he : n.workerLoop = some n') :
    VoteStep A G P n n' := by
  unfold Node.workerLoop at he
  split at he
  · cases he
  · obtain rfl := Option.some.inj he
    exact h.outside rfl rfl (Or.inl rfl) rfl
  · obtain rfl := Option.some.inj he
    exact h.outside rfl rfl (Or.inl rfl) rfl
  · split at he
    · obtain rfl := Option.some.inj he
      exact h.outside rfl rfl (Or.inl rfl) rfl
    · obtain rfl := Option.some.inj he
      exact h.outside rfl rfl (Or.inl rfl) rfl

theorem VoteInv.handleLocalIo (h : n.VoteInv A G P) (io : IOId NID) :
    VoteStep A G P n (n.handleLocalIo io) := by
  have hmap := h.mapIo fun s => { s with
    logProgress := s.logProgress.tryFlush (IOId.gt n.engine.config.mode) io }
  unfold Node.handleLocalIo
  dsimp only
  split
  · rename_i logIo l hl
    split
    · refine hmap.trans (hmap.1.afterEngine fun e' he' => ?_)
      exact hmap.1.engine.keeps (Engine.updateLocalProgress_keepsVote hl he')
    · exact hmap
  · exact hmap

theorem VoteInv.handleStateMachineResult (h : n.VoteInv A G P) (r : SmResponse NID N) :
    VoteStep A G P n (n.handleStateMachineResult r) := by
  cases r with
  | buildSnapshotDone sm =>
    exact h.ofEngine
      (h.engine.keeps (Engine.onBuildingSnapshotDone_keepsVote _ _))
  | installSnapshot io sm =>
    unfold Node.handleStateMachineResult
    dsimp only
    split <;> exact h.cursors (.ofState _ rfl) rfl (Or.inl rfl) rfl
  | apply last => exact h.cursors (.ofState _ rfl) rfl (Or.inl rfl) rfl

/-! ### Requests and responses -/

theorem VoteInv.handleVoteRequest (h : n.VoteInv A G P) (now : Nat) (src : NID)
    {req : VoteRequest NID} (hv : n.engine.Incoming A n.savedVote req.vote) :
    VoteStep A G P n (n.handleVoteRequest now src req) := by
  obtain ⟨hinv, hresp⟩ := h.engine.handleVoteReq now hv
  exact h.ofEngine (hinv.pushRespond _ (by rintro v ⟨⟩; exact hresp))

theorem VoteInv.handlePreVoteRequest (h : n.VoteInv A G P) (now : Nat) (src : NID)
    (req : VoteRequest NID) : VoteStep A G P n (n.handlePreVoteRequest now src req) := by
  refine h.ofEngine (h.engine.pushRespond _ ?_)
  rintro v ⟨⟩
  rfl

theorem VoteInv.handleAppendEntriesRequest (h : n.VoteInv A G P) (now : Nat)
    (ctx : StreamCtx NID) {req : AppendEntriesRequest NID N D}
    (hv : n.engine.Incoming A n.savedVote req.vote) :
    VoteStep A G P n (n.handleAppendEntriesRequest now ctx req) := by
  unfold Node.handleAppendEntriesRequest
  refine h.ofEngine ((h.engine.handleAppendEntries now ctx hv _ _).keeps (.ofState _ ?_))
  exact Engine.updateCommitted_voteRef _ _ _

theorem VoteInv.handleVoteResponse (h : n.VoteInv A G P) (now : Nat)
    (henv : OwnVotes A n.id) (hm : P n.engine.state.membershipState.effective.membership)
    (isPreVote : Bool) (src : NID) (candidateVote : LeaderId NID) {resp : VoteResponse NID}
    (hv : n.engine.Incoming A n.savedVote resp.vote)
    (hg : isPreVote = false → resp.voteGranted = true → resp.vote.committed = false →
      G src resp.vote.leaderId)
    (hwin : isPreVote = false → ∀ c, candidateVote = c.vote.leaderId ∧ n.engine.Wins src resp c →
      Elected G P c.vote.leaderId → A ⟨c.vote.leaderId, true⟩) :
    VoteStep A G P n (n.handleVoteResponse now isPreVote src candidateVote resp) := by
  unfold Node.handleVoteResponse
  cases isPreVote with
  | true =>
    simp only [if_true]
    split
    · exact h.ofEngine (h.engine.handlePreVoteResp now henv hm src hv)
    · exact h.refl
  | false =>
    simp only [Bool.false_eq_true, if_false]
    split
    · rename_i hsame
      refine h.afterEngine fun e' he' =>
        h.engine.handleVoteResp now henv hv (hg rfl) (fun c hw => ?_) he'
      rw [hw.candidate] at hsame
      exact hwin rfl c ⟨(Option.some.inj hsame).symm, hw⟩
    · exact h.refl

theorem VoteInv.handleHigherVote (h : n.VoteInv A G P) (now : Nat) (leaderVote : LeaderId NID)
    {higher : Vote NID} (hv : n.engine.Incoming A n.savedVote higher) :
    VoteStep A G P n (n.handleHigherVote now leaderVote higher) := by
  unfold Node.handleHigherVote
  split
  · exact h.ofEngine (h.engine.updateVote_incoming now hv).1
  · exact h.refl

theorem VoteInv.handleReplicationProgress (h : n.VoteInv A G P) (ctx : StreamCtx NID)
    (result : Engine.ReplicationResult NID) :
    VoteStep A G P n (n.handleReplicationProgress ctx result) := by
  unfold Node.handleReplicationProgress
  split
  · rename_i l hl
    exact h.afterEngine fun e' he' => h.engine.keeps (Engine.updateProgress_keepsVote hl he')
  · exact h.refl

theorem VoteInv.handleHeartbeatProgress (h : n.VoteInv A G P) (ctx : StreamCtx NID) :
    VoteStep A G P n (n.handleHeartbeatProgress ctx) :=
  h.keeps (Engine.withLeader_keepsVote fun _ hl => Engine.tryUpdateLeaderClock_keepsVote hl _ _ _)

theorem VoteInv.handleAppendEntriesResponse (h : n.VoteInv A G P) (now : Nat)
    (ctx : StreamCtx NID) {result : Except (StreamAppendError NID) (Option (LogId NID))}
    (hv : ∀ v, result = .error (.higherVote v) → n.engine.Incoming A n.savedVote v) :
    VoteStep A G P n (n.handleAppendEntriesResponse now ctx result) := by
  unfold Node.handleAppendEntriesResponse
  split
  · exact h.refl
  · split
    · exact h.refl
    · exact h.handleReplicationProgress ctx _
  · exact h.handleReplicationProgress ctx _
  · exact h.handleHigherVote now _ (hv _ rfl)

theorem VoteInv.handleInstallSnapshotResponse (h : n.VoteInv A G P) (now : Nat)
    (ctx : StreamCtx NID) (lastLogId : Option (LogId NID)) {v : Vote NID}
    (hv : n.engine.Incoming A n.savedVote v) :
    VoteStep A G P n (n.handleInstallSnapshotResponse now ctx lastLogId v) := by
  unfold Node.handleInstallSnapshotResponse
  split
  · exact h.handleHigherVote now _ hv
  · exact h.handleReplicationProgress ctx _

theorem VoteInv.handleTransferLeader (h : n.VoteInv A G P) (now : Nat)
    (henv : OwnVotes A n.id) (hm : P n.engine.state.membershipState.effective.membership)
    (V : LeaderId NID) (target : NID) (lastLogId : Option (LogId NID)) :
    VoteStep A G P n (n.handleTransferLeader now V target lastLogId) := by
  unfold Node.handleTransferLeader
  dsimp only
  split
  · have hlease : Engine.VoteInv A G P n.engine.frame n.savedVote { n.engine with
        state := { n.engine.state with vote := n.engine.state.vote.disableLease } } :=
      h.engine.keeps (.ofState _ rfl)
    split
    · exact h.ofEngine (hlease.doElect now henv hm true)
    · exact h.ofEngine hlease
  · exact h.refl

/-! ### Requests of the application and replication -/

omit [LinearOrder NID] in
theorem ensureLeaderHandler_some {l : Leader NID N} (h : n.ensureLeaderHandler = some l) :
    n.engine.leader = some l :=
  (Option.filter_eq_some_iff.1 h).1

theorem VoteInv.writeEntries (h : n.VoteInv A G P) (now : Nat)
    (payloads : List (Payload NID N D)) : VoteStep A G P n (n.writeEntries now payloads) := by
  unfold Node.writeEntries
  split
  · rename_i l hl
    have hlead := ensureLeaderHandler_some (Option.filter_eq_some_iff.1 hl).1
    exact h.keeps (Engine.leaderAppendEntries_keepsVote hlead _)
  · exact h.refl

theorem VoteInv.changeMembership (h : n.VoteInv A G P) (now : Nat)
    (changes : ChangeMembers NID N) (retain : Bool) :
    VoteStep A G P n (n.changeMembership now changes retain) := by
  unfold Node.changeMembership
  repeat' split
  · exact h.refl
  · exact h.outside rfl rfl (Or.inl rfl) rfl
  · exact h.refl
  · exact h.writeEntries now _

theorem VoteInv.appendMembership [DecidableEq N] (h : n.VoteInv A G P) (now : Nat)
    (membership : Membership NID N) :
    VoteStep A G P n (n.appendMembership now membership) := by
  unfold Node.appendMembership
  repeat' split
  · exact h.refl
  · exact h.refl
  · exact h.refl
  · exact h.writeEntries now _

/-- A request on a stream carries the vote of the leader that the stream works for. -/
theorem VoteInv.sendRequest (h : n.VoteInv A G P) {V : LeaderId NID} {ts : List (NID × Nat)}
    (hst : n.streams = some (V, ts)) {msg : Message NID N D} (hv : msg.vote? = some ⟨V, true⟩)
    (hg : ∀ src l, ¬ msg.Grants src l) : VoteStep A G P n (n.send [msg]) := by
  obtain ⟨hid, hle, hA⟩ := h.streams V ts hst
  refine h.send ?_
  intro msg' hmsg'
  obtain rfl := List.mem_singleton.1 hmsg'
  refine ⟨?_, fun src l hgrant => absurd hgrant (hg src l)⟩
  intro v hv'
  obtain rfl : (⟨V, true⟩ : Vote NID) = v := Option.some.inj (hv.symm.trans hv')
  exact ⟨hA, fun _ => hle⟩

theorem VoteInv.sendOnStream (h : n.VoteInv A G P) (hsend : n.SendsOnStream n') :
    VoteStep A G P n n' := by
  cases hsend with
  | appendEntries hst | snapshot hst => exact h.sendRequest hst rfl nofun

/-! ### Restart -/

theorem cleanHole_vote {store store' : LogStore NID N D} {applied : Option (LogId NID)}
    (h : cleanHole store applied = some store') : store'.vote = store.vote := by
  unfold cleanHole at h
  repeat' split at h
  all_goals cases h
  all_goals rfl

/-- What a node starts with: the saved vote. -/
theorem getInitialState_vote {id : NID} {now : Nat} {store store' : LogStore NID N D}
    {sm sm' : StateMachine NID N D} {state : RaftState NID N}
    (h : getInitialState id now store sm = some (state, store', sm')) :
    state.voteRef = store.vote.getD ⟨⟨0, id⟩, false⟩ ∧ store'.vote = store.vote := by
  unfold getInitialState at h
  dsimp only at h
  split at h
  · cases h
  · obtain ⟨⟨sm1, applied⟩, -, h⟩ := Option.bind_eq_some_iff.1 h
    obtain ⟨cleaned, hclean, heq⟩ := Option.map_eq_some_iff.1 h
    obtain ⟨rfl, rfl, rfl⟩ : _ ∧ _ ∧ _ := by simpa only [Prod.mk.injEq] using heq
    exact ⟨rfl, cleanHole_vote hclean⟩

theorem start_voteInv {config : EngineConfig NID} {incarnation : Nat}
    {sent : List (Message NID N D)} {now : Nat} {store : LogStore NID N D}
    {sm : StateMachine NID N D} (henv : OwnVotes A config.id)
    (hA : A (store.vote.getD ⟨⟨0, config.id⟩, false⟩))
    (hout : OutOK A config.mode config.id (store.vote.getD ⟨⟨0, config.id⟩, false⟩) sent)
    (h : Node.start config incarnation sent now store sm = some n) :
    n.VoteInv A G P ∧ n.engine.config = config ∧ n.sent = sent ∧ n.store.vote = store.vote := by
  obtain ⟨⟨state, store', sm'⟩, hinit, rfl⟩ := Option.map_eq_some_iff.1 h
  obtain ⟨hvote, hstore⟩ := getInitialState_vote hinit
  have hinv := Engine.voteInv_startup (D := D) (G := G) (P := P) config state now henv
    (by rw [hvote]; exact hA)
  have hconfig : ((Engine.new state config).startup now : Engine NID N D).config = config :=
    congrArg Prod.fst hinv.frame
  have hpending : ((Engine.new state config).startup now : Engine NID N D).output.pendingResponds =
      ⟨[], []⟩ := congrArg Prod.snd hinv.frame
  refine ⟨⟨?_, ?_, nofun, ?_⟩, hconfig, rfl, hstore⟩
  · unfold savedVote Node.id
    rw [hconfig, hstore]
    exact hA
  · unfold savedVote Node.id
    rw [hinv.frame, hconfig, hstore, ← hvote]
    exact hinv
  · unfold savedVote Node.out Node.id
    rw [hconfig, hstore, hpending]
    simpa using hout

theorem VoteInv.restart (h : n.VoteInv A G P) (henv : OwnVotes A n.id)
    (now keep appliedKeep : Nat) : VoteStep A G P n (n.restart now keep appliedKeep) := by
  have hsent : OutOK A n.engine.config.mode n.id n.savedVote n.sent := by
    refine h.out.subset fun msg hmsg => ?_
    unfold Node.out
    simp only [List.mem_append]
    exact Or.inl (Or.inl hmsg)
  unfold Node.restart
  dsimp only
  generalize hs : Node.start n.engine.config (n.incarnation + 1) n.sent now
    (n.store.crash keep) _ = r
  cases r with
  | none => exact h.outside rfl rfl (Or.inl rfl) rfl
  | some n' =>
    obtain ⟨hinv, hconfig, hsent', hvote⟩ := start_voteInv henv
      (by exact h.saved) (by exact hsent) hs
    refine ⟨hinv, hconfig, fun msg hmsg => by rw [Option.getD_some, hsent']; exact hmsg,
      Or.inl ?_⟩
    rw [Option.getD_some, savedVote, savedVote, hvote, Node.id, Node.id, hconfig]
    rfl

/-! ### All events -/

/-- What has to hold of a message that arrives. -/
structure Receivable (A : Vote NID → Prop) (G : NID → LeaderId NID → Prop) (n : Node NID N D)
    (msg : Message NID N D) : Prop where
  incoming : ∀ v ∈ msg.vote?, n.engine.Incoming A n.savedVote v
  granted : ∀ src l, msg.Grants src l → G src l

/-- A message that makes the candidate `c` of a node the leader. -/
def Wins (n : Node NID N D) (c : Candidate NID N) : Message NID N D → Prop
  | .voteResp false src _ candidateVote resp =>
    candidateVote = c.vote.leaderId ∧ n.engine.Wins src resp c
  | _ => False

theorem candidate_of_wins {c : Candidate NID N} {msg : Message NID N D} (h : n.Wins c msg) :
    n.engine.candidate = some c := by
  rcases msg with _ | ⟨_ | _, _, _, _, _⟩ | _ | _ | _ | _ | _ | _
  · exact h.elim
  · exact h.2.candidate
  all_goals exact h.elim

theorem VoteInv.receive (h : n.VoteInv A G P) (henv : OwnVotes A n.id)
    (hm : P n.engine.state.membershipState.effective.membership) {now : Nat}
    {msg : Message NID N D} (hmsg : Receivable A G n msg)
    (hwin : ∀ c, n.Wins c msg → Elected G P c.vote.leaderId → A ⟨c.vote.leaderId, true⟩)
    (he : n.receive now msg = some n') :
    VoteStep A G P n n' := by
  cases msg with
  | vote isPreVote src dst req =>
    cases isPreVote with
    | true =>
      obtain rfl := Option.some.inj he
      exact h.handlePreVoteRequest now src req
    | false =>
      obtain rfl := Option.some.inj he
      exact h.handleVoteRequest now src (hmsg.incoming _ rfl)
  | voteResp isPreVote src dst candidateVote resp =>
    obtain rfl := Option.some.inj he
    refine h.handleVoteResponse now henv hm isPreVote src candidateVote
      (hmsg.incoming _ rfl) ?_ ?_
    · rintro rfl hgr hcom
      refine hmsg.granted src _ ⟨rfl, hgr, ?_⟩
      rw [← hcom]
    · rintro rfl
      exact hwin
  | appendEntries ctx req =>
    obtain rfl := Option.some.inj he
    exact h.handleAppendEntriesRequest now ctx (hmsg.incoming _ rfl)
  | appendEntriesResp ctx result =>
    unfold Node.receive at he
    simp only [Option.ite_none_right_eq_some, Option.some.injEq] at he
    obtain ⟨-, rfl⟩ := he
    refine h.handleAppendEntriesResponse now ctx ?_
    rintro v rfl
    exact hmsg.incoming v rfl
  | installFullSnapshot ctx v snapshot =>
    obtain rfl := Option.some.inj he
    exact h.afterEngine fun e' he' =>
      h.engine.handleInstallFullSnapshot now (hmsg.incoming _ rfl) he'
  | installFullSnapshotResp ctx lastLogId v =>
    unfold Node.receive at he
    simp only [Option.ite_none_right_eq_some, Option.some.injEq] at he
    obtain ⟨-, rfl⟩ := he
    exact h.handleInstallSnapshotResponse now ctx lastLogId (hmsg.incoming _ rfl)
  | transferLeader dst V target lastLogId =>
    obtain rfl := Option.some.inj he
    exact h.handleTransferLeader now henv hm V target lastLogId
  | initializeResp node error => exact absurd he (by simp [Node.receive])

theorem VoteInv.receiveClock (h : n.VoteInv A G P) {msg : Message NID N D}
    (he : n.receiveClock msg = some n') : VoteStep A G P n n' := by
  unfold Node.receiveClock at he
  repeat' split at he
  all_goals cases he
  all_goals exact h.handleHeartbeatProgress _

theorem VoteInv.updateInternalServerState (h : n.VoteInv A G P) (now : Nat) :
    VoteStep A G P n (n.withEngine (n.engine.updateInternalServerState now)) := by
  refine h.ofEngine (h.engine.toVoteCore.updateInternalServerState now ?_ ?_)
  · intro V hV
    obtain ⟨hv, hid⟩ := h.engine.leader V hV
    exact ⟨hid, Or.inl hv⟩
  · intro c hc
    obtain ⟨hok, hV⟩ := h.engine.candidate c hc
    exact ⟨hok, Or.inl hV⟩

theorem VoteInv.perform [DecidableEq N] (h : n.VoteInv A G P) (henv : OwnVotes A n.id)
    (hm : P n.engine.state.membershipState.effective.membership) {now : Nat}
    {ev : Event NID N D} (hmsg : ∀ msg, ev = .receive msg → Receivable A G n msg)
    (hwin : ∀ msg, ev = .receive msg → ∀ c, n.Wins c msg → Elected G P c.vote.leaderId →
      A ⟨c.vote.leaderId, true⟩)
    (he : n.perform now ev = some n') : VoteStep A G P n n' := by
  cases ev with
  | receive msg => exact h.receive henv hm (hmsg msg rfl) (hwin msg rfl) he
  | receiveClock msg => exact h.receiveClock he
  | runCommand => exact h.runCommand he
  | runProgressDrivenCommand => exact h.runProgressDrivenCommand he
  | sendSatisfiedOnLogIo => exact h.sendSatisfiedOnLogIo he
  | sendSatisfiedOnSnapshot => exact h.sendSatisfiedOnSnapshot he
  | flush => exact h.flush he
  | workerLoop => exact h.workerLoop he
  | localIo io =>
    simp only [Node.perform, Option.ite_none_right_eq_some, Option.some.injEq] at he
    obtain ⟨-, rfl⟩ := he
    exact h.handleLocalIo io
  | stateMachineResult =>
    unfold Node.perform at he
    dsimp only at he
    split at he
    · cases he
    · rename_i r rest hdone
      obtain rfl := Option.some.inj he
      have hrest : VoteStep A G P n { n with smDone := rest } :=
        h.outside rfl rfl (Or.inl rfl) rfl
      exact hrest.trans (hrest.1.handleStateMachineResult _)
  | elect =>
    obtain rfl := Option.some.inj he
    exact h.ofEngine (h.engine.doElect now henv hm false)
  | preElect =>
    obtain rfl := Option.some.inj he
    exact h.ofEngine (h.engine.preElect now henv hm)
  | triggerSnapshot =>
    obtain rfl := Option.some.inj he
    exact h.keeps (Engine.triggerSnapshot_keepsVote _)
  | purgeLog index =>
    obtain rfl := Option.some.inj he
    exact h.afterEngine fun e' he' => h.engine.keeps (Engine.triggerPurgeLog_keepsVote he')
  | triggerTransferLeader target =>
    obtain rfl := Option.some.inj he
    exact h.keeps (Engine.withLeader_keepsVote fun _ hl =>
      Engine.transferLeader_keepsVote hl target)
  | refreshServerState =>
    obtain rfl := Option.some.inj he
    exact h.updateInternalServerState now
  | initiateReplication =>
    obtain rfl := Option.some.inj he
    exact h.keeps (Engine.withLeader_keepsVote fun _ hl =>
      Engine.initiateReplication_keepsVote hl)
  | replicationError target streamId inflightId =>
    obtain ⟨l, hl, rfl⟩ := Option.map_eq_some_iff.1 he
    exact h.afterEngine fun e' he' => h.engine.keeps (Engine.updateProgress_keepsVote hl he')
  | write data =>
    obtain rfl := Option.some.inj he
    exact h.writeEntries now _
  | changeMembership changes retain =>
    obtain rfl := Option.some.inj he
    exact h.changeMembership now changes retain
  | appendMembership membership =>
    obtain rfl := Option.some.inj he
    exact h.appendMembership now membership
  | sendAppendEntries target prev count inflightId =>
    exact h.sendOnStream (sendAppendEntries_sends he)
  | sendHeartbeat target => exact h.sendOnStream (sendHeartbeat_sends he)
  | sendSnapshot target inflightId => exact h.sendOnStream (sendSnapshot_sends he)
  | restart keep appliedKeep =>
    obtain rfl := Option.some.inj he
    exact h.restart henv now keep appliedKeep

theorem perform_of_step [DecidableEq N] {now : Nat} {ev : Event NID N D}
    (he : n.step now ev = some n') : n.perform now ev = some n' := by
  unfold Node.step at he
  split at he
  · cases he
  · exact he

/-- Every event keeps the invariant of elections. -/
theorem VoteInv.step [DecidableEq N] (h : n.VoteInv A G P) (henv : OwnVotes A n.id)
    (hm : P n.engine.state.membershipState.effective.membership) {now : Nat}
    {ev : Event NID N D} (hmsg : ∀ msg, ev = .receive msg → Receivable A G n msg)
    (hwin : ∀ msg, ev = .receive msg → ∀ c, n.Wins c msg → Elected G P c.vote.leaderId →
      A ⟨c.vote.leaderId, true⟩)
    (he : n.step now ev = some n') : VoteStep A G P n n' :=
  h.perform henv hm hmsg hwin (perform_of_step he)

/-- More may be adopted and more is granted. -/
theorem VoteInv.mono {A' : Vote NID → Prop} {G' : NID → LeaderId NID → Prop}
    (h : n.VoteInv A G P) (hA : ∀ v, A v → A' v) (hG : ∀ k l, G k l → G' k l) :
    n.VoteInv A' G' P := by
  have hcmd : ∀ mode id (r : Vote NID) (c : Command NID N D), c.VoteOK A mode id r →
      c.VoteOK A' mode id r := by
    intro mode id r c hc
    cases c with
    | saveVote v => exact ⟨hc.1, hA v hc.2⟩
    | respond w resp => exact fun v hv => ⟨(hc v hv).1, hA v (hc v hv).2⟩
    | sendVote isPreVote req => exact fun hp => ⟨(hc hp).1, hA _ (hc hp).2.1, (hc hp).2.2⟩
    | rebuildReplicationStreams V targets closeOld => exact ⟨hc.1, hc.2.1, hA _ hc.2.2⟩
    | _ => trivial
  obtain ⟨hsaved, ⟨⟨hframe, hqueue, hmem, hadm⟩, hl, hcand⟩, hstreams, hout⟩ := h
  refine ⟨hA _ hsaved, ⟨⟨hframe, hqueue.mono fun r c hc => hcmd _ _ r c hc, hmem, hA _ hadm⟩,
    hl, ?_⟩, ?_, ?_, hout.grants, hout.unique⟩
  · intro c hc
    obtain ⟨hok, hV⟩ := hcand c hc
    exact ⟨⟨hok.uncommitted, hok.own, hok.quorumSet, hok.sound, fun item hitem htrue =>
      hG _ _ (hok.granted item hitem htrue)⟩, hV⟩
  · intro V ts hV
    obtain ⟨hid, hle, hAV⟩ := hstreams V ts hV
    exact ⟨hid, hle, hA _ hAV⟩
  · intro msg hmsg v hv
    exact ⟨hA v (hout.votes msg hmsg v hv).1, (hout.votes msg hmsg v hv).2⟩

/-- A node has the vote `v`: as its own, saved, in a command, for its leadership or its streams,
    or in a message. -/
inductive HasVote (n : Node NID N D) (v : Vote NID) : Prop where
  | memory (h : n.engine.state.voteRef = v)
  | saved (h : n.savedVote = v)
  | command (c : Command NID N D) (hc : c ∈ n.engine.output.commands) (h : v ∈ c.votes)
  | leader (l : Leader NID N) (hl : n.engine.leader = some l) (h : v = ⟨l.committedVote, true⟩)
  | streams (V : LeaderId NID) (ts : List (NID × Nat)) (hst : n.streams = some (V, ts))
      (h : v = ⟨V, true⟩)
  | message (msg : Message NID N D) (hmsg : msg ∈ n.out) (h : v ∈ msg.vote?)

/-- All votes of a node are admitted. -/
theorem VoteInv.admitted (h : n.VoteInv A G P) {v : Vote NID} (hv : n.HasVote v) : A v := by
  cases hv with
  | memory hv => exact hv ▸ h.engine.admitted
  | saved hv => exact hv ▸ h.saved
  | command c hc hv =>
    obtain ⟨r, hok⟩ := h.engine.queue.exists_of_mem hc
    exact Command.VoteOK.admitted hok hv
  | leader l hl hv =>
    have hadm := h.engine.admitted
    rw [(h.engine.leader l.committedVote (Engine.leaderVote_eq hl)).1] at hadm
    exact hv ▸ hadm
  | streams V ts hst hv => exact hv ▸ (h.streams V ts hst).2.2
  | message msg hmsg hv => exact (h.out.votes msg hmsg v hv).1

end Node

end ZenohRaft
