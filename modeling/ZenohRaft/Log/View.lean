/-
  The log of a node as its storage will have it.

  A `View` is a vote with a log, and the leader that the replication streams work for. The storage
  of a node is a view, and the commands that wait in the queue of the engine move it on
  (`View.step`) until it is what the engine has in memory. `Command.LogOK` says what holds of a
  command in the view that it will find; this is all that the handlers of the engine have to
  establish. From it:

  * `View.OK.step`: the log of every view is a path of the history.
  * `full_truncate`, `full_purge`, `full_purge_ahead`: what becomes of the log.

  The purged part of a log is not stored, so `View.full` takes it from the history.
-/
import ZenohRaft.Lib.WriteBehind
import ZenohRaft.Log.History
import ZenohRaft.Node

namespace ZenohRaft

open Lib

variable {NID N D : Type} [LinearOrder NID]

/-- A vote and a log, the last log id that was appended under this vote, the last io that was
    submitted, the leader that the replication streams work for, and the committed log id that they
    send. -/
structure View (NID N D : Type) where
  vote : Vote NID
  purged : Option (LogId NID)
  entries : List (Entry NID N D)
  io : Option (LogId NID)
  submitted : IOId NID
  streams : Option (LeaderId NID)
  watch : Option (LogId NID)

namespace View

/-- The view after a command of the engine. -/
def step (X : View NID N D) : Command NID N D → View NID N D
  | .saveVote v => { X with vote := v, io := none, submitted := .new v }
  | .appendEntries V es => { X with
      entries := X.entries ++ es
      io := tipId es
      submitted := .newLogIo V (tipId es) }
  | .updateIOProgress _ io => { X with submitted := io }
  | .stateMachine (.installFullSnapshot io _) => { X with submitted := .log io }
  | .truncateLog after => { X with
      entries := X.entries.filter fun ent => decide (ent.logId.index < nextIndex after) }
  | .purgeLog upto => { X with
      purged := some upto
      entries := X.entries.filter fun ent => decide (upto.index < ent.logId.index) }
  | .rebuildReplicationStreams V _ _ => { X with streams := some V }
  | .closeReplicationStreams => { X with streams := none }
  | .replicateCommitted c => { X with watch := max X.watch c }
  | _ => X

/-- The whole log, the purged part included. -/
def full (h : History NID N D) (X : View NID N D) : List (Entry NID N D) :=
  h.upTo X.purged ++ X.entries

end View

/-- Entries of the epoch may be in a log under the vote `v`: its leader had a vote that is not
    greater. The entry that a cluster starts with is of term 0. -/
def Vote.Covers (mode : LeaderIdMode) (v : Vote NID) (k : CommittedLeaderId NID) : Prop :=
  toLex (k, true) ≤ v.rank mode ∨ k.term = 0

/-- What holds of every view. -/
structure View.OK (mode : LeaderIdMode) (h : History NID N D) (X : View NID N D) : Prop where
  purged : ∀ p, X.purged = some p → HasId (h.log p.leaderId) p
  log : h.IsLog (X.full h)
  known : ∀ x, HasId (X.full h) x → X.vote.Covers mode x.leaderId
  led : X.vote.committed = true → h.leader X.vote.leaderId
  submitted : X.submitted.toVote = X.vote
  streams : ∀ V, X.streams = some V → h.leader V ∧ X.full h <+: h.log (V.toCommitted mode)
  watch : ∀ c, X.watch = some c → h.Com mode X.vote c ∧
    ∀ V, X.streams = some V → h.Com mode ⟨V, true⟩ c

theorem View.OK.leader_of {mode : LeaderIdMode} {h : History NID N D} {X : View NID N D}
    (hX : X.OK mode h) {V : LeaderId NID} (hXV : X.vote = ⟨V, true⟩) : h.leader V := by
  have hled := hX.led
  rw [hXV] at hled
  exact hled rfl

/-! ## Commands -/

/-- Where a log leaves that of the leader: at the index of `z`, which the leader has. -/
def Conflict (l l' : List (Entry NID N D)) (z : LogId NID) : Prop :=
  HasId l' z ∧ ∃ y, HasId l y ∧ y.index = z.index ∧ y ≠ z

namespace View

variable (mode : LeaderIdMode) (h : History NID N D) (X : View NID N D)

/-- Entries of the current leader are appended. -/
def AppendOK (V : LeaderId NID) (es : List (Entry NID N D)) : Prop :=
  X.vote = ⟨V, true⟩ ∧ es ≠ [] ∧ X.full h ++ es <+: h.log (V.toCommitted mode) ∧
    (∀ W, X.streams = some W → W = V) ∧ X.submitted.lastLogId ≤ tipId es

/-- The log is truncated because it conflicts with the current leader, from the conflict on, or
    from an earlier index on if the leader has sent a snapshot up to the conflict. -/
def TruncateOK (after : Option (LogId NID)) : Prop :=
  X.vote.committed = true ∧ nextIndex X.purged ≤ nextIndex after ∧
    ∃ z, Conflict (X.full h) (h.log (X.vote.leaderId.toCommitted mode)) z ∧
      (nextIndex after = z.index ∨ nextIndex after < z.index ∧ h.Com mode X.vote z)

/-- The log is purged up to an id that it has, or up to the end of a snapshot that is ahead. -/
def PurgeOK (upto : LogId NID) : Prop :=
  nextIndex X.purged ≤ upto.index ∧ (HasId (X.full h) upto ∨
    X.vote.committed = true ∧ h.Com mode X.vote upto ∧ (X.full h).length ≤ upto.index ∧
      X.streams = none)

/-- Streams are opened for a leader that has this log. -/
def StreamsOK (V : LeaderId NID) : Prop :=
  h.leader V ∧ X.full h <+: h.log (V.toCommitted mode) ∧ X.vote.rank mode ≤ Vote.rank mode ⟨V, true⟩

/-- What is reported as durable without being written: it was written under an earlier vote. -/
def ReportOK (io : IOId NID) : Prop :=
  io.toVote = X.vote ∧ X.io = none ∧ X.submitted.lastLogId ≤ io.lastLogId ∧
    ∀ x, io.lastLogId = some x →
      HasId (X.full h) x ∧ HasId (h.log (X.vote.leaderId.toCommitted mode)) x

/-- What a response promises. The entries that a follower says it has are in its log and in that
    of the leader; a vote is given to a candidate whose log is not behind; a committed vote that is
    above that of the leader is one of a leader; a snapshot that is acknowledged ends at a log id
    that the leader knows to be committed. -/
def RespondOK (id : NID) (condition : Option (Condition NID)) : Respond NID → Prop
  | .appendEntries ctx (.ok last) => ctx.target = id ∧ X.vote = ⟨ctx.leaderVote, true⟩ ∧
      ∃ a, condition = some (.ioFlushed a) ∧ a.toVote = X.vote ∧ last ≤ a.lastLogId ∧
        Holds (X.full h) a.lastLogId ∧ Holds (h.log (ctx.leaderVote.toCommitted mode)) a.lastLogId ∧
        Holds (h.log (ctx.leaderVote.toCommitted mode)) last
  | .vote false _ _ resp => resp.voteGranted = true → resp.vote = X.vote ∧
      X.vote.committed = false ∧ condition = some (.ioFlushed (.new X.vote)) ∧
        ∃ last, h.asked X.vote.leaderId last ∧ tipId (X.full h) ≤ last
  | .appendEntries _ (.error (.higherVote v)) => v.committed = true → h.leader v.leaderId
  | .installFullSnapshot ctx last _ => ∀ x, last = some x →
      h.leader ctx.leaderVote ∧ h.com (ctx.leaderVote.toCommitted mode) x
  | _ => True

end View

/-- A snapshot that is sent has what the leader knows to be committed up to its end. -/
def History.SnapshotOK (mode : LeaderIdMode) (h : History NID N D) (V : LeaderId NID)
    (snapshot : Snapshot NID N D) : Prop :=
  ∀ x, snapshot.snapshotMeta.lastLogId = some x → h.com (V.toCommitted mode) x ∧
    snapshot.snapshotMeta.lastMembership = lastMembershipIn (h.upTo (some x)) ∧
    snapshot.data = h.upTo (some x)

/-- What has to hold of a command of the node `id` in the view that it finds. Handlers push no
    command to apply entries. -/
def Command.LogOK (mode : LeaderIdMode) (h : History NID N D) (id : NID) (X : View NID N D) :
    Command NID N D → Prop
  | .saveVote v => X.vote.rank mode < v.rank mode ∧ (v.committed = true → h.leader v.leaderId) ∧
      (v.committed = true → v.leaderId.nodeId = id →
        X.full h <+: h.log (v.leaderId.toCommitted mode))
  | .appendEntries V es => X.AppendOK mode h V es
  | .truncateLog after => X.TruncateOK mode h after
  | .purgeLog upto => X.PurgeOK mode h upto ∧ h.Com mode X.vote upto
  | .rebuildReplicationStreams V targets _ => X.StreamsOK mode h V ∧ V.nodeId = id ∧
      ∀ t ∈ targets, t.1 ≠ id
  | .replicateCommitted c => ∃ V, X.vote = ⟨V, true⟩ ∧ X.streams = some V ∧
      ∀ x, c = some x → h.com (V.toCommitted mode) x
  | .updateIOProgress _ io => X.ReportOK mode h io
  | .sendVote false req => req.vote.committed = false ∧ req.vote.leaderId.nodeId = id ∧
      req.vote.leaderId.term ≠ 0 ∧ req.vote = X.vote ∧ req.lastLogId = tipId (X.full h)
  | .respond condition resp => X.RespondOK mode h id condition resp
  | .stateMachine (.installFullSnapshot io snapshot) => X.vote = ⟨io.committedVote, true⟩ ∧
      (∃ x, io.logId = some x ∧ snapshot.snapshotMeta.lastLogId = some x) ∧
        h.SnapshotOK mode io.committedVote snapshot
  | .stateMachine (.apply _ _) => False
  | .saveCommittedAndApply _ _ => False
  | _ => True

/-! ## The log of a view -/

namespace View

variable {mode : LeaderIdMode} {h : History NID N D} {X : View NID N D}

theorem length_upTo_purged (hX : X.OK mode h) : (h.upTo X.purged).length = nextIndex X.purged := by
  cases hp : X.purged with
  | none => rfl
  | some p => exact History.length_upTo (hX.purged p hp)

theorem OK.indexed (hX : X.OK mode h) : IndexedFrom (nextIndex X.purged) X.entries := by
  have hfull : IndexedFrom 0 (h.upTo X.purged ++ X.entries) := hX.log.2
  have hentries := (indexedFrom_append.1 hfull).2
  rw [Nat.zero_add, length_upTo_purged hX] at hentries
  exact hentries

theorem OK.length_full (hX : X.OK mode h) :
    (X.full h).length = nextIndex X.purged + X.entries.length := by
  rw [full, List.length_append, length_upTo_purged hX]

theorem OK.drop_full (hX : X.OK mode h) : (X.full h).drop (nextIndex X.purged) = X.entries := by
  rw [full, ← length_upTo_purged hX, List.drop_left]

theorem full_truncate (hX : X.OK mode h) {after : Option (LogId NID)}
    (hafter : nextIndex X.purged ≤ nextIndex after) :
    (X.step (.truncateLog after)).full h = (X.full h).take (nextIndex after) := by
  show h.upTo X.purged ++ X.entries.filter _ = (h.upTo X.purged ++ X.entries).take _
  have hlen := length_upTo_purged hX
  rw [hX.indexed.filter_lt, List.take_append, hlen,
    List.take_of_length_le (by omega : (h.upTo X.purged).length ≤ nextIndex after)]

/-- The ids that are purged stay in the log. -/
theorem full_purge (hX : X.OK mode h) {upto : LogId NID}
    (hlt : nextIndex X.purged ≤ upto.index) (hx : HasId (X.full h) upto) :
    (X.step (.purgeLog upto)).full h = X.full h := by
  have hdrop : X.entries.filter (fun ent => decide (upto.index < ent.logId.index)) =
      (X.full h).drop (upto.index + 1) := by
    have hsplit : upto.index + 1 = nextIndex X.purged + (upto.index + 1 - nextIndex X.purged) := by
      omega
    have hfilter := hX.indexed.filter_ge (upto.index + 1)
    simp only [Nat.succ_le_iff] at hfilter
    rw [hfilter, hsplit, ← List.drop_drop, hX.drop_full, ← hsplit]
  show h.upTo (some upto) ++ X.entries.filter _ = _
  rw [hdrop, ← hX.log.take_eq_upTo hx, List.take_append_drop]

/-- The end of a snapshot that is ahead of the log takes the place of the log. -/
theorem full_purge_ahead (hX : X.OK mode h) {upto : LogId NID}
    (hlen : (X.full h).length ≤ upto.index) :
    (X.step (.purgeLog upto)).full h = h.upTo (some upto) := by
  have hfilter := hX.indexed.filter_ge (upto.index + 1)
  simp only [Nat.succ_le_iff] at hfilter
  have hlen' := hX.length_full
  show h.upTo (some upto) ++ X.entries.filter _ = _
  rw [hfilter, List.drop_eq_nil_of_le (by omega), List.append_nil]

theorem full_append (V : LeaderId NID) (es : List (Entry NID N D)) :
    (X.step (.appendEntries V es)).full h = X.full h ++ es := by
  show h.upTo X.purged ++ (X.entries ++ es) = _
  rw [← List.append_assoc]
  rfl

end View

/-! ## Steps -/

theorem Vote.Covers.mono {mode : LeaderIdMode} {v v' : Vote NID} {k : CommittedLeaderId NID}
    (hk : v.Covers mode k) (hv : v.rank mode ≤ v'.rank mode) : v'.Covers mode k := by
  unfold Vote.Covers at *
  rcases hk with hk | hk
  · exact Or.inl (hk.trans hv)
  · exact Or.inr hk

namespace History.Sound

variable {mode : LeaderIdMode} {h : History NID N D} (hs : h.Sound mode)
include hs

/-- What is in the log of a leader is of this epoch or an earlier one. -/
theorem covers_of_hasId {V : LeaderId NID} {v : Vote NID} {x : LogId NID}
    (hx : HasId (h.log (V.toCommitted mode)) x) (hv : Vote.rank mode ⟨V, true⟩ ≤ v.rank mode) :
    v.Covers mode x.leaderId := by
  have hle : x.leaderId ≤ V.toCommitted mode := hs.logs.epoch_le _ _ _ hx
  left
  refine le_trans ?_ hv
  rcases hle.lt_or_eq with hlt | heq
  · exact (Prod.Lex.lt_iff.2 (Or.inl hlt)).le
  · rw [heq]
    exact le_rfl

theorem covers_of_com {v : Vote NID} {x y : LogId NID} (hc : h.Com mode v x)
    (hy : HasId (h.upTo (some x)) y) : v.Covers mode y.leaderId := by
  obtain ⟨l, -, hcom, hr⟩ := hs.com_below hc hy
  exact hs.covers_of_hasId (hs.com_mem _ y hcom) hr

end History.Sound

namespace View

variable {mode : LeaderIdMode} {h : History NID N D} {X : View NID N D}

/-- A view with a part of the log of another one, and the same vote and streams. -/
theorem OK.of_le (hX : X.OK mode h) {X' : View NID N D} (hvote : X'.vote = X.vote)
    (hsub : X'.submitted = X.submitted) (hstreams : X'.streams = X.streams)
    (hwatch : X'.watch = X.watch)
    (hpurged : ∀ p, X'.purged = some p → HasId (h.log p.leaderId) p)
    (hfull : X'.full h <+: X.full h) : X'.OK mode h := by
  refine ⟨hpurged, hX.log.of_le hfull, ?_, ?_, ?_, ?_, ?_⟩
  · intro x hx
    rw [hvote]
    exact hX.known x (At.mono hx hfull)
  · rw [hvote]
    exact hX.led
  · rw [hsub, hvote]
    exact hX.submitted
  · intro V hV
    rw [hstreams] at hV
    exact ⟨(hX.streams V hV).1, hfull.trans (hX.streams V hV).2⟩
  · rw [hvote, hstreams, hwatch]
    exact hX.watch

theorem OK.saveVote (hX : X.OK mode h) {v : Vote NID} (hv : X.vote.rank mode ≤ v.rank mode)
    (hled : v.committed = true → h.leader v.leaderId) : (X.step (.saveVote v)).OK mode h := by
  refine ⟨hX.purged, hX.log, ?_, hled, IOId.toVote_new v, hX.streams, ?_⟩
  · intro x hx
    exact (hX.known x hx).mono hv
  · intro c hc
    obtain ⟨hcom, hstreams⟩ := hX.watch c hc
    exact ⟨hcom.mono hv, hstreams⟩

theorem OK.append (hs : h.Sound mode) (hX : X.OK mode h) {V : LeaderId NID}
    {es : List (Entry NID N D)} (hes : X.AppendOK mode h V es) :
    (X.step (.appendEntries V es)).OK mode h := by
  obtain ⟨hvote, -, hle, hstreams, -⟩ := hes
  have hfull := full_append (h := h) (X := X) V es
  refine ⟨hX.purged, ?_, ?_, hX.led, hvote.symm, ?_, hX.watch⟩
  · rw [hfull]
    exact (hs.isLog_log _).of_le hle
  · intro x hx
    rw [hfull] at hx
    refine hs.covers_of_hasId (At.mono hx hle) ?_
    show _ ≤ X.vote.rank mode
    rw [hvote]
  · intro W hW
    obtain rfl := hstreams W hW
    rw [hfull]
    exact ⟨(hX.streams W hW).1, hle⟩

theorem OK.purge (hs : h.Sound mode) (hX : X.OK mode h) {upto : LogId NID}
    (hp : X.PurgeOK mode h upto) : (X.step (.purgeLog upto)).OK mode h := by
  obtain ⟨hlt, hp⟩ := hp
  rcases hp with hx | ⟨hcommitted, hcom, hlen, hstreams⟩
  · refine hX.of_le rfl rfl rfl rfl ?_ (by rw [full_purge hX hlt hx])
    intro p hp
    obtain rfl := Option.some.inj hp
    exact hX.log.1.at_log hx
  · have hfull := full_purge_ahead hX hlen
    refine ⟨?_, ?_, ?_, hX.led, hX.submitted, ?_, hX.watch⟩
    · intro p hp
      obtain rfl := Option.some.inj hp
      exact hs.com_known hcom
    · rw [hfull]
      exact hs.isLog_upTo _
    · intro x hx
      rw [hfull] at hx
      exact hs.covers_of_com hcom hx
    · intro V hV
      have hV : X.streams = some V := hV
      rw [hstreams] at hV
      cases hV

theorem OK.openStreams (hX : X.OK mode h) {V : LeaderId NID} {targets : List (NID × Nat)}
    {closeOld : Bool} (hV : X.StreamsOK mode h V) :
    (X.step (.rebuildReplicationStreams V targets closeOld)).OK mode h := by
  obtain ⟨hleader, hle, hrank⟩ := hV
  refine ⟨hX.purged, hX.log, hX.known, hX.led, hX.submitted, ?_, ?_⟩
  · intro W hW
    obtain rfl := Option.some.inj hW
    exact ⟨hleader, hle⟩
  · intro c hc
    refine ⟨(hX.watch c hc).1, ?_⟩
    intro W hW
    obtain rfl := Option.some.inj hW
    exact (hX.watch c hc).1.mono hrank

theorem OK.replicateCommitted (hX : X.OK mode h) {V : LeaderId NID} {c : Option (LogId NID)}
    (hvote : X.vote = ⟨V, true⟩) (hstreams : X.streams = some V)
    (hc : ∀ x, c = some x → h.com (V.toCommitted mode) x) :
    (X.step (.replicateCommitted c)).OK mode h := by
  refine ⟨hX.purged, hX.log, hX.known, hX.led, hX.submitted, hX.streams, ?_⟩
  intro x hx
  rcases max_choice X.watch c with hmax | hmax
  · exact hX.watch x (hmax.symm.trans hx)
  · have hcx : c = some x := hmax.symm.trans hx
    have hcom : h.Com mode ⟨V, true⟩ x := ⟨V, (hX.streams V hstreams).1, hc x hcx, le_rfl⟩
    refine ⟨?_, ?_⟩
    · show h.Com mode X.vote x
      rw [hvote]
      exact hcom
    · intro W hW
      obtain rfl := Option.some.inj (hstreams.symm.trans hW)
      exact hcom

/-- Every view that the commands lead to is in order. -/
theorem OK.step (hs : h.Sound mode) (hX : X.OK mode h) (id : NID) {c : Command NID N D}
    (hc : c.LogOK mode h id X) : (X.step c).OK mode h := by
  cases c with
  | saveVote v => exact hX.saveVote hc.1.le hc.2.1
  | appendEntries V es => exact hX.append hs hc
  | truncateLog after =>
    refine hX.of_le rfl rfl rfl rfl hX.purged ?_
    rw [full_truncate hX hc.2.1]
    exact List.take_prefix _ _
  | purgeLog upto => exact hX.purge hs hc.1
  | rebuildReplicationStreams V targets closeOld => exact hX.openStreams hc.1
  | closeReplicationStreams =>
    exact ⟨hX.purged, hX.log, hX.known, hX.led, hX.submitted, nofun,
      fun c hc => ⟨(hX.watch c hc).1, nofun⟩⟩
  | replicateCommitted c =>
    obtain ⟨V, hvote, hstreams, hcom⟩ := hc
    exact hX.replicateCommitted hvote hstreams hcom
  | updateIOProgress _ io =>
    exact ⟨hX.purged, hX.log, hX.known, hX.led, hc.1, hX.streams, hX.watch⟩
  | stateMachine command =>
    cases command with
    | installFullSnapshot io snapshot =>
      exact ⟨hX.purged, hX.log, hX.known, hX.led, hc.1.symm, hX.streams, hX.watch⟩
    | _ => exact hX
  | _ => exact hX

theorem OK.runOps (hs : h.Sound mode) (hX : X.OK mode h) {id : NID} {cs : List (Command NID N D)}
    (hcs : AllSteps View.step (fun X c => c.LogOK mode h id X) X cs) :
    (runOps View.step X cs).OK mode h :=
  AllSteps.runOps (P := fun X : View NID N D => X.OK mode h) hcs hX
    fun _ _ hc hX => hX.step hs id hc

end View

end ZenohRaft
