/-
  The receiver that merges consecutive client writes: `core/merged_raft_msg_receiver.rs`.

  `BatchRaftMsgReceiver` takes messages from a channel, merges client writes with the same expected
  leader into one message, and keeps in a buffer the message at which it had to stop. While it
  merges it waits for more messages until the linger timeout.

  The channel stays open and hands out messages in the order in which they were sent; a receive
  that times out takes none. What happens during a wait is given by a `Wait`: the messages that come
  in, and whether the deadline passes. The receiver makes at most one wait for each message it may
  still merge.

  * `ReceiverRun.delivers`: whatever is sent, waited for and called, each message returned is the
    merge of consecutive messages that were sent, and the messages returned, the one in the buffer
    and those in the channel have, in this order, the payloads and responders that were sent.
    A call returns nothing only if nothing is pending, so that calls which follow return all.
-/
import ZenohRaft.Lib.WriteBehind
import Mathlib.Data.List.Forall2

namespace ZenohRaft

open Lib

variable {P R L O : Type} [DecidableEq L]

/-! ## Messages -/

/-- `RaftMsg::ClientWrite`. Its senders make one responder for each payload. -/
structure ClientWrite (P R L : Type) where
  payloads : List P
  responders : List R
  expectedLeader : Option L
  paired : payloads.length = responders.length

/-- `RaftMsg`: a client write, or any other message. -/
inductive RaftMsg (P R L O : Type) where
  | clientWrite (write : ClientWrite P R L)
  | other (msg : O)

/-- Appends the payloads and the responders of another write. -/
def ClientWrite.extend (w next : ClientWrite P R L) : ClientWrite P R L where
  payloads := w.payloads ++ next.payloads
  responders := w.responders ++ next.responders
  expectedLeader := w.expectedLeader
  paired := by rw [List.length_append, List.length_append, w.paired, next.paired]

/-- What RaftCore handles one after the other: a payload with its responder, or a message. -/
inductive RaftMsgItem (P R L O : Type) where
  | write (payload : P) (responder : R) (expectedLeader : Option L)
  | other (msg : O)

/-- The payloads of a write with their responders. -/
def ClientWrite.items (w : ClientWrite P R L) : List (RaftMsgItem P R L O) :=
  (w.payloads.zip w.responders).map fun p => .write p.1 p.2 w.expectedLeader

/-- The items of a message. -/
def RaftMsg.items : RaftMsg P R L O → List (RaftMsgItem P R L O)
  | .clientWrite w => w.items
  | .other msg => [.other msg]

omit [DecidableEq L] in
theorem ClientWrite.items_extend {w next : ClientWrite P R L}
    (h : next.expectedLeader = w.expectedLeader) :
    ((w.extend next).items : List (RaftMsgItem P R L O)) = w.items ++ next.items := by
  unfold ClientWrite.items ClientWrite.extend
  dsimp only
  rw [List.zip_append w.paired, List.map_append, h]

omit [DecidableEq L] in
theorem ClientWrite.items_foldl {w : ClientWrite P R L} {ws : List (ClientWrite P R L)}
    (h : ∀ next ∈ ws, next.expectedLeader = w.expectedLeader) :
    ((ws.foldl ClientWrite.extend w).items : List (RaftMsgItem P R L O)) =
      w.items ++ ws.flatMap ClientWrite.items := by
  induction ws generalizing w with
  | nil => simp
  | cons next ws ih =>
    have hnext := h next List.mem_cons_self
    have hrest : ∀ x ∈ ws, x.expectedLeader = (w.extend next).expectedLeader := fun x hx =>
      h x (List.mem_cons_of_mem _ hx)
    rw [List.foldl_cons, ih hrest, items_extend hnext, List.flatMap_cons, List.append_assoc]

/-! ## The receiver -/

/-- The channel: the messages that are in it, and all that were ever sent. -/
structure MsgChannel (M : Type) where
  queue : List M
  sent : List M

/-- Messages are sent. -/
def MsgChannel.send {M : Type} (ch : MsgChannel M) (msgs : List M) : MsgChannel M :=
  ⟨ch.queue ++ msgs, ch.sent ++ msgs⟩

/-- What happens during a wait for a message. -/
structure Wait (M : Type) where
  arrivals : List M
  timedOut : Bool

/-- `BatchRaftMsgReceiver`. -/
structure BatchRaftMsgReceiver (P R L O : Type) where
  buffered : Option (RaftMsg P R L O)
  inner : MsgChannel (RaftMsg P R L O)

namespace BatchRaftMsgReceiver

/-- `BatchRaftMsgReceiver::inner_try_recv`. -/
def innerTryRecv (r : BatchRaftMsgReceiver P R L O) :
    Option (RaftMsg P R L O) × BatchRaftMsgReceiver P R L O :=
  match r.inner.queue with
  | [] => (none, r)
  | msg :: queue => (some msg, { r with inner := { r.inner with queue := queue } })

/-- `BatchRaftMsgReceiver::inner_recv_timeout_at`. -/
def innerRecvTimeoutAt (r : BatchRaftMsgReceiver P R L O) (wait : Wait (RaftMsg P R L O)) :
    Option (RaftMsg P R L O) × BatchRaftMsgReceiver P R L O :=
  let r := { r with inner := r.inner.send wait.arrivals }
  if wait.timedOut then (none, r) else r.innerTryRecv

/-- `BatchRaftMsgReceiver::ensure_buffered`. It stays pending while the channel is empty. -/
def ensureBuffered (r : BatchRaftMsgReceiver P R L O) : BatchRaftMsgReceiver P R L O :=
  if r.buffered.isSome then r
  else
    match r.innerTryRecv with
    | (none, r) => r
    | (some msg, r) => { r with buffered := some msg }

/-- `BatchRaftMsgReceiver::buffered_try_recv`. -/
def bufferedTryRecv (r : BatchRaftMsgReceiver P R L O) :
    Option (RaftMsg P R L O) × BatchRaftMsgReceiver P R L O :=
  match r.buffered with
  | some msg => (some msg, { r with buffered := none })
  | none => r.innerTryRecv

/-- The loop of `merge_client_writes`, with the rounds that are left. -/
def mergeLoop (waits : Nat → Wait (RaftMsg P R L O)) :
    Nat → ClientWrite P R L → BatchRaftMsgReceiver P R L O →
      ClientWrite P R L × BatchRaftMsgReceiver P R L O
  | 0, batch, r => (batch, r)
  | rounds + 1, batch, r =>
    match r.innerRecvTimeoutAt (waits rounds) with
    | (none, r) => (batch, r)
    | (some (.other msg), r) => (batch, { r with buffered := some (.other msg) })
    | (some (.clientWrite next), r) =>
      if next.expectedLeader = batch.expectedLeader then
        mergeLoop waits rounds (batch.extend next) r
      else (batch, { r with buffered := some (.clientWrite next) })

/-- `BatchRaftMsgReceiver::merge_client_writes`. -/
def mergeClientWrites (capacity : Nat) (waits : Nat → Wait (RaftMsg P R L O))
    (msg : RaftMsg P R L O) (r : BatchRaftMsgReceiver P R L O) :
    RaftMsg P R L O × BatchRaftMsgReceiver P R L O :=
  match msg with
  | .other msg => (.other msg, r)
  | .clientWrite batch =>
    let (batch, r) := mergeLoop waits (capacity - 1) batch r
    (.clientWrite batch, r)

/-- `BatchRaftMsgReceiver::try_recv`. -/
def tryRecv (capacity : Nat) (waits : Nat → Wait (RaftMsg P R L O))
    (r : BatchRaftMsgReceiver P R L O) :
    Option (RaftMsg P R L O) × BatchRaftMsgReceiver P R L O :=
  match r.bufferedTryRecv with
  | (none, r) => (none, r)
  | (some msg, r) =>
    let (msg, r) := mergeClientWrites capacity waits msg r
    (some msg, r)

/-- The messages that were sent and not yet returned. -/
def pending (r : BatchRaftMsgReceiver P R L O) : List (RaftMsg P R L O) :=
  r.buffered.toList ++ r.inner.queue

/-! ## One call -/

variable {r r' : BatchRaftMsgReceiver P R L O} {done : List (RaftMsg P R L O)}

omit [DecidableEq L] in
/-- A receive without a buffered message takes the first of the channel, if any. -/
theorem innerTryRecv_spec (hnone : r.buffered = none) (hsent : r.inner.sent = done ++ r.pending) :
    r.innerTryRecv.2.buffered = none ∧
      r.innerTryRecv.2.inner.sent =
        done ++ r.innerTryRecv.1.toList ++ r.innerTryRecv.2.pending := by
  unfold innerTryRecv
  cases hq : r.inner.queue with
  | nil => exact ⟨hnone, by simpa using hsent⟩
  | cons msg queue =>
    refine ⟨hnone, ?_⟩
    unfold pending at hsent ⊢
    rw [hnone, hq] at hsent
    rw [hnone]
    simpa using hsent

omit [DecidableEq L] in
theorem innerRecvTimeoutAt_spec (wait : Wait (RaftMsg P R L O)) (hnone : r.buffered = none)
    (hsent : r.inner.sent = done ++ r.pending) :
    (r.innerRecvTimeoutAt wait).2.buffered = none ∧
      (r.innerRecvTimeoutAt wait).2.inner.sent =
        done ++ (r.innerRecvTimeoutAt wait).1.toList ++ (r.innerRecvTimeoutAt wait).2.pending := by
  have harrived : ({ r with inner := r.inner.send wait.arrivals } :
      BatchRaftMsgReceiver P R L O).inner.sent =
      done ++ pending { r with inner := r.inner.send wait.arrivals } := by
    unfold pending MsgChannel.send
    unfold pending at hsent
    rw [hsent, List.append_assoc, List.append_assoc]
  unfold innerRecvTimeoutAt
  dsimp only
  split
  · exact ⟨hnone, by simpa using harrived⟩
  · exact innerTryRecv_spec (r := { r with inner := r.inner.send wait.arrivals }) hnone harrived

/-- The loop merges writes that follow in the channel and have the same expected leader. -/
theorem mergeLoop_spec (waits : Nat → Wait (RaftMsg P R L O)) (rounds : Nat)
    (batch : ClientWrite P R L) (hnone : r.buffered = none)
    (hsent : r.inner.sent = done ++ r.pending) :
    ∃ ws : List (ClientWrite P R L),
      (mergeLoop waits rounds batch r).1 = ws.foldl ClientWrite.extend batch ∧
      (∀ w ∈ ws, w.expectedLeader = batch.expectedLeader) ∧ ws.length ≤ rounds ∧
      (mergeLoop waits rounds batch r).2.inner.sent =
        done ++ ws.map .clientWrite ++ (mergeLoop waits rounds batch r).2.pending := by
  induction rounds generalizing batch r done with
  | zero => exact ⟨[], rfl, by simp, Nat.zero_le _, by simpa [mergeLoop] using hsent⟩
  | succ rounds ih =>
    obtain ⟨hnone', hsent'⟩ := innerRecvTimeoutAt_spec (waits rounds) hnone hsent
    unfold mergeLoop
    obtain ⟨⟨next, r'⟩, hres⟩ : ∃ res, res = r.innerRecvTimeoutAt (waits rounds) := ⟨_, rfl⟩
    rw [← hres] at hnone' hsent' ⊢
    -- a message that cannot be merged is the first of those pending
    have hstop : ∀ msg, next = some msg →
        ({ r' with buffered := some msg } : BatchRaftMsgReceiver P R L O).inner.sent =
          done ++ pending { r' with buffered := some msg } := by
      rintro msg rfl
      unfold pending at hsent' ⊢
      rw [show r'.buffered = none from hnone'] at hsent'
      simpa using hsent'
    cases next with
    | none => exact ⟨[], rfl, by simp, Nat.zero_le _, by simpa using hsent'⟩
    | some msg =>
      cases msg with
      | other msg => exact ⟨[], rfl, by simp, Nat.zero_le _, by simpa using hstop _ rfl⟩
      | clientWrite next =>
        dsimp only
        split
        · rename_i hleader
          obtain ⟨ws, hws, hleaders, hlen, hrest⟩ := ih (batch.extend next) hnone' hsent'
          refine ⟨next :: ws, hws, fun w hw => ?_, Nat.succ_le_succ hlen, ?_⟩
          · rcases List.mem_cons.1 hw with rfl | hw
            · exact hleader
            · exact hleaders w hw
          · rw [hrest]
            simp
        · exact ⟨[], rfl, by simp, Nat.zero_le _, by simpa using hstop _ rfl⟩

end BatchRaftMsgReceiver

/-- `msg` is the merge of the messages `sent`: a single one, or writes with one expected leader. -/
inductive MergeOf (capacity : Nat) : RaftMsg P R L O → List (RaftMsg P R L O) → Prop where
  | single (msg : O) : MergeOf capacity (.other msg) [.other msg]
  | writes (w : ClientWrite P R L) (ws : List (ClientWrite P R L))
      (hleader : ∀ next ∈ ws, next.expectedLeader = w.expectedLeader)
      (hlen : ws.length ≤ capacity - 1) :
      MergeOf capacity (.clientWrite (ws.foldl ClientWrite.extend w))
        ((w :: ws).map .clientWrite)

omit [DecidableEq L] in
/-- A merge changes neither the payloads nor what they are paired with. -/
theorem MergeOf.items {capacity : Nat} {msg : RaftMsg P R L O} {sent : List (RaftMsg P R L O)}
    (h : MergeOf capacity msg sent) : sent.flatMap RaftMsg.items = msg.items := by
  cases h with
  | single msg => rfl
  | writes w ws hleader hlen =>
    rw [List.map_cons, List.flatMap_cons, List.flatMap_map]
    exact (ClientWrite.items_foldl hleader).symm

namespace BatchRaftMsgReceiver

variable {r : BatchRaftMsgReceiver P R L O} {done : List (RaftMsg P R L O)}

omit [DecidableEq L] in
theorem bufferedTryRecv_spec (hsent : r.inner.sent = done ++ r.pending) :
    r.bufferedTryRecv.2.buffered = none ∧
      r.bufferedTryRecv.2.inner.sent =
        done ++ r.bufferedTryRecv.1.toList ++ r.bufferedTryRecv.2.pending := by
  unfold bufferedTryRecv
  cases hb : r.buffered with
  | none => exact innerTryRecv_spec hb hsent
  | some msg =>
    refine ⟨rfl, ?_⟩
    unfold pending at hsent ⊢
    rw [hb] at hsent
    simpa using hsent

omit [DecidableEq L] in
theorem ensureBuffered_spec (hsent : r.inner.sent = done ++ r.pending) :
    r.ensureBuffered.inner.sent = done ++ r.ensureBuffered.pending := by
  unfold ensureBuffered
  split
  · exact hsent
  · rename_i hb
    have hb : r.buffered = none := by simpa using hb
    obtain ⟨hnone, hrest⟩ := innerTryRecv_spec hb hsent
    obtain ⟨⟨msg, r'⟩, hres⟩ : ∃ res, res = r.innerTryRecv := ⟨_, rfl⟩
    rw [← hres] at hnone hrest ⊢
    cases msg with
    | none => simpa using hrest
    | some msg =>
      unfold pending at hrest ⊢
      rw [show r'.buffered = none from hnone] at hrest
      simpa using hrest

/-- A call that returns a message returns the merge of the first messages pending. -/
theorem tryRecv_spec (capacity : Nat) (waits : Nat → Wait (RaftMsg P R L O))
    (hsent : r.inner.sent = done ++ r.pending) :
    ∃ segs, List.Forall₂ (MergeOf capacity) (r.tryRecv capacity waits).1.toList segs ∧
      (r.tryRecv capacity waits).2.inner.sent =
        done ++ segs.flatten ++ (r.tryRecv capacity waits).2.pending := by
  obtain ⟨hnone, hrest⟩ := bufferedTryRecv_spec hsent
  unfold tryRecv
  obtain ⟨⟨msg, r'⟩, hres⟩ : ∃ res, res = r.bufferedTryRecv := ⟨_, rfl⟩
  rw [← hres] at hnone hrest ⊢
  cases msg with
  | none => exact ⟨[], .nil, hrest⟩
  | some msg =>
    cases msg with
    | other msg => exact ⟨[[.other msg]], .cons (.single msg) .nil, hrest⟩
    | clientWrite w =>
      obtain ⟨ws, hws, hleader, hlen, hsent'⟩ :=
        mergeLoop_spec waits (capacity - 1) w hnone hrest
      refine ⟨[(w :: ws).map .clientWrite], .cons ?_ .nil, ?_⟩
      · show MergeOf capacity (.clientWrite (mergeLoop waits (capacity - 1) w r').1) _
        rw [hws]
        exact .writes w ws hleader hlen
      · show (mergeLoop waits (capacity - 1) w r').2.inner.sent =
          _ ++ (mergeLoop waits (capacity - 1) w r').2.pending
        rw [hsent']
        simp

/-- A call returns nothing only if nothing is pending. -/
theorem tryRecv_none (capacity : Nat) (waits : Nat → Wait (RaftMsg P R L O))
    (h : (r.tryRecv capacity waits).1 = none) : r.pending = [] := by
  unfold tryRecv bufferedTryRecv innerTryRecv at h
  unfold pending
  cases hb : r.buffered with
  | some msg => simp [hb] at h
  | none =>
    cases hq : r.inner.queue with
    | nil => rfl
    | cons msg queue => simp [hb, hq] at h

/-- Where nothing arrives, the loop takes no more than what was sent before. -/
theorem mergeLoop_sent {waits : Nat → Wait (RaftMsg P R L O)}
    (hquiet : ∀ k, (waits k).arrivals = []) (rounds : Nat) (batch : ClientWrite P R L) :
    (mergeLoop waits rounds batch r).2.inner.sent = r.inner.sent := by
  induction rounds generalizing batch r with
  | zero => rfl
  | succ rounds ih =>
    have hrecv : (r.innerRecvTimeoutAt (waits rounds)).2.inner.sent = r.inner.sent := by
      unfold innerRecvTimeoutAt innerTryRecv
      rw [hquiet]
      dsimp only
      split
      · exact List.append_nil _
      · split <;> exact List.append_nil _
    unfold mergeLoop
    generalize r.innerRecvTimeoutAt (waits rounds) = res at hrecv ⊢
    obtain ⟨_ | msg | next, r'⟩ := res
    · exact hrecv
    · rename_i next
      dsimp only
      split
      · exact (ih _).trans hrecv
      · exact hrecv
    · exact hrecv

theorem tryRecv_sent (capacity : Nat) {waits : Nat → Wait (RaftMsg P R L O)}
    (hquiet : ∀ k, (waits k).arrivals = []) :
    (r.tryRecv capacity waits).2.inner.sent = r.inner.sent := by
  have hrecv : r.bufferedTryRecv.2.inner.sent = r.inner.sent := by
    unfold bufferedTryRecv innerTryRecv
    split
    · rfl
    · split <;> rfl
  unfold tryRecv
  generalize r.bufferedTryRecv = res at hrecv ⊢
  obtain ⟨_ | msg, r'⟩ := res
  · exact hrecv
  · cases msg with
    | other msg => exact hrecv
    | clientWrite w => exact (mergeLoop_sent hquiet _ w).trans hrecv

/-- Where nothing arrives, every call leaves less pending. -/
theorem tryRecv_pending (capacity : Nat) {waits : Nat → Wait (RaftMsg P R L O)}
    (hquiet : ∀ k, (waits k).arrivals = []) (hsent : r.inner.sent = done ++ r.pending) :
    (r.tryRecv capacity waits).2.pending.length ≤ r.pending.length - 1 := by
  obtain ⟨segs, hsegs, hrest⟩ := tryRecv_spec capacity waits hsent
  rw [tryRecv_sent capacity hquiet, hsent, List.append_assoc, List.append_cancel_left_eq] at hrest
  cases hmsg : (r.tryRecv capacity waits).1 with
  | none =>
    rw [tryRecv_none capacity waits hmsg, eq_comm, List.append_eq_nil_iff] at hrest
    rw [hrest.2]
    exact Nat.zero_le _
  | some msg =>
    rw [hmsg] at hsegs
    obtain ⟨seg, rest, hmerge, -, rfl⟩ := List.forall₂_cons_left_iff.1 hsegs
    have hpos : 0 < seg.length := by cases hmerge <;> simp
    rw [hrest, List.length_append, List.flatten_cons, List.length_append]
    omega

end BatchRaftMsgReceiver

/-! ## Runs -/

/-- What happens: a message is sent, or RaftCore calls the receiver. -/
inductive ReceiverAct (P R L O : Type) where
  | send (msg : RaftMsg P R L O)
  | ensureBuffered
  | tryRecv (waits : Nat → Wait (RaftMsg P R L O))

/-- A receiver with the messages that it has returned. -/
structure ReceiverRun (P R L O : Type) where
  receiver : BatchRaftMsgReceiver P R L O
  returned : List (RaftMsg P R L O)

namespace ReceiverRun

/-- Nothing is sent yet. -/
def start : ReceiverRun P R L O := ⟨⟨none, ⟨[], []⟩⟩, []⟩

/-- One more act. -/
def step (capacity : Nat) (s : ReceiverRun P R L O) : ReceiverAct P R L O → ReceiverRun P R L O
  | .send msg => { s with receiver := { s.receiver with inner := s.receiver.inner.send [msg] } }
  | .ensureBuffered => { s with receiver := s.receiver.ensureBuffered }
  | .tryRecv waits =>
    let (msg, receiver) := s.receiver.tryRecv capacity waits
    ⟨receiver, s.returned ++ msg.toList⟩

/-- The messages returned are merges of consecutive messages that were sent, up to those pending,
    and nothing is lost, repeated or put in another order. -/
structure Delivers (capacity : Nat) (s : ReceiverRun P R L O) : Prop where
  batches : ∃ segs, List.Forall₂ (MergeOf capacity) s.returned segs ∧
    s.receiver.inner.sent = segs.flatten ++ s.receiver.pending
  items : s.receiver.inner.sent.flatMap RaftMsg.items =
    s.returned.flatMap RaftMsg.items ++ s.receiver.pending.flatMap RaftMsg.items

omit [DecidableEq L] in
theorem Delivers.of_batches {capacity : Nat} {s : ReceiverRun P R L O}
    {segs : List (List (RaftMsg P R L O))}
    (hsegs : List.Forall₂ (MergeOf capacity) s.returned segs)
    (hsent : s.receiver.inner.sent = segs.flatten ++ s.receiver.pending) :
    s.Delivers capacity := by
  refine ⟨⟨segs, hsegs, hsent⟩, ?_⟩
  have hitems : ∀ returned : List (RaftMsg P R L O),
      List.Forall₂ (MergeOf capacity) returned segs →
      segs.flatten.flatMap RaftMsg.items = returned.flatMap RaftMsg.items := by
    intro returned hreturned
    clear hsent hsegs
    induction hreturned with
    | nil => rfl
    | cons hmerge _ ih =>
      rw [List.flatten_cons, List.flatMap_append, List.flatMap_cons, ih, hmerge.items]
  rw [hsent, List.flatMap_append, hitems s.returned hsegs]

theorem Delivers.step {capacity : Nat} {s : ReceiverRun P R L O} (h : s.Delivers capacity)
    (act : ReceiverAct P R L O) : (s.step capacity act).Delivers capacity := by
  obtain ⟨segs, hsegs, hsent⟩ := h.batches
  cases act with
  | send msg =>
    refine .of_batches hsegs ?_
    show s.receiver.inner.sent ++ [msg] =
      segs.flatten ++ (s.receiver.buffered.toList ++ (s.receiver.inner.queue ++ [msg]))
    rw [hsent, BatchRaftMsgReceiver.pending, List.append_assoc, List.append_assoc]
  | ensureBuffered => exact .of_batches hsegs (BatchRaftMsgReceiver.ensureBuffered_spec hsent)
  | tryRecv waits =>
    obtain ⟨segs', hsegs', hsent'⟩ :=
      BatchRaftMsgReceiver.tryRecv_spec capacity waits hsent
    refine .of_batches (List.rel_append hsegs hsegs') ?_
    rw [List.flatten_append]
    exact hsent'

theorem Delivers.run {capacity : Nat} {s : ReceiverRun P R L O} (h : s.Delivers capacity)
    (acts : List (ReceiverAct P R L O)) :
    (runOps (ReceiverRun.step capacity) s acts).Delivers capacity := by
  induction acts generalizing s with
  | nil => exact h
  | cons act acts ih => exact ih (h.step act)

/-- Nothing stays behind: a call returns nothing only if nothing is pending, and after as many calls
    as messages are pending, while none arrives, all that was sent has been returned. -/
structure Drains (capacity : Nat) (s : ReceiverRun P R L O) : Prop where
  progress : ∀ waits, (s.receiver.tryRecv capacity waits).1 = none → s.receiver.pending = []
  drained : ∀ calls : List (Nat → Wait (RaftMsg P R L O)),
    (∀ waits ∈ calls, ∀ k, (waits k).arrivals = []) → s.receiver.pending.length ≤ calls.length →
    (runOps (step capacity) s (calls.map .tryRecv)).receiver.pending = [] ∧
      (runOps (step capacity) s (calls.map .tryRecv)).returned.flatMap RaftMsg.items =
        s.receiver.inner.sent.flatMap RaftMsg.items

theorem Delivers.drains {capacity : Nat} {s : ReceiverRun P R L O} (h : s.Delivers capacity) :
    s.Drains capacity := by
  refine ⟨fun waits => BatchRaftMsgReceiver.tryRecv_none capacity waits, fun calls => ?_⟩
  induction calls generalizing s with
  | nil =>
    intro _ hlen
    have hnil : s.receiver.pending = [] := List.eq_nil_of_length_eq_zero (Nat.le_zero.1 hlen)
    have hitems := h.items
    rw [hnil, List.flatMap_nil, List.append_nil] at hitems
    exact ⟨hnil, hitems.symm⟩
  | cons waits calls ih =>
    intro hquiet hlen
    obtain ⟨segs, -, hsent⟩ := h.batches
    have hfewer := BatchRaftMsgReceiver.tryRecv_pending capacity (hquiet waits (by simp)) hsent
    rw [List.length_cons] at hlen
    obtain ⟨hnil, hitems⟩ := ih (h.step (.tryRecv waits))
      (fun w hw => hquiet w (List.mem_cons_of_mem _ hw)) (Nat.le_trans hfewer (by omega))
    refine ⟨hnil, hitems.trans ?_⟩
    exact congrArg _ (BatchRaftMsgReceiver.tryRecv_sent capacity (hquiet waits (by simp)))

/-- For every capacity and whatever is sent, waited for and called, the receiver delivers what was
    sent, and calls that follow return all of it. -/
theorem delivers (capacity : Nat) (acts : List (ReceiverAct P R L O)) :
    (runOps (step capacity) start acts).Delivers capacity ∧
      (runOps (step capacity) start acts).Drains capacity := by
  have hstart : (start : ReceiverRun P R L O).Delivers capacity := .of_batches .nil rfl
  exact ⟨hstart.run acts, (hstart.run acts).drains⟩

end ReceiverRun

end ZenohRaft
