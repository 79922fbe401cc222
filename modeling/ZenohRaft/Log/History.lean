/-
  What the leaders of a cluster have done.

  A `History` has the log of the leader of every epoch, the leader ids that were elected, the log
  ids that were committed, the vote requests that were made, and what nodes have stored and granted.
  It is not part of any node: it is what the invariants of the nodes talk about. An epoch is a
  `CommittedLeaderId`.

  * `History.Sound`: the logs are `LeaderLogs`, an epoch has one leader, and what is committed at
    an epoch is in the log of every later leader. This is what the nodes rely on.
  * `History.Com`: committed by a leader that is not later than a vote. Log ids committed
    anywhere lie on one path (`History.Sound.com_compatible`).
-/
import ZenohRaft.Lib.LeaderLog
import ZenohRaft.State

namespace ZenohRaft

open Lib

variable {NID N D : Type} [LinearOrder NID]

/-! ## Logs -/

/-- The epoch of the leader that created an entry. -/
def Entry.epoch (ent : Entry NID N D) : CommittedLeaderId NID := ent.logId.leaderId

/-- The log `l` has the log id `x`. -/
def HasId (l : List (Entry NID N D)) (x : LogId NID) : Prop := At Entry.epoch l x.index x.leaderId

/-- The indexes of the entries count up from `b`. -/
def IndexedFrom (b : Nat) (l : List (Entry NID N D)) : Prop :=
  ∀ i ent, l[i]? = some ent → ent.logId.index = b + i

/-- Entries of an epoch with the given payloads, from an index on. -/
def entriesAt (k : CommittedLeaderId NID) (b : Nat) (payloads : List (Payload NID N D)) :
    List (Entry NID N D) :=
  payloads.zipIdx.map fun p => ⟨⟨k, b + p.2⟩, p.1⟩

/-- The last log id of a log. -/
def tipId (l : List (Entry NID N D)) : Option (LogId NID) := l.getLast?.map Entry.logId

section Indexed

variable {b s i : Nat} {l l' : List (Entry NID N D)} {ent : Entry NID N D} {x y : LogId NID}

section

omit [LinearOrder NID]

theorem indexedFrom_nil (b : Nat) : IndexedFrom b ([] : List (Entry NID N D)) := by
  intro i ent h
  simp at h

theorem indexedFrom_cons : IndexedFrom b (ent :: l) ↔
    ent.logId.index = b ∧ IndexedFrom (b + 1) l := by
  constructor
  · intro h
    refine ⟨h 0 ent rfl, ?_⟩
    intro i a ha
    have := h (i + 1) a ha
    omega
  · rintro ⟨h0, h⟩ i a ha
    cases i with
    | zero =>
      obtain rfl := Option.some.inj ha
      omega
    | succ i =>
      have := h i a ha
      omega

theorem indexedFrom_append : IndexedFrom b (l ++ l') ↔
    IndexedFrom b l ∧ IndexedFrom (b + l.length) l' := by
  induction l generalizing b with
  | nil => simp [indexedFrom_nil]
  | cons a l ih =>
    rw [List.cons_append, indexedFrom_cons, indexedFrom_cons, ih, and_assoc, List.length_cons,
      Nat.add_assoc, Nat.add_comm 1]

theorem IndexedFrom.of_le (h : IndexedFrom b l') (hl : l <+: l') : IndexedFrom b l := by
  obtain ⟨t, rfl⟩ := hl
  exact (indexedFrom_append.1 h).1

theorem IndexedFrom.filter_lt (h : IndexedFrom b l) (s : Nat) :
    l.filter (fun ent => decide (ent.logId.index < s)) = l.take (s - b) := by
  induction l generalizing b with
  | nil => simp
  | cons a l ih =>
    obtain ⟨ha, h⟩ := indexedFrom_cons.1 h
    by_cases hs : b < s
    · have hsub : s - b = (s - (b + 1)) + 1 := by omega
      rw [List.filter_cons_of_pos (by simp [ha, hs]), ih h, hsub, List.take_succ_cons]
    · have hsub : s - b = 0 := by omega
      have hsub' : s - (b + 1) = 0 := by omega
      rw [List.filter_cons_of_neg (by simp [ha, hs]), ih h, hsub, hsub', List.take_zero,
        List.take_zero]

theorem IndexedFrom.filter_ge (h : IndexedFrom b l) (s : Nat) :
    l.filter (fun ent => decide (s ≤ ent.logId.index)) = l.drop (s - b) := by
  induction l generalizing b with
  | nil => simp
  | cons a l ih =>
    obtain ⟨ha, h⟩ := indexedFrom_cons.1 h
    by_cases hs : s ≤ b
    · have hsub : s - b = 0 := by omega
      have hsub' : s - (b + 1) = 0 := by omega
      rw [List.filter_cons_of_pos (by simp [ha, hs]), ih h, hsub, hsub', List.drop_zero,
        List.drop_zero]
    · have hsub : s - b = (s - (b + 1)) + 1 := by omega
      rw [List.filter_cons_of_neg (by simp [ha, hs]), ih h, hsub, List.drop_succ_cons]

theorem hasId_iff_getElem? (h : IndexedFrom 0 l) :
    HasId l x ↔ ∃ ent, l[x.index]? = some ent ∧ ent.logId = x := by
  unfold HasId At
  rw [Option.map_eq_some_iff]
  constructor
  · rintro ⟨ent, hent, hk⟩
    refine ⟨ent, hent, ?_⟩
    have hi := h _ ent hent
    obtain ⟨⟨k, j⟩, p⟩ := ent
    obtain ⟨k', j'⟩ := x
    simp only [Entry.epoch] at hk
    simp only at hi
    subst hk
    rw [hi, Nat.zero_add]
  · rintro ⟨ent, hent, hx⟩
    exact ⟨ent, hent, congrArg LogId.leaderId hx⟩

theorem hasId_iff_mem (h : IndexedFrom 0 l) : HasId l x ↔ ∃ ent ∈ l, ent.logId = x := by
  rw [hasId_iff_getElem? h]
  constructor
  · rintro ⟨ent, hent, hx⟩
    exact ⟨ent, List.mem_of_getElem? hent, hx⟩
  · rintro ⟨ent, hmem, hx⟩
    obtain ⟨i, hi⟩ := List.mem_iff_getElem?.1 hmem
    have hidx := h i ent hi
    rw [hx, Nat.zero_add] at hidx
    exact ⟨ent, by rw [hidx]; exact hi, hx⟩

theorem HasId.eq_of_index (h : HasId l x) (h' : HasId l y) (hi : x.index = y.index) : x = y := by
  obtain ⟨k, i⟩ := x
  obtain ⟨k', j⟩ := y
  obtain rfl : i = j := hi
  obtain rfl := At.unique h h'
  rfl

theorem exists_hasId (h : i < l.length) : ∃ x : LogId NID, x.index = i ∧ HasId l x := by
  obtain ⟨k, hk⟩ := exists_at Entry.epoch h
  exact ⟨⟨k, i⟩, rfl, hk⟩

theorem HasId.lt_length (h : HasId l x) : x.index < l.length := At.lt_length h

theorem hasId_take_iff {m : Nat} : HasId (l.take m) x ↔ x.index < m ∧ HasId l x := at_take_iff

theorem tipId_eq_some (h : IndexedFrom 0 l) :
    tipId l = some x ↔ HasId l x ∧ x.index + 1 = l.length := by
  unfold tipId
  rw [Option.map_eq_some_iff, hasId_iff_getElem? h]
  constructor
  · rintro ⟨ent, hent, rfl⟩
    rw [List.getLast?_eq_getElem?] at hent
    have hlt := (List.getElem?_eq_some_iff.1 hent).1
    have hidx := h _ ent hent
    have hlen : ent.logId.index = l.length - 1 := by omega
    exact ⟨⟨ent, by rw [hlen]; exact hent, rfl⟩, by omega⟩
  · rintro ⟨⟨ent, hent, hx⟩, hlen⟩
    refine ⟨ent, ?_, hx⟩
    rw [List.getLast?_eq_getElem?, ← hlen]
    exact hent

end

/-- The log `l` has the log id `a`, if there is one. -/
def Holds (l : List (Entry NID N D)) (a : Option (LogId NID)) : Prop := ∀ x, a = some x → HasId l x

omit [LinearOrder NID] in
theorem holds_none : Holds l none := nofun

omit [LinearOrder NID] in
theorem holds_some : Holds l (some x) ↔ HasId l x :=
  ⟨fun h => h x rfl, fun h _ hy => Option.some.inj hy ▸ h⟩

theorem holds_max {a b : Option (LogId NID)} (ha : Holds l a) (hb : Holds l b) :
    Holds l (max a b) := by
  rcases max_choice a b with hmax | hmax
  · rw [hmax]
    exact ha
  · rw [hmax]
    exact hb

section

omit [LinearOrder NID]

theorem Holds.nextIndex_le {a : Option (LogId NID)} (h : Holds l a) : nextIndex a ≤ l.length := by
  cases a with
  | none => exact Nat.zero_le _
  | some x => exact (holds_some.1 h).lt_length

theorem Holds.mono {a : Option (LogId NID)} (h : Holds l a) (hl : l <+: l') : Holds l' a :=
  fun x hx => At.mono (h x hx) hl

theorem holds_tipId (h : IndexedFrom 0 l) : Holds l (tipId l) :=
  fun _ hx => ((tipId_eq_some h).1 hx).1

theorem tipId_eq_none : tipId l = none ↔ l = [] := by
  simp [tipId]

theorem tipId_append (h : l' ≠ []) : tipId (l ++ l') = tipId l' := by
  unfold tipId
  rw [List.getLast?_append, List.getLast?_eq_some_getLast h]
  rfl

theorem nextIndex_tipId (h : IndexedFrom 0 l) : nextIndex (tipId l) = l.length := by
  cases ht : tipId l with
  | none =>
    rw [tipId_eq_none.1 ht]
    rfl
  | some x => exact ((tipId_eq_some h).1 ht).2

end

end Indexed

/-- In the log `l`, the entries `es` follow the log id `prev`. -/
def Slice (l : List (Entry NID N D)) (prev : Option (LogId NID))
    (es : List (Entry NID N D)) : Prop :=
  ∃ pre post, l = pre ++ es ++ post ∧ tipId pre = prev

/-! ## Histories -/

/-- What the leaders of a cluster have done so far. -/
structure History (NID N D : Type) where
  /-- the log of the leader of an epoch -/
  log : CommittedLeaderId NID → List (Entry NID N D)
  /-- the leader ids that were elected -/
  leader : LeaderId NID → Prop
  /-- the log ids that the leader of an epoch knows to be committed, or that earlier ones knew -/
  com : CommittedLeaderId NID → LogId NID → Prop
  /-- the vote requests that were made, with the last log id of the candidate -/
  asked : LeaderId NID → Option (LogId NID) → Prop
  /-- the log ids that a node has stored under the vote of a leader -/
  held : NID → LeaderId NID → LogId NID → Prop
  /-- the votes that were granted -/
  granted : NID → LeaderId NID → Prop

namespace History

/-- The log up to a log id. -/
def upTo (h : History NID N D) : Option (LogId NID) → List (Entry NID N D)
  | none => []
  | some x => (h.log x.leaderId).take (x.index + 1)

/-- What nodes may rely on. -/
structure Sound (mode : LeaderIdMode) (h : History NID N D) : Prop where
  logs : LeaderLogs Entry.epoch h.log
  indexed : ∀ k, IndexedFrom 0 (h.log k)
  unique : ∀ l l', h.leader l → h.leader l' → l.toCommitted mode = l'.toCommitted mode → l = l'
  com_mem : ∀ k x, h.com k x → HasId (h.log k) x
  com_later : ∀ k x l, h.com k x → h.leader l → k ≤ l.toCommitted mode →
    h.com (l.toCommitted mode) x
  com_down : ∀ k x y, h.com k x → HasId (h.log k) y → y.index ≤ x.index → h.com k y
  /-- a membership is proposed when the one before it is committed -/
  memb : ∀ k (i j : Nat) (ent ent' : Entry NID N D), (h.log k)[i]? = some ent →
    (h.log k)[j]? = some ent' → i < j → ent.payload.getMembership.isSome = true →
      ent'.payload.getMembership.isSome = true →
        ∃ l, h.leader l ∧ l.toCommitted mode = ent'.epoch ∧ h.com ent'.epoch ent.logId

/-- Committed by a leader whose vote is not above `v`. -/
def Com (mode : LeaderIdMode) (h : History NID N D) (v : Vote NID) (x : LogId NID) : Prop :=
  ∃ l, h.leader l ∧ h.com (l.toCommitted mode) x ∧ Vote.rank mode ⟨l, true⟩ ≤ v.rank mode

/-- What the answer of a node means to a leader: the node has stored the log id, or the leader
    knew that it is committed. -/
def Acked (mode : LeaderIdMode) (h : History NID N D) (id : NID) (V : LeaderId NID)
    (x : LogId NID) : Prop :=
  h.held id V x ∨ h.com (V.toCommitted mode) x

/-- A path with the indexes of a log. -/
def IsLog (h : History NID N D) (l : List (Entry NID N D)) : Prop :=
  IsPath Entry.epoch h.log l ∧ IndexedFrom 0 l

variable {mode : LeaderIdMode} {h : History NID N D} {l l' : List (Entry NID N D)}
variable {x y : LogId NID} {v v' : Vote NID} {V : LeaderId NID}

section

omit [LinearOrder NID]

theorem IsLog.of_le (hl : h.IsLog l') (hle : l <+: l') : h.IsLog l :=
  ⟨hl.1.of_le hle, hl.2.of_le hle⟩

theorem IsLog.take (hl : h.IsLog l) (m : Nat) : h.IsLog (l.take m) :=
  hl.of_le (List.take_prefix m l)

/-- A log up to one of its ids is determined by the id. -/
theorem IsLog.take_eq_upTo (hl : h.IsLog l) (hx : HasId l x) :
    l.take (x.index + 1) = h.upTo (some x) :=
  hl.1 x.index x.leaderId hx

theorem IsLog.upTo_le (hl : h.IsLog l) (hx : HasId l x) : h.upTo (some x) <+: l := by
  rw [← hl.take_eq_upTo hx]
  exact List.take_prefix _ l

/-- Two logs with one id have the same ids up to it. -/
theorem IsLog.hasId_of_hasId (hl : h.IsLog l) (hl' : h.IsLog l') (hx : HasId l x)
    (hx' : HasId l' x) (hy : HasId l y) (hle : y.index ≤ x.index) : HasId l' y :=
  At.of_take_eq hy (hl.1.take_eq hl'.1 hx hx') hle

theorem hasId_upTo (hx : HasId (h.log x.leaderId) x) : HasId (h.upTo (some x)) x :=
  hasId_take_iff.2 ⟨Nat.lt_succ_self _, hx⟩

theorem length_upTo (hx : HasId (h.log x.leaderId) x) :
    (h.upTo (some x)).length = x.index + 1 := by
  have := hx.lt_length
  rw [upTo, List.length_take]
  omega

end

namespace Sound

variable (hs : h.Sound mode)
include hs

theorem isLog_log (k : CommittedLeaderId NID) : h.IsLog (h.log k) := ⟨hs.logs.path k, hs.indexed k⟩

theorem isLog_upTo (p : Option (LogId NID)) : h.IsLog (h.upTo p) := by
  cases p with
  | none => exact ⟨isPath_nil, indexedFrom_nil 0⟩
  | some x => exact (hs.isLog_log x.leaderId).take _

theorem com_leader (hc : h.Com mode ⟨V, true⟩ x) (hV : h.leader V) :
    h.com (V.toCommitted mode) x := by
  obtain ⟨l, hl, hcom, hr⟩ := hc
  refine hs.com_later _ x V hcom hV ?_
  by_contra hcon
  exact absurd hr (not_le.2 (Vote.rank_lt_iff.2 (Or.inl (not_le.1 hcon))))

theorem com_hasId (hc : h.Com mode ⟨V, true⟩ x) (hV : h.leader V) :
    HasId (h.log (V.toCommitted mode)) x :=
  hs.com_mem _ x (hs.com_leader hc hV)

theorem com_known (hc : h.Com mode v x) : HasId (h.log x.leaderId) x := by
  obtain ⟨l, -, hcom, -⟩ := hc
  exact (hs.logs.path _).at_log (hs.com_mem _ x hcom)

/-- In a log, the order of log ids is the order of indexes. -/
theorem le_iff_index (hl : h.IsLog l) (hx : HasId l x) (hy : HasId l y) :
    x ≤ y ↔ x.index ≤ y.index := by
  have key : ∀ a b : LogId NID, HasId l a → HasId l b → a.index ≤ b.index → a ≤ b := by
    intro a b ha hb hab
    rw [LogId.le_iff]
    rcases (hs.logs.epoch_mono hl.1 ha hb hab).lt_or_eq with hlt | heq
    · exact Or.inl hlt
    · exact Or.inr ⟨heq, hab⟩
  refine ⟨?_, key x y hx hy⟩
  intro hle
  by_contra hlt
  have heq := le_antisymm hle (key y x hy hx (by omega))
  rw [heq] at hlt
  exact hlt le_rfl

theorem le_iff_nextIndex (hl : h.IsLog l) {a b : Option (LogId NID)} (ha : Holds l a)
    (hb : Holds l b) : a ≤ b ↔ nextIndex a ≤ nextIndex b := by
  cases a with
  | none => simp
  | some x =>
    cases b with
    | none => simp
    | some y =>
      rw [Option.some_le_some, hs.le_iff_index hl (holds_some.1 ha) (holds_some.1 hb)]
      simp

/-- Log ids that are committed lie on one path. -/
theorem com_compatible (hx : h.Com mode v x) (hy : h.Com mode v' y) (hle : x.index ≤ y.index) :
    HasId (h.upTo (some y)) x := by
  obtain ⟨l, hl, hcom, -⟩ := hx
  obtain ⟨l', hl', hcom', -⟩ := hy
  -- both are in the log of the later one of the two leaders
  have key : ∀ k, h.com k x → h.com k y → HasId (h.upTo (some y)) x := by
    intro k hkx hky
    have hlog := hs.isLog_log k
    rw [← hlog.take_eq_upTo (hs.com_mem k y hky)]
    exact hasId_take_iff.2 ⟨by omega, hs.com_mem k x hkx⟩
  rcases le_total (l.toCommitted mode) (l'.toCommitted mode) with hll | hll
  · exact key _ (hs.com_later _ x l' hcom hl' hll) hcom'
  · exact key _ hcom (hs.com_later _ y l hcom' hl hll)

theorem index_le_of_com (hx : h.Com mode v x) (hy : h.Com mode v' y) (hle : x ≤ y) :
    x.index ≤ y.index := by
  by_contra hlt
  have hyx := hs.com_compatible hy hx (by omega)
  exact hlt ((hs.le_iff_index (hs.isLog_upTo _) (hasId_upTo (hs.com_known hx)) hyx).1 hle)

theorem com_below (hc : h.Com mode v x) (hy : HasId (h.upTo (some x)) y) : h.Com mode v y := by
  obtain ⟨l, hl, hcom, hr⟩ := hc
  have hmem := hs.com_mem _ x hcom
  have hlog := hs.isLog_log (l.toCommitted mode)
  rw [← hlog.take_eq_upTo hmem] at hy
  obtain ⟨hlt, hy⟩ := hasId_take_iff.1 hy
  exact ⟨l, hl, hs.com_down _ x y hcom hy (by omega), hr⟩

end Sound

theorem Com.mono (hc : h.Com mode v x) (hv : v.rank mode ≤ v'.rank mode) : h.Com mode v' x := by
  obtain ⟨l, hl, hcom, hr⟩ := hc
  exact ⟨l, hl, hcom, hr.trans hv⟩

end History

end ZenohRaft
