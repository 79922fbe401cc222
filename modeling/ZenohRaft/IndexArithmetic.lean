/-
  `Config::validate`, and whether the configurations that it accepts keep the `u64` arithmetic on
  log indexes within its range.

  `nextSendChecked`, `readLogEntriesChecked`, `calcPurgeUptoChecked` and `shouldSnapshotChecked`
  compute as their sources do, in checked arithmetic: `none` is an overflow or an underflow.

  * `Config.IndexSafe cfg`: in every state whose log indexes are below `2^63`, each of the four
    computes what the model of it in unbounded numbers does.
  * `Config.indexSafe_iff`: this is so for exactly those configurations whose limits are below
    `2^63` and whose purge batch is not 0 while some logs are kept.
  * `accepted_config_overflows`: `validate` accepts configurations beyond these limits, and a
    leader overflows with them.
-/
import ZenohRaft.Lib.Checked
import ZenohRaft.Replication.Stream
import ZenohRaft.Reversion

namespace ZenohRaft

open Lib

variable {NID N D : Type}

/-! ## The configuration -/

/-- `SnapshotPolicy`. -/
inductive SnapshotPolicy where
  | logsSinceLast (threshold : Nat)
  | never
  deriving DecidableEq

/-- `Config`: the fields that `validate`, `EngineConfig::new` and the snapshot policy read. -/
structure Config where
  electionTimeoutMin : Nat
  electionTimeoutMax : Nat
  heartbeatInterval : Nat
  heartbeatMinInterval : Option Nat
  maxPayloadEntries : Nat
  snapshotPolicy : SnapshotPolicy
  maxInSnapshotLogToKeep : Nat
  purgeBatchSize : Nat
  backoff : String
  allowLogReversion : Option Bool
  enableLeaderRestore : Option Bool
  deriving DecidableEq

/-- `ConfigError`, as far as `validate` returns it; `E` is `BackoffParseError`. -/
inductive ConfigError (E : Type) where
  | electionTimeout (min max : Nat)
  | maxPayloadIs0
  | electionTimeoutLTHeartBeat (electionTimeoutMin heartbeatInterval : Nat)
  | heartbeatMinIntervalTooLarge
      (electionTimeoutMin heartbeatInterval heartbeatMinInterval : Nat)
  | invalidBackoff (error : E)
  deriving DecidableEq

namespace Config

/-- `Config::default`. -/
def default : Config :=
  { electionTimeoutMin := 150
    electionTimeoutMax := 300
    heartbeatInterval := 50
    heartbeatMinInterval := some 0
    maxPayloadEntries := 300
    snapshotPolicy := .logsSinceLast 5000
    maxInSnapshotLogToKeep := 1000
    purgeBatchSize := 1
    backoff := "200ms"
    allowLogReversion := none
    enableLeaderRestore := none }

/-- `Config::heartbeat_min_interval`. -/
def heartbeatMinIntervalOrZero (cfg : Config) : Nat := cfg.heartbeatMinInterval.getD 0

/-- `Config::tick_interval`, in wrapping arithmetic. -/
def tickInterval (cfg : Config) : Nat := max (cfg.heartbeatInterval * 13 % 2 ^ 64 / 64) 1

/-- `Config::validate`; `parse` is `BackoffSeries::parse`. The largest heartbeat gap wraps around
    in a release build. -/
def validate {E : Type} (parse : String → Except E Unit) (cfg : Config) :
    Except (ConfigError E) Config :=
  let heartbeatMinInterval := cfg.heartbeatMinIntervalOrZero
  let suppressionEnabled := 0 < heartbeatMinInterval
  let maxHeartbeatGap :=
    (heartbeatMinInterval + cfg.heartbeatInterval + cfg.tickInterval) % 2 ^ 64
  if cfg.electionTimeoutMin ≥ cfg.electionTimeoutMax then
    .error (.electionTimeout cfg.electionTimeoutMin cfg.electionTimeoutMax)
  else if cfg.electionTimeoutMin ≤ cfg.heartbeatInterval then
    .error (.electionTimeoutLTHeartBeat cfg.electionTimeoutMin cfg.heartbeatInterval)
  else if suppressionEnabled ∧ cfg.electionTimeoutMin ≤ maxHeartbeatGap then
    .error (.heartbeatMinIntervalTooLarge cfg.electionTimeoutMin cfg.heartbeatInterval
      heartbeatMinInterval)
  else if cfg.maxPayloadEntries = 0 then .error .maxPayloadIs0
  else
    match parse cfg.backoff with
    | .error err => .error (.invalidBackoff err)
    | .ok () => .ok cfg

end Config

/-- `EngineConfig::new`. -/
def EngineConfig.new (mode : LeaderIdMode) (id : NID) (cfg : Config) : EngineConfig NID :=
  { id := id
    mode := mode
    leaderLease := cfg.electionTimeoutMax
    maxInSnapshotLogToKeep := cfg.maxInSnapshotLogToKeep
    purgeBatchSize := cfg.purgeBatchSize
    maxPayloadEntries := cfg.maxPayloadEntries
    allowLogReversion := cfg.allowLogReversion.getD false
    enableLeaderRestore := cfg.enableLeaderRestore.getD true }

/-! ## The checked functions -/

/-- `LogIdOptionExt::next_index`. -/
def nextIndexChecked (x : Option (LogId NID)) : Option Nat :=
  match x with
  | none => some 0
  | some x => addChecked 64 x.index 1

/-- `LogStateReader::prev_log_id`. -/
def RaftState.prevLogIdChecked (s : RaftState NID N) (index : Nat) :
    Option (Option (LogId NID)) :=
  if index = 0 then some none else (subChecked index 1).map s.getLogId

namespace ProgressEntry

/-- `ProgressEntry::calc_mid`. -/
def calcMidChecked (matchingNext searchingEnd : Nat) : Option Nat := do
  let d ← subChecked searchingEnd matchingNext
  let offset ← mulChecked 64 (d / 16) 8
  addChecked 64 matchingNext offset

variable [LinearOrder NID]

/-- What `ProgressEntry::next_send` puts in flight. -/
def nextInflightChecked (e : ProgressEntry NID) (st : RaftState NID N) (maxEntries : Nat) :
    Option (Inflight NID) := do
  let lastNext ← nextIndexChecked st.lastLogId
  let purgeUptoNext ← nextIndexChecked st.purgeUpto
  let inflightId := st.lastInflightId + 1
  if e.data.searchingEnd < purgeUptoNext then return .snapshot inflightId
  let matchingNext ← nextIndexChecked e.progress
  if matchingNext < e.data.searchingEnd then
    let mid ← calcMidChecked matchingNext e.data.searchingEnd
    let start := max mid purgeUptoNext
    let stop := min (← addChecked 64 start maxEntries) lastNext
    if start = stop then return .snapshot inflightId
    return .newLogs (← st.prevLogIdChecked start) (← st.prevLogIdChecked stop) inflightId
  else return .logsSince e.progress inflightId

/-- `ProgressEntry::next_send`. -/
def nextSendChecked (e : ProgressEntry NID) (st : RaftState NID N) (maxEntries : Nat) :
    Option (ProgressEntry NID × RaftState NID N × Option (Inflight NID)) :=
  if e.data.inflight ≠ .none then some (e, st, none)
  else do
    let inflight ← nextInflightChecked e st maxEntries
    return ({ e with data := { e.data with inflight := inflight } },
      { st with lastInflightId := st.lastInflightId + 1 }, some inflight)

end ProgressEntry

/-- `StreamState::read_log_entries`. The last difference is that of its assertion. -/
def Replication.readLogEntriesChecked (c : Replication.Context NID)
    (reader : Nat → Nat → List (Entry NID N D)) (range : LogIdRange NID) :
    Option (List (Entry NID N D) × LogIdRange NID) := do
  let start ← nextIndexChecked range.prev
  let stop ← nextIndexChecked range.last
  if stop ≤ start then return ([], ⟨range.prev, range.prev⟩)
  let stop := min stop (← addChecked 64 start c.maxPayloadEntries)
  let logs := reader start stop
  match logs.getLast? with
  | none => return ([], ⟨range.prev, range.prev⟩)
  | some last =>
    let _ ← subChecked stop start
    return (logs, ⟨range.prev, some last.logId⟩)

/-- `LogHandler::calc_purge_upto`. -/
def Engine.calcPurgeUptoChecked (e : Engine NID N D) : Option (Option (LogId NID)) := do
  let st := e.state
  let purgeEnd := (← nextIndexChecked st.snapshotMeta.lastLogId) - e.config.maxInSnapshotLogToKeep
  let batchEnd ← addChecked 64 (← nextIndexChecked st.logIds.purged) e.config.purgeBatchSize
  if purgeEnd < batchEnd then return none
  return st.logIds.refAt (← subChecked purgeEnd 1)

namespace SnapshotPolicy

variable [LinearOrder NID]

/-- `SnapshotPolicy::should_snapshot`. -/
def shouldSnapshot (policy : SnapshotPolicy) (st : RaftState NID N)
    (lastTriedAt : Option (LogId NID)) : Option (LogId NID) :=
  match policy with
  | .logsSinceLast threshold =>
    let baseLogId := max lastTriedAt st.snapshotMeta.lastLogId
    if nextIndex baseLogId + threshold ≤ nextIndex st.localCommitted then st.localCommitted
    else none
  | .never => none

/-- `SnapshotPolicy::should_snapshot`, in checked arithmetic. -/
def shouldSnapshotChecked (policy : SnapshotPolicy) (st : RaftState NID N)
    (lastTriedAt : Option (LogId NID)) : Option (Option (LogId NID)) :=
  match policy with
  | .logsSinceLast threshold => do
      let committedNext ← nextIndexChecked st.localCommitted
      let baseLogId := max lastTriedAt st.snapshotMeta.lastLogId
      let limit ← addChecked 64 (← nextIndexChecked baseLogId) threshold
      return if limit ≤ committedNext then st.localCommitted else none
  | .never => some none

end SnapshotPolicy

/-! ## Indexes below the bound -/

/-- The index of a log id is below `2^63`. -/
def IndexBelow (x : Option (LogId NID)) : Prop := nextIndex x ≤ 2 ^ 63

/-- The log ids of a state that the four functions compute with. -/
structure RaftState.IndexesBelow (s : RaftState NID N) : Prop where
  lastLogId : IndexBelow s.lastLogId
  purged : IndexBelow s.logIds.purged
  purgeUpto : IndexBelow s.purgeUpto
  snapshot : IndexBelow s.snapshotMeta.lastLogId
  committed : IndexBelow s.localCommitted

/-- The same for an entry. Its `searching_end` is one past an index. -/
structure ProgressEntry.IndexesBelow (e : ProgressEntry NID) : Prop where
  matching : IndexBelow e.progress
  searching : e.data.searchingEnd ≤ 2 ^ 63

theorem nextIndexChecked_of_below {x : Option (LogId NID)} (h : IndexBelow x) :
    nextIndexChecked x = some (nextIndex x) := by
  cases x with
  | none => rfl
  | some x =>
    have hx : x.index + 1 ≤ 2 ^ 63 := h
    exact addChecked_of_lt (by omega)

theorem RaftState.prevLogIdChecked_eq (s : RaftState NID N) (index : Nat) :
    s.prevLogIdChecked index = some (s.prevLogId index) := by
  unfold prevLogIdChecked prevLogId
  split
  · rfl
  · rw [subChecked_of_le (by omega)]
    rfl

theorem ProgressEntry.calcMidChecked_of_le {matchingNext searchingEnd : Nat}
    (h : matchingNext ≤ searchingEnd) (hsearch : searchingEnd ≤ 2 ^ 63) :
    calcMidChecked matchingNext searchingEnd = some (calcMid matchingNext searchingEnd) := by
  unfold calcMidChecked
  rw [subChecked_of_le h, Option.bind_eq_bind, Option.bind_some,
    mulChecked_of_lt (by omega), Option.bind_some, addChecked_of_lt (by omega)]
  rfl

section Functions

variable [LinearOrder NID]

/-- `next_send` only adds the payload limit to an index. -/
theorem ProgressEntry.nextSendChecked_eq {e : ProgressEntry NID} {s : RaftState NID N}
    (hs : s.IndexesBelow) (he : e.IndexesBelow) {maxEntries : Nat} (hmax : maxEntries < 2 ^ 63) :
    nextSendChecked e s maxEntries = some (nextSend e s maxEntries) := by
  unfold nextSendChecked nextSend nextInflightChecked
  by_cases hidle : e.data.inflight ≠ .none
  · rw [if_pos hidle, if_pos hidle]
  · rw [if_neg hidle, if_neg hidle]
    rw [nextIndexChecked_of_below hs.lastLogId, nextIndexChecked_of_below hs.purgeUpto,
      nextIndexChecked_of_below he.matching]
    simp only [Option.bind_eq_bind, Option.bind_some, Option.pure_def]
    by_cases hpurged : e.data.searchingEnd < nextIndex s.purgeUpto
    · simp only [hpurged, if_true, Option.bind_some]
    · simp only [hpurged, if_false]
      by_cases hprobe : nextIndex e.progress < e.data.searchingEnd
      · have hmid : calcMid (nextIndex e.progress) e.data.searchingEnd ≤ e.data.searchingEnd := by
          unfold calcMid
          omega
        have hstart : max (calcMid (nextIndex e.progress) e.data.searchingEnd)
            (nextIndex s.purgeUpto) ≤ 2 ^ 63 :=
          Nat.max_le.2 ⟨Nat.le_trans hmid he.searching, hs.purgeUpto⟩
        rw [calcMidChecked_of_le (Nat.le_of_lt hprobe) he.searching]
        simp only [hprobe, if_true, Option.bind_some]
        rw [addChecked_of_lt (by omega), Nat.mod_eq_of_lt (by omega)]
        simp only [Option.bind_some, RaftState.prevLogIdChecked_eq]
        split <;> rfl
      · simp only [hprobe, if_false, Option.bind_some]

omit [LinearOrder NID] in
/-- `read_log_entries` adds the payload limit to the first index of a range that is not empty. -/
theorem Replication.readLogEntriesChecked_eq {c : Replication.Context NID}
    (hmax : c.maxPayloadEntries < 2 ^ 63) {range : LogIdRange NID} (hprev : IndexBelow range.prev)
    (hlast : IndexBelow range.last) (reader : Nat → Nat → List (Entry NID N D)) :
    readLogEntriesChecked c reader range = some (readLogEntries c reader range) := by
  unfold readLogEntriesChecked readLogEntries
  have hstart : nextIndex range.prev ≤ 2 ^ 63 := hprev
  rw [nextIndexChecked_of_below hprev, nextIndexChecked_of_below hlast]
  simp only [Option.bind_eq_bind, Option.bind_some, Option.pure_def]
  by_cases hempty : nextIndex range.last ≤ nextIndex range.prev
  · rw [if_pos hempty, if_pos hempty]
  · rw [if_neg hempty, if_neg hempty, addChecked_of_lt (by omega), Nat.mod_eq_of_lt (by omega),
      Option.bind_some,
      subChecked_of_le (by omega)]
    generalize reader (nextIndex range.prev)
      (min (nextIndex range.last) (nextIndex range.prev + c.maxPayloadEntries)) = logs
    cases logs.getLast? <;> rfl

omit [LinearOrder NID] in
/-- `calc_purge_upto` adds the batch size to an index. What it subtracts 1 from is 0 only if the
    batch is 0 and everything in the snapshot is kept. -/
theorem Engine.calcPurgeUptoChecked_eq {e : Engine NID N D} (hs : e.state.IndexesBelow)
    (hbatch : e.config.purgeBatchSize < 2 ^ 63)
    (hend : 0 < e.config.purgeBatchSize ∨ e.config.maxInSnapshotLogToKeep = 0)
    (hsnapshot : e.state.snapshotMeta.lastLogId ≠ none) :
    e.calcPurgeUptoChecked = some e.calcPurgeUpto := by
  have hpos : 0 < nextIndex e.state.snapshotMeta.lastLogId := by
    obtain ⟨x, hx⟩ := Option.ne_none_iff_exists'.1 hsnapshot
    rw [hx]
    exact Nat.succ_pos _
  have hpurged : nextIndex e.state.logIds.purged ≤ 2 ^ 63 := hs.purged
  unfold calcPurgeUptoChecked calcPurgeUpto
  dsimp only
  rw [nextIndexChecked_of_below hs.snapshot, nextIndexChecked_of_below hs.purged]
  simp only [Option.bind_eq_bind, Option.bind_some, Option.pure_def]
  rw [addChecked_of_lt (by omega), Option.bind_some]
  by_cases hskip : nextIndex e.state.snapshotMeta.lastLogId - e.config.maxInSnapshotLogToKeep <
      nextIndex e.state.logIds.purged + e.config.purgeBatchSize
  · rw [if_pos hskip, if_pos hskip]
  · rw [if_neg hskip, if_neg hskip, subChecked_of_le (by omega), if_neg (by omega)]
    rfl

/-- `should_snapshot` adds its threshold to an index. -/
theorem SnapshotPolicy.shouldSnapshotChecked_eq {policy : SnapshotPolicy}
    (hpolicy : ∀ threshold, policy = .logsSinceLast threshold → threshold < 2 ^ 63)
    {s : RaftState NID N} (hs : s.IndexesBelow) {lastTriedAt : Option (LogId NID)}
    (htried : IndexBelow lastTriedAt) :
    policy.shouldSnapshotChecked s lastTriedAt = some (policy.shouldSnapshot s lastTriedAt) := by
  have hbase : IndexBelow (max lastTriedAt s.snapshotMeta.lastLogId) := by
    rcases max_choice lastTriedAt s.snapshotMeta.lastLogId with h | h
    · rw [h]
      exact htried
    · rw [h]
      exact hs.snapshot
  cases policy with
  | never => rfl
  | logsSinceLast threshold =>
    have hthreshold := hpolicy threshold rfl
    have hlimit : nextIndex (max lastTriedAt s.snapshotMeta.lastLogId) ≤ 2 ^ 63 := hbase
    unfold shouldSnapshotChecked shouldSnapshot
    simp only [nextIndexChecked_of_below hs.committed, nextIndexChecked_of_below hbase,
      Option.bind_eq_bind, Option.bind_some, Option.pure_def]
    rw [addChecked_of_lt (by omega), Option.bind_some]

end Functions

/-! ## Safe configurations -/

/-- With this configuration none of the four functions leaves `u64` in a state whose indexes are
    below `2^63`. `calc_purge_upto` runs where `update_snapshot` has taken a newer snapshot. -/
structure Config.IndexSafe (NID N D : Type) [LinearOrder NID] (cfg : Config) : Prop where
  nextSend : ∀ (e : ProgressEntry NID) (s : RaftState NID N), s.IndexesBelow → e.IndexesBelow →
    e.nextSendChecked s cfg.maxPayloadEntries =
      some (ProgressEntry.nextSend e s cfg.maxPayloadEntries)
  readLogEntries : ∀ (leaderVote : LeaderId NID) (reader : Nat → Nat → List (Entry NID N D))
    (range : LogIdRange NID), IndexBelow range.prev → IndexBelow range.last →
    Replication.readLogEntriesChecked ⟨leaderVote, cfg.maxPayloadEntries⟩ reader range =
      some (Replication.readLogEntries ⟨leaderVote, cfg.maxPayloadEntries⟩ reader range)
  calcPurgeUpto : ∀ (mode : LeaderIdMode) (id : NID) (e e' : Engine NID N D)
    (m : SnapshotMeta NID N), e.config = .new mode id cfg → e.updateSnapshot m = (e', true) →
    e'.state.IndexesBelow → e'.calcPurgeUptoChecked = some e'.calcPurgeUpto
  shouldSnapshot : ∀ (s : RaftState NID N) (lastTriedAt : Option (LogId NID)), s.IndexesBelow →
    IndexBelow lastTriedAt → cfg.snapshotPolicy.shouldSnapshotChecked s lastTriedAt =
      some (cfg.snapshotPolicy.shouldSnapshot s lastTriedAt)

section Safe

variable [LinearOrder NID]

theorem Engine.updateSnapshot_true {e e' : Engine NID N D} {m : SnapshotMeta NID N}
    (h : e.updateSnapshot m = (e', true)) :
    e'.config = e.config ∧ e'.state.snapshotMeta.lastLogId ≠ none := by
  unfold updateSnapshot at h
  split at h
  · cases h
  · rename_i hnewer
    cases h
    refine ⟨rfl, fun hnone => hnewer ?_⟩
    rw [show m.lastLogId = none from hnone]
    exact Option.none_le

/-- The limits under which the arithmetic is safe are sufficient. -/
theorem Config.indexSafe_of_limits {cfg : Config} (hmax : cfg.maxPayloadEntries < 2 ^ 63)
    (hbatch : cfg.purgeBatchSize < 2 ^ 63)
    (hend : 0 < cfg.purgeBatchSize ∨ cfg.maxInSnapshotLogToKeep = 0)
    (hpolicy : ∀ threshold, cfg.snapshotPolicy = .logsSinceLast threshold → threshold < 2 ^ 63) :
    cfg.IndexSafe NID N D where
  nextSend _ _ hs he := ProgressEntry.nextSendChecked_eq hs he hmax
  readLogEntries _ reader _ hprev hlast :=
    Replication.readLogEntriesChecked_eq hmax hprev hlast reader
  calcPurgeUpto mode id e e' m hcfg hupdate hs := by
    obtain ⟨hkeeps, hsnapshot⟩ := Engine.updateSnapshot_true hupdate
    have hcfg' : e'.config = .new mode id cfg := hkeeps.trans hcfg
    refine Engine.calcPurgeUptoChecked_eq hs ?_ ?_ hsnapshot
    · rw [hcfg']
      exact hbatch
    · rw [hcfg']
      exact hend
  shouldSnapshot _ _ hs htried := SnapshotPolicy.shouldSnapshotChecked_eq hpolicy hs htried

/-! The limits are also necessary: a state for each of them. -/

/-- A log id with the largest index below the bound. -/
def topLogId : LogId NID := ⟨⟨0, none⟩, 2 ^ 63 - 1⟩

omit [LinearOrder NID] in
theorem topLogId_below : IndexBelow (some (topLogId : LogId NID)) := by
  show 2 ^ 63 - 1 + 1 ≤ 2 ^ 63
  omega

/-- The state of a node without a log, purged and to be purged as given. -/
def RaftState.empty [Inhabited NID] (purged purgeUpto : Option (LogId NID)) : RaftState NID N :=
  { vote := .new 0 0 ⟨⟨0, default⟩, false⟩
    logIds := ⟨purged, []⟩
    membershipState := ⟨.default, .default⟩
    snapshotMeta := ⟨none, .default⟩
    lastInflightId := 0
    ioState := .new ⟨⟨0, default⟩, false⟩ none none purged
    purgeUpto := purgeUpto
    progressIdGen := 1 }

omit [LinearOrder NID] in
theorem RaftState.empty_below [Inhabited NID] {purged purgeUpto : Option (LogId NID)}
    (hpurged : IndexBelow purged) (hupto : IndexBelow purgeUpto) :
    (RaftState.empty purged purgeUpto : RaftState NID N).IndexesBelow :=
  ⟨hpurged, hpurged, hupto, Nat.zero_le _, Nat.zero_le _⟩

/-- Everything is purged and the whole log is searched. -/
theorem Config.maxPayloadEntries_lt_of_indexSafe [Inhabited NID] {cfg : Config}
    (h : cfg.IndexSafe NID N D) : cfg.maxPayloadEntries < 2 ^ 63 := by
  by_contra hmax
  let e : ProgressEntry NID := ⟨Inhabited.default, none, ⟨0, .none, 2 ^ 63, false⟩⟩
  let s : RaftState NID N := .empty none (some topLogId)
  have hs : s.IndexesBelow := RaftState.empty_below (Nat.zero_le _) topLogId_below
  have hsend := h.nextSend e s hs ⟨Nat.zero_le _, Nat.le_refl _⟩
  have hmid : ProgressEntry.calcMid 0 (2 ^ 63) ≤ 2 ^ 63 := by
    unfold ProgressEntry.calcMid
    omega
  have htop : nextIndex s.purgeUpto = 2 ^ 63 := by
    show 2 ^ 63 - 1 + 1 = 2 ^ 63
    omega
  have hadd : addChecked 64 (2 ^ 63) cfg.maxPayloadEntries = none :=
    addChecked_eq_none.2 (by omega)
  unfold ProgressEntry.nextSendChecked ProgressEntry.nextInflightChecked at hsend
  rw [if_neg (by simp [e]), nextIndexChecked_of_below hs.lastLogId,
    nextIndexChecked_of_below hs.purgeUpto, htop] at hsend
  simp only [Option.bind_eq_bind, Option.bind_some, e, nextIndexChecked, Nat.lt_irrefl, if_false,
    ProgressEntry.calcMidChecked_of_le (Nat.zero_le _) (Nat.le_refl _), Nat.max_eq_right hmid, hadd,
    Option.bind_none, Nat.two_pow_pos, if_true, reduceCtorEq] at hsend

/-- The batch would end at or past `2^64`. -/
theorem Config.purgeBatchSize_lt_of_indexSafe [Inhabited NID] {cfg : Config}
    (h : cfg.IndexSafe NID N D) : cfg.purgeBatchSize < 2 ^ 63 := by
  by_contra hbatch
  let e : Engine NID N D := .new (.empty (some topLogId) none) (.new .std Inhabited.default cfg)
  let m : SnapshotMeta NID N := ⟨some topLogId, .default⟩
  have hs : RaftState.IndexesBelow { e.state with snapshotMeta := m } :=
    ⟨topLogId_below, topLogId_below, Nat.zero_le _, topLogId_below, Nat.zero_le _⟩
  have hcalc := h.calcPurgeUpto .std Inhabited.default e _ m rfl rfl hs
  have hadd : addChecked 64 (nextIndex e.state.logIds.purged) e.config.purgeBatchSize = none := by
    refine addChecked_eq_none.2 ?_
    show 2 ^ 64 ≤ 2 ^ 63 - 1 + 1 + cfg.purgeBatchSize
    omega
  unfold Engine.calcPurgeUptoChecked at hcalc
  dsimp only at hcalc
  rw [nextIndexChecked_of_below hs.snapshot, nextIndexChecked_of_below hs.purged] at hcalc
  simp only [Option.bind_eq_bind, Option.bind_some] at hcalc
  rw [hadd] at hcalc
  cases hcalc

/-- The first entry is in the snapshot and kept, and nothing is purged. -/
theorem Config.purgeBatchSize_pos_of_indexSafe [Inhabited NID] {cfg : Config}
    (h : cfg.IndexSafe NID N D) : 0 < cfg.purgeBatchSize ∨ cfg.maxInSnapshotLogToKeep = 0 := by
  by_contra hzero
  obtain ⟨hbatch, hkeep⟩ := not_or.1 hzero
  let e : Engine NID N D := .new (.empty none none) (.new .std Inhabited.default cfg)
  let m : SnapshotMeta NID N := ⟨some ⟨⟨0, none⟩, 0⟩, .default⟩
  have hfirst : IndexBelow m.lastLogId := by
    show 0 + 1 ≤ 2 ^ 63
    omega
  have hs : RaftState.IndexesBelow { e.state with snapshotMeta := m } :=
    ⟨Nat.zero_le _, Nat.zero_le _, Nat.zero_le _, hfirst, Nat.zero_le _⟩
  have hcalc := h.calcPurgeUpto .std Inhabited.default e _ m rfl rfl hs
  have hend : nextIndex m.lastLogId - e.config.maxInSnapshotLogToKeep = 0 := by
    show 0 + 1 - cfg.maxInSnapshotLogToKeep = 0
    omega
  have hadd : addChecked 64 (nextIndex e.state.logIds.purged) e.config.purgeBatchSize = some 0 := by
    show addChecked 64 0 cfg.purgeBatchSize = some 0
    rw [show cfg.purgeBatchSize = 0 by omega]
    rfl
  unfold Engine.calcPurgeUptoChecked at hcalc
  dsimp only at hcalc
  rw [nextIndexChecked_of_below hs.snapshot, nextIndexChecked_of_below hs.purged] at hcalc
  simp only [Option.bind_eq_bind, Option.bind_some] at hcalc
  rw [hadd, hend] at hcalc
  cases hcalc

/-- A snapshot of the last entry has been tried. -/
theorem Config.threshold_lt_of_indexSafe [Inhabited NID] {cfg : Config}
    (h : cfg.IndexSafe NID N D) {threshold : Nat}
    (hpolicy : cfg.snapshotPolicy = .logsSinceLast threshold) : threshold < 2 ^ 63 := by
  by_contra hthreshold
  let s : RaftState NID N := .empty none none
  have hs : s.IndexesBelow := RaftState.empty_below (Nat.zero_le _) (Nat.zero_le _)
  have hbase : max (some topLogId) s.snapshotMeta.lastLogId = some topLogId :=
    max_eq_left Option.none_le
  have hadd : addChecked 64 (nextIndex (some (topLogId : LogId NID))) threshold = none := by
    refine addChecked_eq_none.2 ?_
    show 2 ^ 64 ≤ 2 ^ 63 - 1 + 1 + threshold
    omega
  have hcalc := h.shouldSnapshot s (some topLogId) hs topLogId_below
  rw [hpolicy] at hcalc
  unfold SnapshotPolicy.shouldSnapshotChecked at hcalc
  dsimp only at hcalc
  rw [hbase, nextIndexChecked_of_below hs.committed,
    nextIndexChecked_of_below topLogId_below] at hcalc
  simp only [Option.bind_eq_bind, Option.bind_some] at hcalc
  rw [hadd] at hcalc
  cases hcalc

/-- The configurations with which the arithmetic on indexes stays within `u64`. -/
theorem Config.indexSafe_iff [Inhabited NID] (cfg : Config) : cfg.IndexSafe NID N D ↔
    cfg.maxPayloadEntries < 2 ^ 63 ∧ cfg.purgeBatchSize < 2 ^ 63 ∧
      (0 < cfg.purgeBatchSize ∨ cfg.maxInSnapshotLogToKeep = 0) ∧
      ∀ threshold, cfg.snapshotPolicy = .logsSinceLast threshold → threshold < 2 ^ 63 := by
  constructor
  · intro h
    exact ⟨maxPayloadEntries_lt_of_indexSafe h, purgeBatchSize_lt_of_indexSafe h,
      purgeBatchSize_pos_of_indexSafe h, fun _ => threshold_lt_of_indexSafe h⟩
  · rintro ⟨hmax, hbatch, hend, hpolicy⟩
    exact indexSafe_of_limits hmax hbatch hend hpolicy

end Safe

/-! ## What `validate` lets through -/

namespace Tracking

/-- Node 0 of three has been elected in term 1. Its log ends at `(1, 1)`, which is in flight to
    node 1 with id 1 on stream 2. -/
def leaderWith (cfg : Config) : Option (Engine (Fin 3) Unit Nat) := do
  let n ← Node.start (.new .std 0 cfg) 0 [] 0 (initialStore Three.firstEntry) ⟨[], none⟩
  let vote : Vote (Fin 3) := ⟨⟨1, 0⟩, false⟩
  let e ← (n.engine.doElect 0 false).handleVoteResp 0 0 ⟨vote, true, none⟩
  e.handleVoteResp 0 1 ⟨vote, true, none⟩

/-- As many entries in a payload as there can be. -/
def wholePayload : Config := { Config.default with maxPayloadEntries := 2 ^ 64 - 1 }

/-- Purges of any size. -/
def anyBatch : Config := { Config.default with purgeBatchSize := 0 }

/-- Node 0 sees the vote of node 1 in term 2 and is elected again in term 3. Node 1 acknowledges
    the first entry of the probe with id 3 on stream 5, and the request for the rest fails. -/
def secondProbe : Option (Engine (Fin 3) Unit Nat) := do
  let e ← leaderWith wholePayload
  let e := (e.updateVote 0 ⟨⟨2, 1⟩, false⟩).1
  let vote : Vote (Fin 3) := ⟨⟨3, 0⟩, false⟩
  let e ← (e.doElect 0 false).handleVoteResp 0 0 ⟨vote, true, none⟩
  let e ← e.handleVoteResp 0 1 ⟨vote, true, none⟩
  let e ← e.updateProgress (← e.leader) 1 5 (.matching (some firstId)) (some 3)
  e.updateProgress (← e.leader) 1 5 .error (some 3)

/-- Nodes 1 and 2 acknowledge both entries, so that they are committed, and a snapshot of them is
    built. -/
def firstSnapshot : Option (Engine (Fin 3) Unit Nat × Bool) := do
  let e ← leaderWith anyBatch
  let e ← e.updateProgress (← e.leader) 1 2 (.matching (some lastId)) (some 1)
  let e ← e.updateProgress (← e.leader) 2 3 (.matching (some lastId)) (some 2)
  return e.updateSnapshot ⟨e.state.localCommitted, e.state.membershipState.committed⟩

/-- Both configurations are accepted. With the first one the leader overflows in `next_send`, with
    the second one it underflows in `calc_purge_upto`. -/
theorem accepted_config_overflows :
    wholePayload.validate (fun _ => (.ok () : Except Unit Unit)) = .ok wholePayload ∧
    (do
      let e ← secondProbe
      let item ← (← e.leader).progress.tryGet 1
      return (nextIndex e.state.lastLogId, item.data.searchingEnd,
        (ProgressEntry.nextSendChecked item e.state e.config.maxPayloadEntries).isSome) :
          Option (Nat × Nat × Bool)) = some (3, 2, false) ∧
    anyBatch.validate (fun _ => (.ok () : Except Unit Unit)) = .ok anyBatch ∧
    (do
      let (e, updated) ← firstSnapshot
      return (updated, e.state.snapshotMeta.lastLogId, e.calcPurgeUptoChecked) :
        Option (Bool × Option (LogId (Fin 3)) × Option (Option (LogId (Fin 3))))) =
          some (true, some lastId, none) := by
  decide +kernel

end Tracking

end ZenohRaft
