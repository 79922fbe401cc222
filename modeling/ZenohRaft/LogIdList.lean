/-
  The compressed list of log ids: `engine/log_id_list.rs`.

  `LogIdList` keeps the last purged log id and, of every leader, its last log id, the key of the
  leader. `expand` is the plain list (`LogIds`) that it stands for; that the operations agree with
  those of the plain list is in `ZenohRaft.LogIdRefinement`. At start-up the list is read back
  from the log store by a search for the places where the leader changes (`loadKeyLogIds`), which
  reads few entries.

  * `loadKeyLogIds_eq`: on a log whose leaders do not decrease, the search finds what appending
    the log ids one by one builds.
  * `expandKeys_foldl`: that list stands for exactly these log ids.
-/
import ZenohRaft.Lib.Search
import ZenohRaft.State

namespace ZenohRaft

open Lib

variable {NID : Type} [LinearOrder NID]

/-! ## The list -/

/-- `LogIdList`. -/
structure LogIdList (NID : Type) where
  purged : Option (LogId NID)
  keyLogIds : List (LogId NID)

namespace LogIdList

/-- `LogIdList::push_key_log_id`: the last id gives way to one of the same leader. -/
def pushKeyLogId : List (LogId NID) → LogId NID → List (LogId NID)
  | [], x => [x]
  | [k], x => if k.leaderId = x.leaderId then [x] else [k, x]
  | k :: k' :: ks, x => k :: pushKeyLogId (k' :: ks) x

/-- The search of `LogIdList::get_key_log_ids` between two log ids. `fuel` bounds its depth, and
    `none` stands for an error of the reader `read`. -/
def loadKeyLogIds (read : Nat → Option (LogId NID)) :
    Nat → LogId NID → LogId NID → List (LogId NID) → Option (List (LogId NID))
  | 0, _, _, _ => none
  | fuel + 1, first, last, res =>
    if first.leaderId = last.leaderId then some (pushKeyLogId res last)
    else if first.index + 1 = last.index then
      some (pushKeyLogId (pushKeyLogId res first) last)
    else
      (read ((first.index + last.index) / 2)).bind fun mid =>
        if first.leaderId = mid.leaderId then loadKeyLogIds read fuel mid last res
        else (loadKeyLogIds read fuel first mid res).bind (loadKeyLogIds read fuel mid last)

/-- The log ids from index `start` on that a list of last ids stands for. -/
def expandKeys : Nat → List (LogId NID) → List (LogId NID)
  | _, [] => []
  | start, k :: ks =>
    (List.range' start (k.index + 1 - start)).map (fun i => ⟨k.leaderId, i⟩) ++
      expandKeys (k.index + 1) ks

/-- The plain list of log ids. -/
def expand (l : LogIdList NID) : LogIds NID :=
  ⟨l.purged, expandKeys (nextIndex l.purged) l.keyLogIds⟩

/-- `LogIdList::first_index`. -/
def firstIndex (l : LogIdList NID) : Nat := nextIndex l.purged

/-- `LogIdList::last`. -/
def last (l : LogIdList NID) : Option (LogId NID) := l.keyLogIds.getLast?.or l.purged

/-- `LogIdList::append`. -/
def append (l : LogIdList NID) (newLogId : LogId NID) : LogIdList NID :=
  { l with keyLogIds := pushKeyLogId l.keyLogIds newLogId }

/-- `LogIdList::extend`. -/
def extend (l : LogIdList NID) (newIds : List (LogId NID)) : LogIdList NID :=
  newIds.foldl append l

/-- `LogIdList::extend_from_same_leader`: the first and the last id are appended. -/
def extendFromSameLeader (l : LogIdList NID) : List (LogId NID) → LogIdList NID
  | [] => l
  | first :: rest =>
    match rest.getLast? with
    | some last => if last ≠ first then (l.append first).append last else l.append first
    | none => l.append first

/-- The search for an index among the keys. -/
def searchKey (l : LogIdList NID) (index : Nat) : Except Nat Nat :=
  binarySearchBy (fun x => compare x.index index) l.keyLogIds

/-- The place of the first key at or above `index`, if there is one. -/
def findKey (l : LogIdList NID) (index : Nat) : Option Nat :=
  match l.searchKey index with
  | .ok i => some i
  | .error i => if i = l.keyLogIds.length then none else some i

/-- The first index that key `i` stands for. -/
def rangeStart (l : LogIdList NID) (i : Nat) : Nat :=
  if i = 0 then l.firstIndex else nextIndex l.keyLogIds[i - 1]?

/-- `LogIdList::truncate`. -/
def truncate (l : LogIdList NID) (since : Nat) : LogIdList NID :=
  if since = 0 then { l with keyLogIds := [] }
  else
    match l.findKey since with
    | none => l
    | some i =>
      let kept := l.keyLogIds.take i
      if l.rangeStart i < since then
        let truncated := l.keyLogIds[i]?.map fun k => (⟨k.leaderId, since - 1⟩ : LogId NID)
        { l with keyLogIds := kept ++ truncated.toList }
      else { l with keyLogIds := kept }

/-- `LogIdList::purge`. -/
def purge (l : LogIdList NID) (upto : LogId NID) : LogIdList NID :=
  if nextIndex l.last ≤ upto.index then ⟨some upto, []⟩
  else if upto.index < l.firstIndex then l
  else
    match l.searchKey upto.index with
    | .ok i => ⟨some upto, l.keyLogIds.drop (i + 1)⟩
    | .error i => ⟨some upto, l.keyLogIds.drop i⟩

/-- `LogIdList::ref_at`. -/
def refAt (l : LogIdList NID) (index : Nat) : Option (LogId NID) :=
  if index < l.firstIndex then l.purged.filter fun p => decide (p.index = index)
  else
    match l.findKey index with
    | none => none
    | some i =>
      if index < l.rangeStart i then none
      else l.keyLogIds[i]?.map fun k => ⟨k.leaderId, index⟩

/-- `LogIdList::by_last_leader`. -/
def byLastLeader (l : LogIdList NID) : Option (LeaderLogIds NID) :=
  l.last.map fun last =>
    let count := l.keyLogIds.length
    ⟨last.leaderId, if count = 0 then last.index else l.rangeStart (count - 1), last.index⟩

end LogIdList

/-- The indexes of some log ids count up from `b`. -/
def ConsecutiveFrom (b : Nat) (l : List (LogId NID)) : Prop :=
  ∀ i x, l[i]? = some x → x.index = b + i

/-- Leaders do not decrease along a log. -/
def LeadersUp (l : List (LogId NID)) : Prop := l.Pairwise fun x y => x.leaderId ≤ y.leaderId

namespace LogIdList

variable {b s : Nat} {l ks res : List (LogId NID)} {x y : LogId NID}

/-! ## What appending builds -/

/-- The last ids have room for what they stand for. -/
def KeysFrom : Nat → List (LogId NID) → Prop
  | _, [] => True
  | start, k :: ks => start ≤ k.index ∧ KeysFrom (k.index + 1) ks

omit [LinearOrder NID] in
theorem range'_map_snoc {c : CommittedLeaderId NID} {i : Nat} (h : s ≤ i) :
    (List.range' s (i + 1 - s)).map (fun j => (⟨c, j⟩ : LogId NID)) =
      (List.range' s (i - s)).map (fun j => ⟨c, j⟩) ++ [⟨c, i⟩] := by
  have hlen : i + 1 - s = (i - s) + 1 := by omega
  have hlast : s + (i - s) = i := by omega
  rw [hlen, List.range'_1_concat, List.map_append, hlast]
  rfl

/-- One more log id at the end. -/
theorem expandKeys_push (hk : KeysFrom s ks) (hx : x.index = s + (expandKeys s ks).length) :
    expandKeys s (pushKeyLogId ks x) = expandKeys s ks ++ [x] ∧ KeysFrom s (pushKeyLogId ks x) := by
  induction ks generalizing s with
  | nil =>
    have hxs : x.index = s := by simpa [expandKeys] using hx
    subst hxs
    simp [pushKeyLogId, expandKeys, KeysFrom]
  | cons k ks ih =>
    obtain ⟨hs, hrest⟩ := hk
    cases ks with
    | nil =>
      have hxk : x.index = k.index + 1 := by
        simp only [expandKeys, List.append_nil, List.length_map, List.length_range'] at hx
        omega
      unfold pushKeyLogId
      split
      · rename_i hleader
        refine ⟨?_, ⟨by omega, trivial⟩⟩
        simp only [expandKeys, List.append_nil]
        rw [range'_map_snoc (by omega), hxk, ← hleader]
        congr 2
        obtain ⟨c, i⟩ := x
        simp only at hxk hleader
        rw [hxk, hleader]
      · refine ⟨?_, ⟨hs, by omega, trivial⟩⟩
        obtain ⟨c, i⟩ := x
        simp only at hxk
        subst hxk
        simp [expandKeys]
    | cons k' ks =>
      have hlen : x.index = (k.index + 1) + (expandKeys (k.index + 1) (k' :: ks)).length := by
        rw [expandKeys, List.length_append, List.length_map, List.length_range'] at hx
        omega
      obtain ⟨hexp, hkeys⟩ := ih hrest hlen
      refine ⟨?_, ⟨hs, hkeys⟩⟩
      show _ ++ expandKeys (k.index + 1) (pushKeyLogId (k' :: ks) x) =
        (_ ++ expandKeys (k.index + 1) (k' :: ks)) ++ [x]
      rw [hexp, List.append_assoc]

omit [LinearOrder NID] in
theorem consecutiveFrom_append_singleton (h : ConsecutiveFrom b (l ++ [x])) :
    ConsecutiveFrom b l ∧ x.index = b + l.length := by
  constructor
  · intro i y hy
    exact h i y (by rw [List.getElem?_append_left (List.getElem?_eq_some_iff.1 hy).1]; exact hy)
  · exact h l.length x (by simp)

omit [LinearOrder NID] in
/-- Keys stand for consecutive log ids if these are in order. -/
theorem expandKeys_consecutive (hfrom : ∀ y ∈ expandKeys s ks, s ≤ y.index)
    (hup : (expandKeys s ks).Pairwise fun y z => y.index < z.index) :
    ConsecutiveFrom s (expandKeys s ks) := by
  induction ks generalizing s with
  | nil => exact nofun
  | cons k ks ih =>
    unfold expandKeys at hfrom hup ⊢
    obtain ⟨-, hup', hcross⟩ := List.pairwise_append.1 hup
    have hrest : ∀ y ∈ expandKeys (k.index + 1) ks, k.index + 1 ≤ y.index := by
      intro y hy
      rcases Nat.lt_or_ge k.index s with hlt | hge
      · exact hlt.trans_le (hfrom y (List.mem_append_right _ hy))
      · exact hcross k (List.mem_map.2 ⟨k.index, List.mem_range'_1.2 (by omega), rfl⟩) y hy
    have hcons := ih hrest hup'
    intro i y hy
    rcases Nat.lt_or_ge i (k.index + 1 - s) with hi | hi
    · rw [List.getElem?_append_left (by simpa using hi), List.getElem?_map,
        List.getElem?_range' hi, Nat.one_mul] at hy
      obtain rfl := Option.some.inj hy
      rfl
    · rw [List.getElem?_append_right (by simpa using hi), List.length_map,
        List.length_range'] at hy
      have hlen := (List.getElem?_eq_some_iff.1 hy).1
      have hget := List.getElem?_eq_getElem (Nat.zero_lt_of_lt hlen)
      have hfirst := hcons 0 _ hget
      have hle := hfrom _ (List.mem_append_right _ (List.mem_of_getElem? hget))
      have hidx := hcons _ y hy
      omega

/-- The list that appending builds stands for what was appended. -/
theorem expandKeys_foldl (h : ConsecutiveFrom b l) :
    expandKeys b (l.foldl pushKeyLogId []) = l ∧ KeysFrom b (l.foldl pushKeyLogId []) := by
  induction l using List.reverseRecOn with
  | nil => exact ⟨rfl, trivial⟩
  | append_singleton l x ih =>
    obtain ⟨hl, hx⟩ := consecutiveFrom_append_singleton h
    obtain ⟨hexp, hkeys⟩ := ih hl
    rw [List.foldl_append]
    have hpush := expandKeys_push hkeys (by rw [hexp]; exact hx)
    rw [hexp] at hpush
    exact hpush

/-! ## What the search finds -/

theorem push_push (h : x.leaderId = y.leaderId) :
    pushKeyLogId (pushKeyLogId ks x) y = pushKeyLogId ks y := by
  induction ks with
  | nil => simp [pushKeyLogId, h]
  | cons k ks ih =>
    cases ks with
    | nil =>
      by_cases hk : k.leaderId = x.leaderId
      · simp [pushKeyLogId, hk, h]
      · have hk' : k.leaderId ≠ y.leaderId := by rw [← h]; exact hk
        simp [pushKeyLogId, hk', h]
    | cons k' ks =>
      have hne : ∃ a as, pushKeyLogId (k' :: ks) x = a :: as := by
        cases ks with
        | nil =>
          unfold pushKeyLogId
          split <;> exact ⟨_, _, rfl⟩
        | cons k'' ks => exact ⟨_, _, rfl⟩
      obtain ⟨a, as, ha⟩ := hne
      rw [pushKeyLogId, ha, pushKeyLogId, ← ha, ih, pushKeyLogId]

/-- Of several ids of one leader the last one counts. -/
theorem foldl_push_same (h : ∀ z ∈ l, z.leaderId = y.leaderId) :
    (l ++ [y]).foldl pushKeyLogId res = pushKeyLogId res y := by
  induction l generalizing res with
  | nil => rfl
  | cons z l ih =>
    rw [List.cons_append, List.foldl_cons, ih fun w hw => h w (by simp [hw]),
      push_push (h z (by simp))]

/-- The part of a list from position `i` to position `j`. -/
def segment (l : List (LogId NID)) (i j : Nat) : List (LogId NID) := (l.take (j + 1)).drop i

section

omit [LinearOrder NID]

theorem segment_snoc {i j : Nat} (hij : i ≤ j) (hy : l[j]? = some y) :
    segment l i j = (l.take j).drop i ++ [y] := by
  have hlen : j < l.length := (List.getElem?_eq_some_iff.1 hy).1
  unfold segment
  rw [List.take_add_one, hy, List.drop_append_of_le_length (by simp; omega)]
  rfl

theorem segment_split {i m j : Nat} (him : i ≤ m) (hmj : m ≤ j) (hx : l[m]? = some x) :
    segment l i j = segment l i m ++ (segment l m j).drop 1 := by
  have hlen : m < l.length := (List.getElem?_eq_some_iff.1 hx).1
  unfold segment
  rw [List.drop_drop]
  have htake : l.take (m + 1) = (l.take (j + 1)).take (m + 1) := by
    rw [List.take_take, Nat.min_eq_left (by omega)]
  rw [htake, ← List.drop_append_of_le_length (by simp; omega), List.take_append_drop]

theorem segment_cons {m j : Nat} (hmj : m ≤ j) (hx : l[m]? = some x) :
    segment l m j = x :: (segment l m j).drop 1 := by
  have hlen : m < l.length := (List.getElem?_eq_some_iff.1 hx).1
  have hhead : (segment l m j)[0]? = some x := by
    unfold segment
    rw [List.getElem?_drop, List.getElem?_take]
    simpa [Nat.lt_succ_of_le hmj] using hx
  cases hseg : segment l m j with
  | nil => simp [hseg] at hhead
  | cons a as =>
    rw [hseg] at hhead
    obtain rfl : a = x := by simpa using hhead
    rfl

end

/-- Between two ids of one leader all ids are of that leader. -/
theorem leader_between (h : LeadersUp l) {i j : Nat} (hx : l[i]? = some x) (hy : l[j]? = some y)
    (hxy : x.leaderId = y.leaderId) : ∀ z ∈ (l.take j).drop i, z.leaderId = y.leaderId := by
  intro z hz
  obtain ⟨k, hk⟩ := List.mem_iff_getElem?.1 hz
  rw [List.getElem?_drop, List.getElem?_take] at hk
  split at hk
  · rename_i hlt
    have hpair : ∀ {a c : Nat} {u v : LogId NID}, l[a]? = some u → l[c]? = some v → a < c →
        u.leaderId ≤ v.leaderId := by
      intro a c u v hu hv hac
      obtain ⟨ha, rfl⟩ := List.getElem?_eq_some_iff.1 hu
      obtain ⟨hc, rfl⟩ := List.getElem?_eq_some_iff.1 hv
      exact List.pairwise_iff_getElem.1 h a c ha hc hac
    have hzy : z.leaderId ≤ y.leaderId := hpair hk hy hlt
    rcases Nat.eq_zero_or_pos k with rfl | hpos
    · rw [Nat.add_zero, hx] at hk
      rw [← Option.some.inj hk, hxy]
    · have hxz : x.leaderId ≤ z.leaderId := hpair hx hk (by omega)
      exact le_antisymm hzy (hxy ▸ hxz)
  · cases hk

/-- The search finds what appending the log ids one by one builds. -/
theorem loadKeyLogIds_eq {read : Nat → Option (LogId NID)} (hread : ∀ i, read (b + i) = l[i]?)
    (hl : ConsecutiveFrom b l) (hup : LeadersUp l) (fuel : Nat) {i j : Nat} (hij : i ≤ j)
    (hx : l[i]? = some x) (hy : l[j]? = some y) (hfuel : j - i < fuel) :
    loadKeyLogIds read fuel x y res = some ((segment l i j).foldl pushKeyLogId res) := by
  induction fuel generalizing i j x y res with
  | zero => omega
  | succ fuel ih =>
    have hxi := hl i x hx
    have hyj := hl j y hy
    unfold loadKeyLogIds
    split
    · rename_i hxy
      rw [segment_snoc hij hy, foldl_push_same (leader_between hup hx hy hxy)]
    · rename_i hne
      have hlt : i < j := by
        rcases Nat.lt_or_eq_of_le hij with h | h
        · exact h
        · subst h
          rw [hx] at hy
          exact absurd (congrArg LogId.leaderId (Option.some.inj hy)) hne
      split
      · rename_i hadj
        have hj : j = i + 1 := by omega
        subst hj
        have htail : (segment l i (i + 1)).drop 1 = [y] := by
          rw [segment_snoc (by omega) hy, List.drop_append_of_le_length]
          · have hdrop : ((l.take (i + 1)).drop i).drop 1 = [] := by
              rw [List.drop_drop, List.drop_of_length_le (by simp)]
            rw [hdrop]
            rfl
          · have hlen : i < l.length := (List.getElem?_eq_some_iff.1 hx).1
            rw [List.length_drop, List.length_take]
            omega
        rw [segment_cons (by omega) hx, htail]
        rfl
      · rename_i hadj
        -- the middle is strictly between the two ends
        obtain ⟨m, hm⟩ : ∃ m, (x.index + y.index) / 2 = b + m :=
          ⟨(x.index + y.index) / 2 - b, by omega⟩
        have him : i < m := by omega
        have hmj : m < j := by omega
        have hlen : j < l.length := (List.getElem?_eq_some_iff.1 hy).1
        obtain ⟨z, hz⟩ : ∃ z, l[m]? = some z := ⟨l[m], List.getElem?_eq_getElem (by omega)⟩
        rw [hm, hread m, hz, Option.bind_some]
        split
        · rename_i hxz
          rw [ih hmj.le hz hy (by omega), segment_split him.le hmj.le hz, List.foldl_append,
            segment_snoc him.le hz, foldl_push_same (leader_between hup hx hz hxz),
            segment_cons hmj.le hz, List.foldl_cons]
          rfl
        · rw [ih him.le hx hz (by omega), Option.bind_some, ih hmj.le hz hy (by omega),
            segment_split him.le hmj.le hz, List.foldl_append, segment_cons hmj.le hz,
            List.foldl_cons, segment_snoc him.le hz, List.foldl_append]
          congr 2
          exact push_push rfl

end LogIdList

end ZenohRaft
