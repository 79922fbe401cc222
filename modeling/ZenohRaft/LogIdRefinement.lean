/-
  The compressed list of log ids stands for the plain list.

  `LogIdList` keeps one key for each leader. `LogIdList.WF` says what its keys always look like:
  their indexes leave room for the ids they stand for, and their leaders increase. Every operation
  keeps it and does to the plain list (`LogIdList.expand`) what its name says:

  * `append_expand`, `extendFromSameLeader_expand`, `truncate_expand`, `purge_expand`;
  * `represents_expand`: what can be read off the keys is what the plain list says;
  * `applyOps_represents`: so after any sequence of operations, as long as it keeps log ids
    consecutive and does not go back to an earlier leader.
-/
import ZenohRaft.Lib.WriteBehind
import ZenohRaft.LogIdList

namespace ZenohRaft

open Lib

variable {NID : Type} [LinearOrder NID]

namespace LogIdList

variable {b s n index : Nat} {l : LogIdList NID} {ks ks' : List (LogId NID)} {x y k : LogId NID}
variable {c : CommittedLeaderId NID}

/-! ## Keys -/

/-- The log ids of one leader from index `s` up to, and without, index `e`. -/
def leaderIds (c : CommittedLeaderId NID) (s e : Nat) : List (LogId NID) :=
  (List.range' s (e - s)).map fun i => ⟨c, i⟩

section

omit [LinearOrder NID]

theorem mem_leaderIds {e : Nat} :
    x ∈ leaderIds c s e ↔ x.leaderId = c ∧ s ≤ x.index ∧ x.index < e := by
  unfold leaderIds
  rw [List.mem_map]
  constructor
  · rintro ⟨i, hi, rfl⟩
    rw [List.mem_range'_1] at hi
    exact ⟨rfl, hi.1, by show i < e; omega⟩
  · rintro ⟨hc, hs, he⟩
    refine ⟨x.index, ?_, ?_⟩
    · rw [List.mem_range'_1]
      omega
    · rw [← hc]

theorem leaderIds_append {m e : Nat} (hs : s ≤ m) (he : m ≤ e) :
    leaderIds c s e = leaderIds c s m ++ leaderIds c m e := by
  have hlen : e - s = (m - s) + (e - m) := by omega
  have hm : s + 1 * (m - s) = m := by omega
  unfold leaderIds
  rw [← List.map_append, hlen, ← List.range'_append, hm]

theorem leaderIds_nil : leaderIds c s s = [] := by
  simp [leaderIds]

end

/-- The index after the last key. -/
def keysEnd : Nat → List (LogId NID) → Nat
  | s, [] => s
  | _, k :: ks => keysEnd (k.index + 1) ks

section

omit [LinearOrder NID]

theorem expandKeys_cons : expandKeys s (k :: ks) =
    leaderIds k.leaderId s (k.index + 1) ++ expandKeys (k.index + 1) ks := rfl

theorem expandKeys_append :
    expandKeys s (ks ++ ks') = expandKeys s ks ++ expandKeys (keysEnd s ks) ks' := by
  induction ks generalizing s with
  | nil => rfl
  | cons k ks ih =>
    rw [List.cons_append, expandKeys_cons, expandKeys_cons, ih, List.append_assoc]
    rfl

theorem keysFrom_append : KeysFrom s (ks ++ ks') ↔ KeysFrom s ks ∧ KeysFrom (keysEnd s ks) ks' := by
  induction ks generalizing s with
  | nil => simp [KeysFrom, keysEnd]
  | cons k ks ih =>
    rw [List.cons_append, KeysFrom, KeysFrom, ih, and_assoc]
    rfl

theorem keysEnd_append : keysEnd s (ks ++ ks') = keysEnd (keysEnd s ks) ks' := by
  induction ks generalizing s with
  | nil => rfl
  | cons k ks ih => exact ih

theorem le_keysEnd (hk : KeysFrom s ks) : s ≤ keysEnd s ks := by
  induction ks generalizing s with
  | nil => exact le_rfl
  | cons k ks ih =>
    have := ih hk.2
    have := hk.1
    unfold keysEnd
    omega

theorem keysEnd_le (hs : s ≤ n) (hk : ∀ k ∈ ks, k.index < n) : keysEnd s ks ≤ n := by
  induction ks generalizing s with
  | nil => exact hs
  | cons k ks ih => exact ih (hk k (by simp)) fun k' hk' => hk k' (by simp [hk'])

/-- What the keys stand for lies between the start and the end. -/
theorem index_of_mem_expandKeys (hk : KeysFrom s ks) (hx : x ∈ expandKeys s ks) :
    s ≤ x.index ∧ x.index < keysEnd s ks := by
  induction ks generalizing s with
  | nil => cases hx
  | cons k ks ih =>
    rw [expandKeys_cons, List.mem_append, mem_leaderIds] at hx
    have hend := le_keysEnd hk.2
    rcases hx with ⟨-, hs, hlt⟩ | hx
    · exact ⟨hs, by show _ < keysEnd (k.index + 1) ks; omega⟩
    · have hx := ih hk.2 hx
      have := hk.1
      exact ⟨by omega, hx.2⟩

theorem key_index (hk : KeysFrom s ks) (hmem : k ∈ ks) : s ≤ k.index := by
  induction ks generalizing s with
  | nil => cases hmem
  | cons k' ks ih =>
    obtain ⟨hs, hk⟩ := hk
    rcases List.mem_cons.1 hmem with rfl | hmem
    · exact hs
    · have := ih hk hmem
      omega

theorem keys_pairwise (hk : KeysFrom s ks) : ks.Pairwise fun a b => a.index < b.index := by
  induction ks generalizing s with
  | nil => exact List.Pairwise.nil
  | cons k ks ih => exact List.pairwise_cons.2 ⟨fun k' hk' => key_index hk.2 hk', ih hk.2⟩

/-- A key is the last of the ids that it stands for. -/
theorem mem_expandKeys_of_mem (hk : KeysFrom s ks) (hmem : k ∈ ks) : k ∈ expandKeys s ks := by
  induction ks generalizing s with
  | nil => cases hmem
  | cons k' ks ih =>
    rw [expandKeys_cons, List.mem_append, mem_leaderIds]
    rcases List.mem_cons.1 hmem with rfl | hmem
    · exact Or.inl ⟨rfl, hk.1, Nat.lt_succ_self _⟩
    · exact Or.inr (ih hk.2 hmem)

/-- Every id has a key of its leader at or after it. -/
theorem exists_key_of_mem (hx : x ∈ expandKeys s ks) :
    ∃ k ∈ ks, k.leaderId = x.leaderId ∧ x.index ≤ k.index := by
  induction ks generalizing s with
  | nil => cases hx
  | cons k ks ih =>
    rw [expandKeys_cons, List.mem_append, mem_leaderIds] at hx
    rcases hx with ⟨hc, -, hlt⟩ | hx
    · exact ⟨k, by simp, hc.symm, by omega⟩
    · obtain ⟨k', hk', hrest⟩ := ih hx
      exact ⟨k', by simp [hk'], hrest⟩

end

/-! ## The search -/

section

omit [LinearOrder NID]

/-- Where the search ends: before the first key at or above the index. -/
theorem searchKey_split (hk : KeysFrom s l.keyLogIds) (index : Nat) :
    ∃ ks ks', l.keyLogIds = ks ++ ks' ∧ (∀ k ∈ ks, k.index < index) ∧
      ((∃ k rest, ks' = k :: rest ∧ k.index = index ∧ l.searchKey index = .ok ks.length) ∨
        (∀ k ∈ ks', index < k.index) ∧ l.searchKey index = .error ks.length) := by
  have hpair := keys_pairwise hk
  have hord : OrderedBy (fun x : LogId NID => compare x.index index) l.keyLogIds := by
    refine hpair.imp ?_
    intro a b hab
    simp only [Nat.compare_eq_lt, Nat.compare_eq_gt]
    omega
  cases hr : l.searchKey index with
  | ok i =>
    obtain ⟨k, hki, hcmp⟩ := binarySearchBy_ok hr
    obtain ⟨hlt, hget⟩ := List.getElem?_eq_some_iff.1 hki
    have hidx : k.index = index := Nat.compare_eq_eq.1 hcmp
    have hsplit : l.keyLogIds = l.keyLogIds.take i ++ k :: l.keyLogIds.drop (i + 1) := by
      conv_lhs => rw [← List.take_append_drop i l.keyLogIds]
      rw [List.drop_eq_getElem_cons hlt, hget]
    have hlen : (l.keyLogIds.take i).length = i := by
      rw [List.length_take]
      omega
    refine ⟨_, _, hsplit, ?_, Or.inl ⟨k, _, rfl, hidx, by rw [hlen]⟩⟩
    intro a ha
    rw [hsplit] at hpair
    have := (List.pairwise_append.1 hpair).2.2 a ha k (by simp)
    omega
  | error i =>
    obtain ⟨hle, htake, hdrop⟩ := binarySearchBy_error hord hr
    have hlen : (l.keyLogIds.take i).length = i := by
      rw [List.length_take]
      omega
    refine ⟨_, _, (List.take_append_drop i l.keyLogIds).symm, ?_, Or.inr ⟨?_, by rw [hlen]⟩⟩
    · intro k hk
      exact Nat.compare_eq_lt.1 (htake k hk)
    · intro k hk
      exact Nat.compare_eq_gt.1 (hdrop k hk)

/-- The key that an index belongs to, if there is one. -/
theorem findKey_split (hk : KeysFrom s l.keyLogIds) (index : Nat) :
    (l.findKey index = none ∧ ∀ k ∈ l.keyLogIds, k.index < index) ∨
      ∃ ks k rest, l.keyLogIds = ks ++ k :: rest ∧ (∀ a ∈ ks, a.index < index) ∧
        index ≤ k.index ∧ l.findKey index = some ks.length := by
  obtain ⟨ks, ks', hsplit, hlt, hcase⟩ := searchKey_split hk index
  unfold findKey
  rcases hcase with ⟨k, rest, rfl, hidx, hr⟩ | ⟨hgt, hr⟩
  · rw [hr]
    exact Or.inr ⟨ks, k, rest, hsplit, hlt, hidx.ge, rfl⟩
  · rw [hr]
    cases ks' with
    | nil =>
      rw [List.append_nil] at hsplit
      refine Or.inl ⟨?_, fun k hk => hlt k (hsplit ▸ hk)⟩
      dsimp only
      rw [if_pos (by rw [hsplit])]
    | cons k rest =>
      refine Or.inr ⟨ks, k, rest, hsplit, hlt, (hgt k (by simp)).le, ?_⟩
      dsimp only
      rw [if_neg (by rw [hsplit]; simp)]

theorem rangeStart_eq (hsplit : l.keyLogIds = ks ++ k :: ks') :
    l.rangeStart ks.length = keysEnd l.firstIndex ks := by
  unfold rangeStart
  cases ks using List.reverseRecOn with
  | nil => rfl
  | append_singleton ks a =>
    rw [if_neg (by simp), hsplit, keysEnd_append, List.length_append]
    simp [keysEnd]

end

/-! ## Operations -/

/-- What the keys always look like. -/
structure WF (l : LogIdList NID) : Prop where
  keys : KeysFrom l.firstIndex l.keyLogIds
  leaders : l.keyLogIds.Pairwise fun a b => a.leaderId < b.leaderId

theorem last_expand (h : l.WF) : l.expand.last = l.last := by
  unfold LogIds.last last expand
  cases hks : l.keyLogIds using List.reverseRecOn with
  | nil => rfl
  | append_singleton ks k =>
    have hk := h.keys
    rw [hks] at hk
    have hle := (keysFrom_append.1 hk).2.1
    have hids : leaderIds k.leaderId (keysEnd l.firstIndex ks) (k.index + 1) =
        leaderIds k.leaderId (keysEnd l.firstIndex ks) k.index ++ [k] := by
      rw [leaderIds_append hle (Nat.le_succ k.index)]
      simp [leaderIds]
    rw [expandKeys_append, expandKeys_cons]
    show (expandKeys l.firstIndex ks ++ (leaderIds k.leaderId (keysEnd l.firstIndex ks)
      (k.index + 1) ++ [])).getLast?.or l.purged = _
    rw [hids, List.append_nil, ← List.append_assoc, List.getLast?_concat, List.getLast?_concat]

omit [LinearOrder NID] in
theorem nextIndex_last (l : LogIdList NID) :
    nextIndex l.last = keysEnd l.firstIndex l.keyLogIds := by
  unfold last
  cases hks : l.keyLogIds using List.reverseRecOn with
  | nil => rfl
  | append_singleton ks k =>
    rw [List.getLast?_concat, keysEnd_append]
    rfl

omit [LinearOrder NID] in
theorem length_expandKeys (hk : KeysFrom s ks) : s + (expandKeys s ks).length = keysEnd s ks := by
  induction ks generalizing s with
  | nil => rfl
  | cons k ks ih =>
    have hrest := ih hk.2
    have hs := hk.1
    rw [expandKeys_cons, List.length_append]
    unfold leaderIds keysEnd
    rw [List.length_map, List.length_range']
    omega

/-- A new id keeps one key for each leader. -/
theorem pushKeyLogId_leaders (h : ks.Pairwise fun a b => a.leaderId < b.leaderId)
    (hx : ∀ k ∈ ks, k.leaderId ≤ x.leaderId) :
    (pushKeyLogId ks x).Pairwise fun a b => a.leaderId < b.leaderId := by
  have hmem : ∀ (ks : List (LogId NID)) (a : LogId NID), a ∈ pushKeyLogId ks x →
      a ∈ ks ∨ a = x := by
    intro ks
    induction ks with
    | nil =>
      intro a ha
      exact Or.inr (by simpa [pushKeyLogId] using ha)
    | cons k ks ih =>
      intro a ha
      cases ks with
      | nil =>
        unfold pushKeyLogId at ha
        split at ha
        · exact Or.inr (by simpa using ha)
        · rcases List.mem_cons.1 ha with rfl | ha
          · exact Or.inl (by simp)
          · exact Or.inr (by simpa using ha)
      | cons k' ks =>
        rcases List.mem_cons.1 ha with rfl | ha
        · exact Or.inl (by simp)
        · rcases ih a ha with hin | rfl
          · exact Or.inl (List.mem_cons_of_mem _ hin)
          · exact Or.inr rfl
  induction ks with
  | nil => simp [pushKeyLogId]
  | cons k ks ih =>
    cases ks with
    | nil =>
      unfold pushKeyLogId
      split
      · simp
      · rename_i hne
        have hlt := lt_of_le_of_ne (hx k (by simp)) hne
        simpa using hlt
    | cons k' ks =>
      obtain ⟨hk, hrest⟩ := List.pairwise_cons.1 h
      refine List.pairwise_cons.2 ⟨?_, ih hrest fun a ha => hx a (List.mem_cons_of_mem _ ha)⟩
      intro a ha
      rcases hmem _ a ha with hin | rfl
      · exact hk a hin
      · exact lt_of_lt_of_le (hk k' (by simp)) (hx k' (by simp))

/-- The next id of the same leader or a later one. -/
structure NextId (last : Option (LogId NID)) (x : LogId NID) : Prop where
  index : x.index = nextIndex last
  leader : ∀ y, last = some y → y.leaderId ≤ x.leaderId

theorem append_expand (h : l.WF) (hx : NextId l.last x) :
    (l.append x).expand = l.expand.extend [x] ∧ (l.append x).WF := by
  have hidx : x.index = l.firstIndex + (expandKeys l.firstIndex l.keyLogIds).length := by
    rw [length_expandKeys h.keys, hx.index, nextIndex_last]
  obtain ⟨hexp, hkeys⟩ := expandKeys_push h.keys hidx
  refine ⟨?_, hkeys, ?_⟩
  · show (⟨l.purged, expandKeys l.firstIndex (pushKeyLogId l.keyLogIds x)⟩ : LogIds NID) = _
    rw [hexp]
    rfl
  · refine pushKeyLogId_leaders h.leaders ?_
    intro k hk
    -- leaders increase, so the last key bounds them all
    obtain ⟨ks, a, hks⟩ := List.eq_nil_or_concat l.keyLogIds |>.resolve_left (List.ne_nil_of_mem hk)
    rw [List.concat_eq_append] at hks
    have hlast : l.last = some a := by
      unfold last
      rw [hks, List.getLast?_concat]
      rfl
    have hax := hx.leader a hlast
    rw [hks] at hk
    rcases List.mem_append.1 hk with hk | hk
    · have hpair := h.leaders
      rw [hks] at hpair
      exact ((List.pairwise_append.1 hpair).2.2 k hk a (by simp)).le.trans hax
    · rw [List.mem_singleton.1 hk]
      exact hax

theorem truncate_expand (h : l.WF) (hn : l.firstIndex ≤ n) :
    (l.truncate n).expand = l.expand.truncate n ∧ (l.truncate n).WF := by
  have hkeep : ∀ (ks : List (LogId NID)) (b : Nat), KeysFrom b ks → keysEnd b ks ≤ n →
      (expandKeys b ks).filter (fun x => decide (x.index < n)) = expandKeys b ks := by
    intro ks b hk hend
    refine List.filter_eq_self.2 ?_
    intro x hx
    have := index_of_mem_expandKeys hk hx
    exact decide_eq_true (by omega)
  unfold truncate
  split
  · rename_i hzero
    subst hzero
    refine ⟨?_, trivial, List.Pairwise.nil⟩
    show (⟨l.purged, []⟩ : LogIds NID) =
      ⟨l.purged, l.expand.ids.filter fun x => decide (x.index < 0)⟩
    simp
  · rcases findKey_split h.keys n with ⟨hfind, hlt⟩ | ⟨ks, k, rest, hsplit, hlt, hle, hfind⟩
    · rw [hfind]
      refine ⟨?_, h⟩
      show l.expand = ⟨l.purged, (expandKeys l.firstIndex l.keyLogIds).filter _⟩
      rw [hkeep _ _ h.keys (keysEnd_le hn hlt)]
      rfl
    · rw [hfind]
      have hk := h.keys
      have hleaders := h.leaders
      rw [hsplit] at hk hleaders
      obtain ⟨hks, hkb, hrest⟩ := keysFrom_append.1 hk
      have hend := keysEnd_le hn hlt
      have hstart := rangeStart_eq hsplit
      -- the ids of the key that stay, and none of what follows it
      have hplain : l.expand.truncate n = ⟨l.purged, expandKeys l.firstIndex ks ++
          leaderIds k.leaderId (keysEnd l.firstIndex ks) n⟩ := by
        show (⟨l.purged, (expandKeys l.firstIndex l.keyLogIds).filter _⟩ : LogIds NID) = _
        rw [hsplit, expandKeys_append, expandKeys_cons, List.filter_append, List.filter_append,
          hkeep ks _ hks hend, leaderIds_append hend (show n ≤ k.index + 1 by omega),
          List.filter_append]
        have hin : (leaderIds k.leaderId (keysEnd l.firstIndex ks) n).filter
            (fun x => decide (x.index < n)) = leaderIds k.leaderId (keysEnd l.firstIndex ks) n :=
          List.filter_eq_self.2 fun x hx => decide_eq_true (mem_leaderIds.1 hx).2.2
        have hout : (leaderIds k.leaderId n (k.index + 1)).filter
            (fun x => decide (x.index < n)) = [] :=
          List.filter_eq_nil_iff.2 fun x hx => by
            have := (mem_leaderIds.1 hx).2.1
            simpa using this
        have hbehind : (expandKeys (k.index + 1) rest).filter
            (fun x => decide (x.index < n)) = [] :=
          List.filter_eq_nil_iff.2 fun x hx => by
            have := (index_of_mem_expandKeys hrest hx).1
            simp only [decide_eq_true_eq]
            omega
        rw [hin, hout, hbehind, List.append_nil, List.append_nil]
      rw [hplain]
      dsimp only
      rw [hstart, hsplit, List.take_left, List.getElem?_append_right le_rfl, Nat.sub_self,
        List.getElem?_cons_zero, Option.map_some]
      obtain ⟨hlks, hlk, hcross⟩ := List.pairwise_append.1 hleaders
      split
      · rename_i hlt'
        have hidx : n - 1 + 1 = n := by omega
        refine ⟨?_, ?_, ?_⟩
        · show (⟨l.purged, expandKeys l.firstIndex (ks ++ [⟨k.leaderId, n - 1⟩])⟩ : LogIds NID) = _
          rw [expandKeys_append, expandKeys_cons, hidx]
          simp [expandKeys]
        · exact keysFrom_append.2 ⟨hks, by show keysEnd l.firstIndex ks ≤ n - 1; omega, trivial⟩
        · refine List.pairwise_append.2 ⟨hlks, by simp, ?_⟩
          intro a ha b hb
          have hb : b = ⟨k.leaderId, n - 1⟩ := by simpa using hb
          rw [hb]
          exact hcross a ha k (by simp)
      · rename_i hge
        have heq : keysEnd l.firstIndex ks = n := by omega
        rw [heq, leaderIds_nil, List.append_nil]
        exact ⟨rfl, hks, hlks⟩

theorem purge_expand (h : l.WF) (upto : LogId NID) :
    (l.purge upto).expand = l.expand.purge upto ∧ (l.purge upto).WF := by
  unfold purge LogIds.purge
  rw [last_expand h]
  have hfirst : l.expand.firstIndex = l.firstIndex := rfl
  rw [hfirst]
  split
  · exact ⟨rfl, trivial, List.Pairwise.nil⟩
  · rename_i hbeyond
    split
    · exact ⟨rfl, h⟩
    · rename_i hge
      rw [nextIndex_last] at hbeyond
      obtain ⟨ks, ks', hsplit, hlt, hcase⟩ := searchKey_split h.keys upto.index
      have hk := h.keys
      have hleaders := h.leaders
      rw [hsplit] at hk hleaders
      obtain ⟨hks, hks'⟩ := keysFrom_append.1 hk
      have hend := keysEnd_le (not_lt.1 hge) hlt
      have hbefore : (expandKeys l.firstIndex ks).filter
          (fun x => decide (upto.index < x.index)) = [] :=
        List.filter_eq_nil_iff.2 fun x hx => by
          have := (index_of_mem_expandKeys hks hx).2
          simp only [decide_eq_true_eq]
          omega
      have hrest : ∀ (rest : List (LogId NID)) (b : Nat), KeysFrom b rest → upto.index < b →
          (expandKeys b rest).filter (fun x => decide (upto.index < x.index)) =
            expandKeys b rest := by
        intro rest b hb hlt
        refine List.filter_eq_self.2 ?_
        intro x hx
        have := (index_of_mem_expandKeys hb hx).1
        exact decide_eq_true (by omega)
      have hplain : l.expand.ids = expandKeys l.firstIndex ks ++
          expandKeys (keysEnd l.firstIndex ks) ks' := by
        show expandKeys l.firstIndex l.keyLogIds = _
        rw [hsplit, expandKeys_append]
      rw [hplain, List.filter_append, hbefore, List.nil_append]
      obtain ⟨-, hlks', -⟩ := List.pairwise_append.1 hleaders
      rcases hcase with ⟨k, rest, rfl, hidx, hr⟩ | ⟨hgt, hr⟩
      · rw [hr]
        have hdrop : l.keyLogIds.drop (ks.length + 1) = rest := by
          rw [hsplit, ← List.drop_drop, List.drop_left]
          rfl
        have hkey : (leaderIds k.leaderId (keysEnd l.firstIndex ks) (k.index + 1)).filter
            (fun x => decide (upto.index < x.index)) = [] :=
          List.filter_eq_nil_iff.2 fun x hx => by
            have := (mem_leaderIds.1 hx).2.2
            simp only [decide_eq_true_eq]
            omega
        dsimp only
        rw [hdrop, expandKeys_cons, List.filter_append, hkey, hrest rest _ hks'.2 (by omega),
          List.nil_append, hidx]
        refine ⟨rfl, ?_, (List.pairwise_cons.1 hlks').2⟩
        have hkeys := hks'.2
        rw [hidx] at hkeys
        exact hkeys
      · rw [hr]
        have hdrop : l.keyLogIds.drop ks.length = ks' := by
          rw [hsplit, List.drop_left]
        dsimp only
        rw [hdrop]
        cases ks' with
        | nil =>
          -- all keys are below the index, which is then beyond the end
          exfalso
          rw [List.append_nil] at hsplit
          rw [hsplit] at hbeyond
          exact hbeyond hend
        | cons k rest =>
          have hku := hgt k (by simp)
          have hout : (leaderIds k.leaderId (keysEnd l.firstIndex ks) (upto.index + 1)).filter
              (fun x => decide (upto.index < x.index)) = [] :=
            List.filter_eq_nil_iff.2 fun x hx => by
              have := (mem_leaderIds.1 hx).2.2
              simp only [decide_eq_true_eq]
              omega
          have hin : (leaderIds k.leaderId (upto.index + 1) (k.index + 1)).filter
              (fun x => decide (upto.index < x.index)) =
                leaderIds k.leaderId (upto.index + 1) (k.index + 1) :=
            List.filter_eq_self.2 fun x hx => decide_eq_true (mem_leaderIds.1 hx).2.1
          rw [expandKeys_cons, List.filter_append, hrest rest _ hks'.2 (by omega),
            leaderIds_append (show _ ≤ upto.index + 1 by omega)
              (show upto.index + 1 ≤ k.index + 1 by omega), List.filter_append, hout, hin,
            List.nil_append]
          exact ⟨rfl, ⟨hku, hks'.2⟩, hlks'⟩

theorem keyLogIds_extend (l : LogIdList NID) (xs : List (LogId NID)) :
    l.extend xs = { l with keyLogIds := xs.foldl pushKeyLogId l.keyLogIds } := by
  induction xs generalizing l with
  | nil => rfl
  | cons x xs ih =>
    rw [extend, List.foldl_cons]
    exact ih (l.append x)

/-- Between the first and the last id of one leader there is nothing to record. -/
theorem extendFromSameLeader_eq {xs : List (LogId NID)}
    (hsame : ∀ x ∈ xs, ∀ y ∈ xs, x.leaderId = y.leaderId) :
    l.extendFromSameLeader xs = l.extend xs := by
  cases xs with
  | nil => rfl
  | cons first rest =>
    rw [keyLogIds_extend]
    unfold extendFromSameLeader
    cases rest using List.reverseRecOn with
    | nil => rfl
    | append_singleton rest y =>
      have hall : ∀ z ∈ first :: rest, z.leaderId = y.leaderId := by
        intro z hz
        refine hsame z ?_ y (by simp)
        rw [← List.cons_append]
        exact List.mem_append_left _ hz
      have hfold : (first :: rest ++ [y]).foldl pushKeyLogId l.keyLogIds =
          pushKeyLogId l.keyLogIds y := foldl_push_same hall
      dsimp only
      rw [List.getLast?_concat, ← List.cons_append, hfold]
      dsimp only
      split
      · show ({ l with keyLogIds := _ } : LogIdList NID) = _
        rw [show ((l.append first).keyLogIds) = pushKeyLogId l.keyLogIds first from rfl,
          push_push (hall first (by simp))]
      · rename_i heq
        rw [not_not.1 heq]
        rfl

/-! ## What is read off the keys -/

omit [LinearOrder NID] in
theorem find?_leaderIds {e : Nat} (hs : s ≤ index) (he : index < e) :
    (leaderIds c s e).find? (fun x => decide (x.index = index)) = some ⟨c, index⟩ := by
  have hsplit : leaderIds c index e = ⟨c, index⟩ :: leaderIds c (index + 1) e := by
    rw [leaderIds_append (Nat.le_succ index) (show index + 1 ≤ e by omega)]
    simp [leaderIds]
  rw [leaderIds_append hs he.le, List.find?_append, hsplit, List.find?_cons_of_pos (by simp)]
  have hnone : (leaderIds c s index).find? (fun x => decide (x.index = index)) = none := by
    rw [List.find?_eq_none]
    intro x hx
    have := (mem_leaderIds.1 hx).2.2
    simp only [decide_eq_true_eq]
    omega
  rw [hnone]
  rfl

theorem refAt_expand (h : l.WF) (i : Nat) : l.refAt i = l.expand.refAt i := by
  have hbelow : ∀ (ks : List (LogId NID)), KeysFrom l.firstIndex ks → keysEnd l.firstIndex ks ≤ i →
      (expandKeys l.firstIndex ks).find? (fun x => decide (x.index = i)) = none := by
    intro ks hk hend
    rw [List.find?_eq_none]
    intro x hx
    have := (index_of_mem_expandKeys hk hx).2
    simp only [decide_eq_true_eq]
    omega
  unfold refAt LogIds.refAt
  have hfirst : l.expand.firstIndex = l.firstIndex := rfl
  rw [hfirst]
  split
  · rfl
  · rename_i hge
    show _ = (expandKeys l.firstIndex l.keyLogIds).find? _
    rcases findKey_split h.keys i with ⟨hfind, hlt⟩ | ⟨ks, k, rest, hsplit, hlt, hle, hfind⟩
    · rw [hfind, hbelow _ h.keys (keysEnd_le (not_lt.1 hge) hlt)]
    · have hk := h.keys
      rw [hsplit] at hk
      have hend := keysEnd_le (not_lt.1 hge) hlt
      rw [hfind]
      dsimp only
      rw [rangeStart_eq hsplit, if_neg (not_lt.2 hend), hsplit,
        List.getElem?_append_right le_rfl, Nat.sub_self, List.getElem?_cons_zero, Option.map_some,
        expandKeys_append, List.find?_append, hbelow ks (keysFrom_append.1 hk).1 hend,
        Option.none_or, expandKeys_cons, List.find?_append,
        find?_leaderIds hend (Nat.lt_succ_of_le hle)]
      rfl

theorem nodup_leaders (h : l.WF) : (l.keyLogIds.map LogId.leaderId).Nodup := by
  unfold List.Nodup
  rw [List.pairwise_map]
  exact h.leaders.imp fun hlt => hlt.ne

/-- The keys are the last ids of the leaders. -/
theorem mem_keyLogIds (h : l.WF) : x ∈ l.keyLogIds ↔
    x ∈ l.expand.ids ∧ ∀ y ∈ l.expand.ids, y.leaderId = x.leaderId → y.index ≤ x.index := by
  constructor
  · intro hx
    refine ⟨mem_expandKeys_of_mem h.keys hx, ?_⟩
    intro y hy hyx
    obtain ⟨k, hk, hkl, hle⟩ := exists_key_of_mem hy
    rw [List.inj_on_of_nodup_map (nodup_leaders h) hk hx (hkl.trans hyx)] at hle
    exact hle
  · rintro ⟨hx, hmax⟩
    obtain ⟨k, hk, hkl, hle⟩ := exists_key_of_mem hx
    have hge := hmax k (mem_expandKeys_of_mem h.keys hk) hkl
    have hkx : k = x := by
      obtain ⟨ck, ik⟩ := k
      obtain ⟨cx, ix⟩ := x
      simp only at hkl hle hge
      rw [hkl, le_antisymm hge hle]
    rw [← hkx]
    exact hk

/-- The ids of the last key are those after the other keys. -/
theorem mem_lastLeader (h : l.WF) (hsplit : l.keyLogIds = ks ++ [k]) :
    y ∈ l.expand.ids ∧ y.leaderId = k.leaderId ↔
      y ∈ leaderIds k.leaderId (keysEnd l.firstIndex ks) (k.index + 1) := by
  have hids : l.expand.ids = expandKeys l.firstIndex ks ++
      leaderIds k.leaderId (keysEnd l.firstIndex ks) (k.index + 1) := by
    show expandKeys l.firstIndex l.keyLogIds = _
    rw [hsplit, expandKeys_append, expandKeys_cons]
    exact congrArg _ (List.append_nil _)
  rw [hids, List.mem_append]
  constructor
  · rintro ⟨hy | hy, hyk⟩
    · obtain ⟨a, ha, hak, -⟩ := exists_key_of_mem hy
      have hpair := h.leaders
      rw [hsplit] at hpair
      have hlt := (List.pairwise_append.1 hpair).2.2 a ha k (by simp)
      exact absurd (hak.trans hyk) hlt.ne
    · exact hy
  · intro hy
    exact ⟨Or.inr hy, (mem_leaderIds.1 hy).1⟩

/-- The ids and the keys of a list agree with a plain one. -/
structure Represents (l : LogIdList NID) (p : LogIds NID) : Prop where
  purged : l.purged = p.purged
  last : l.last = p.last
  refAt : ∀ i, l.refAt i = p.refAt i
  /-- a leader has one key -/
  leaders : (l.keyLogIds.map LogId.leaderId).Nodup
  /-- and the key is its last id -/
  keys : ∀ x, x ∈ l.keyLogIds ↔
    x ∈ p.ids ∧ ∀ y ∈ p.ids, y.leaderId = x.leaderId → y.index ≤ x.index
  /-- the ids of the last leader, or the last purged id alone -/
  byLastLeader : match p.ids.getLast? with
    | some x => ∃ first, l.byLastLeader = some ⟨x.leaderId, first, x.index⟩ ∧
        ∀ i, first ≤ i ∧ i ≤ x.index ↔ ∃ y ∈ p.ids, y.leaderId = x.leaderId ∧ y.index = i
    | none => l.byLastLeader = p.purged.map LeaderLogIds.newSingle

theorem byLastLeader_expand (h : l.WF) : match l.expand.ids.getLast? with
    | some x => ∃ first, l.byLastLeader = some ⟨x.leaderId, first, x.index⟩ ∧
        ∀ i, first ≤ i ∧ i ≤ x.index ↔ ∃ y ∈ l.expand.ids, y.leaderId = x.leaderId ∧ y.index = i
    | none => l.byLastLeader = l.expand.purged.map LeaderLogIds.newSingle := by
  cases hks : l.keyLogIds using List.reverseRecOn with
  | nil =>
    have hids : l.expand.ids = [] := by
      show expandKeys l.firstIndex l.keyLogIds = []
      rw [hks]
      rfl
    rw [hids]
    show l.byLastLeader = l.purged.map LeaderLogIds.newSingle
    unfold byLastLeader last
    rw [hks]
    rfl
  | append_singleton ks k =>
    have hk := mem_expandKeys_of_mem h.keys (show k ∈ l.keyLogIds by rw [hks]; simp)
    have hlast : l.last = some k := by
      unfold last
      rw [hks, List.getLast?_concat]
      rfl
    have hend : l.expand.ids.getLast? = some k := by
      have heq := last_expand h
      rw [hlast] at heq
      unfold LogIds.last at heq
      obtain ⟨a, ha⟩ : ∃ a, l.expand.ids.getLast? = some a :=
        ⟨_, List.getLast?_eq_some_getLast (List.ne_nil_of_mem hk)⟩
      rw [ha] at heq ⊢
      exact heq
    rw [hend]
    refine ⟨keysEnd l.firstIndex ks, ?_, ?_⟩
    · unfold byLastLeader
      rw [hlast, Option.map_some]
      dsimp only
      rw [hks, if_neg (by simp), List.length_append, List.length_singleton, Nat.add_sub_cancel,
        rangeStart_eq hks]
    · intro i
      constructor
      · rintro ⟨hge, hle⟩
        obtain ⟨hmem, hyk⟩ := (mem_lastLeader h hks (y := ⟨k.leaderId, i⟩)).2
          (mem_leaderIds.2 ⟨rfl, hge, Nat.lt_succ_of_le hle⟩)
        exact ⟨_, hmem, hyk, rfl⟩
      · rintro ⟨y, hy, hyk, rfl⟩
        have := mem_leaderIds.1 ((mem_lastLeader h hks).1 ⟨hy, hyk⟩)
        omega

theorem represents_expand (h : l.WF) : l.Represents l.expand :=
  ⟨rfl, (last_expand h).symm, refAt_expand h, nodup_leaders h, fun _ => mem_keyLogIds h,
    byLastLeader_expand h⟩

end LogIdList

/-! ## Sequences of operations -/

/-- An operation on a list of log ids. -/
inductive LogIdOp (NID : Type) where
  | append (newLogId : LogId NID)
  | extend (newIds : List (LogId NID))
  | extendFromSameLeader (newIds : List (LogId NID))
  | truncate (since : Nat)
  | purge (upto : LogId NID)

/-- An operation on the compressed list. -/
def LogIdList.applyOp (l : LogIdList NID) : LogIdOp NID → LogIdList NID
  | .append x => l.append x
  | .extend xs => l.extend xs
  | .extendFromSameLeader xs => l.extendFromSameLeader xs
  | .truncate since => l.truncate since
  | .purge upto => l.purge upto

namespace LogIds

/-- The operation on the plain list. -/
def applyOp (p : LogIds NID) : LogIdOp NID → LogIds NID
  | .append x => p.extend [x]
  | .extend xs => p.extend xs
  | .extendFromSameLeader xs => p.extend xs
  | .truncate since => p.truncate since
  | .purge upto => p.purge upto

/-- The ids follow on the list, one after the other. -/
def Continues (p : LogIds NID) : List (LogId NID) → Prop
  | [] => True
  | x :: xs => LogIdList.NextId p.last x ∧ (p.extend [x]).Continues xs

/-- The operations that keep log ids consecutive, with leaders that do not decrease: a log is
    truncated above the purged part, and purged up to an id that it has, that is purged already or
    that is beyond its end. -/
def Allowed (p : LogIds NID) : LogIdOp NID → Prop
  | .append x => LogIdList.NextId p.last x
  | .extend xs => p.Continues xs
  | .extendFromSameLeader xs =>
    p.Continues xs ∧ ∀ x ∈ xs, ∀ y ∈ xs, x.leaderId = y.leaderId
  | .truncate since => p.firstIndex ≤ since
  | .purge upto => upto ∈ p.ids ∨ upto.index < p.firstIndex ∨
      nextIndex p.last ≤ upto.index ∧ ∀ y, p.last = some y → y.leaderId ≤ upto.leaderId

end LogIds

namespace LogIdList

variable {l : LogIdList NID}

theorem extend_expand (h : l.WF) {xs : List (LogId NID)} (hxs : l.expand.Continues xs) :
    (l.extend xs).expand = l.expand.extend xs ∧ (l.extend xs).WF := by
  induction xs generalizing l with
  | nil =>
    refine ⟨?_, h⟩
    show l.expand = ⟨l.expand.purged, l.expand.ids ++ []⟩
    rw [List.append_nil]
  | cons x xs ih =>
    obtain ⟨hx, hrest⟩ := hxs
    rw [last_expand h] at hx
    obtain ⟨hexp, hwf⟩ := append_expand h hx
    rw [← hexp] at hrest
    obtain ⟨hexp', hwf'⟩ := ih hwf hrest
    refine ⟨?_, hwf'⟩
    show ((l.append x).extend xs).expand = _
    rw [hexp', hexp]
    show (⟨_, (l.expand.ids ++ [x]) ++ xs⟩ : LogIds NID) = ⟨_, l.expand.ids ++ x :: xs⟩
    rw [List.append_assoc]
    rfl

/-- One operation does to the plain list what its name says. -/
theorem applyOp_expand (h : l.WF) {op : LogIdOp NID} (hop : l.expand.Allowed op) :
    (l.applyOp op).expand = l.expand.applyOp op ∧ (l.applyOp op).WF := by
  cases op with
  | append x =>
    have hx : NextId l.expand.last x := hop
    rw [last_expand h] at hx
    exact append_expand h hx
  | extend xs => exact extend_expand h hop
  | extendFromSameLeader xs =>
    show (l.extendFromSameLeader xs).expand = _ ∧ (l.extendFromSameLeader xs).WF
    rw [extendFromSameLeader_eq hop.2]
    exact extend_expand h hop.1
  | truncate since => exact truncate_expand h hop
  | purge upto => exact purge_expand h upto

theorem runOps_expand (h : l.WF) {ops : List (LogIdOp NID)}
    (hops : AllSteps LogIds.applyOp LogIds.Allowed l.expand ops) :
    (runOps applyOp l ops).expand = runOps LogIds.applyOp l.expand ops ∧
      (runOps applyOp l ops).WF := by
  induction ops generalizing l with
  | nil => exact ⟨rfl, h⟩
  | cons op ops ih =>
    obtain ⟨hexp, hwf⟩ := applyOp_expand h hops.1
    have hrest := hops.2
    rw [← hexp] at hrest
    obtain ⟨hexp', hwf'⟩ := ih hwf hrest
    rw [runOps_cons, runOps_cons]
    refine ⟨?_, hwf'⟩
    rw [hexp', hexp]

/-- After any sequence of operations the compressed list stands for the plain list that the same
    operations build. -/
theorem represents_of_ops (l : LogIdList NID) (h : l.WF) (ops : List (LogIdOp NID))
    (hops : AllSteps LogIds.applyOp LogIds.Allowed l.expand ops) :
    (runOps applyOp l ops).Represents (runOps LogIds.applyOp l.expand ops) := by
  obtain ⟨hexp, hwf⟩ := runOps_expand h hops
  rw [← hexp]
  exact represents_expand hwf

/-- Two leaders, a truncation, a purge inside and one beyond the end. -/
def someOps : List (LogIdOp Nat) :=
  [.append ⟨⟨1, none⟩, 0⟩, .extendFromSameLeader [⟨⟨1, none⟩, 1⟩, ⟨⟨1, none⟩, 2⟩],
    .extend [⟨⟨2, none⟩, 3⟩, ⟨⟨2, none⟩, 4⟩], .purge ⟨⟨1, none⟩, 1⟩, .truncate 4,
    .purge ⟨⟨3, none⟩, 6⟩]

theorem represents_of_ops_some :
    (runOps applyOp ⟨none, []⟩ someOps).Represents (runOps LogIds.applyOp ⟨none, []⟩ someOps) :=
  represents_of_ops ⟨none, []⟩ ⟨trivial, List.Pairwise.nil⟩ someOps
    ⟨⟨rfl, nofun⟩, ⟨⟨⟨rfl, by decide⟩, ⟨rfl, by decide⟩, trivial⟩, by decide⟩,
      ⟨⟨rfl, by decide⟩, ⟨rfl, by decide⟩, trivial⟩, Or.inl (by decide),
      show 2 ≤ 4 by decide, Or.inr (Or.inr ⟨by decide, by decide⟩), trivial⟩

end LogIdList

end ZenohRaft
