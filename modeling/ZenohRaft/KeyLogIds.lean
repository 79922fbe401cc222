/-
  The search of `LogIdList::get_key_log_ids`, with its stack.

  The source keeps the ranges that are still to be searched on a stack and takes them from there
  until none is left. `getKeyLogIdsLoop` is this loop; `loadKeyLogIds` is the same search as a
  recursion.

  * `loop_loadKeyLogIds`: a range on top of the stack is worked off in at most `2 d - 1` rounds,
    where `d` is the distance of its ends, with the result of the recursion, and no push goes back
    in the log.
  * `foldl_push_spec`: what appending log id by log id leaves is the last log id of every leader,
    in the order of the log.
  * `getKeyLogIds_eq`: the search ends, and this is what it returns.
-/
import ZenohRaft.LogIdRefinement

namespace ZenohRaft

namespace LogIdList

variable {NID : Type} [LinearOrder NID]

/-! ## The loop -/

/-- The assertion of `LogIdList::push_key_log_id`. -/
def pushAsserts (res : List (LogId NID)) (x : LogId NID) : Bool :=
  match res.getLast? with
  | some k => decide (k.leaderId = x.leaderId → k.index ≤ x.index)
  | none => true

/-- The loop of `LogIdList::get_key_log_ids`. `fuel` bounds the number of rounds; `none` stands for
    an error of the reader `read` or a failed assertion. -/
def getKeyLogIdsLoop (read : Nat → Option (LogId NID)) :
    Nat → List (LogId NID × LogId NID) → List (LogId NID) → Option (List (LogId NID))
  | 0, _, _ => none
  | _ + 1, [], res => some res
  | fuel + 1, (first, last) :: stack, res =>
    if first.leaderId = last.leaderId then
      if pushAsserts res last then getKeyLogIdsLoop read fuel stack (pushKeyLogId res last)
      else none
    else if first.index + 1 = last.index then
      if pushAsserts res first && pushAsserts (pushKeyLogId res first) last then
        getKeyLogIdsLoop read fuel stack (pushKeyLogId (pushKeyLogId res first) last)
      else none
    else
      (read ((first.index + last.index) / 2)).bind fun mid =>
        if first.leaderId = mid.leaderId then
          getKeyLogIdsLoop read fuel ((mid, last) :: stack) res
        else getKeyLogIdsLoop read fuel ((first, mid) :: (mid, last) :: stack) res

/-- `LogIdList::get_key_log_ids` for the range from `first` to `last`. -/
def getKeyLogIds (read : Nat → Option (LogId NID)) (fuel : Nat) (first last : LogId NID) :
    Option (List (LogId NID)) :=
  getKeyLogIdsLoop read fuel [(first, last)] []

/-! ## Pushing -/

variable {b : Nat} {l ks res : List (LogId NID)} {x y : LogId NID}

/-- `push_key_log_id` on the whole list. -/
theorem pushKeyLogId_eq (ks : List (LogId NID)) (x : LogId NID) : pushKeyLogId ks x =
    (if ks.getLast?.any (fun k => decide (k.leaderId = x.leaderId)) then ks.dropLast else ks) ++
      [x] := by
  induction ks with
  | nil => rfl
  | cons k ks ih =>
    cases ks with
    | nil =>
      unfold pushKeyLogId
      by_cases h : k.leaderId = x.leaderId <;> simp [h]
    | cons k' ks =>
      rw [pushKeyLogId, ih, List.getLast?_cons_cons]
      split <;> rfl

theorem getLast?_pushKeyLogId (ks : List (LogId NID)) (x : LogId NID) :
    (pushKeyLogId ks x).getLast? = some x := by
  rw [pushKeyLogId_eq]
  simp

theorem getLast?_foldl_push (res : List (LogId NID)) (ks : List (LogId NID)) (x : LogId NID) :
    ((ks ++ [x]).foldl pushKeyLogId res).getLast? = some x := by
  rw [List.foldl_append]
  exact getLast?_pushKeyLogId _ x

theorem pushAsserts_of_le (h : ∀ k ∈ res.getLast?, k.index ≤ x.index) :
    pushAsserts res x = true := by
  unfold pushAsserts
  cases hk : res.getLast? with
  | none => rfl
  | some k => exact decide_eq_true fun _ => h k hk

/-! ## Rounds -/

/-- A range on top of the stack, all of whose indexes are at or behind the last result, is worked
    off in at most `2 d - 1` rounds, or in one round if its ends are the same. -/
theorem loop_loadKeyLogIds {read : Nat → Option (LogId NID)} (hread : ∀ i, read (b + i) = l[i]?)
    (hl : ConsecutiveFrom b l) (hup : LeadersUp l) (fuel : Nat) {i j : Nat} (hij : i ≤ j)
    (hx : l[i]? = some x) (hy : l[j]? = some y) (hfuel : j - i < fuel)
    (hres : ∀ k ∈ res.getLast?, k.index ≤ x.index) :
    ∃ rounds, rounds ≤ max 1 (2 * (j - i) - 1) ∧ ∀ more stack,
      getKeyLogIdsLoop read (rounds + more) ((x, y) :: stack) res =
        (loadKeyLogIds read fuel x y res).bind (getKeyLogIdsLoop read more stack) := by
  induction fuel generalizing i j x y res with
  | zero => omega
  | succ fuel ih =>
    have hxi := hl i x hx
    have hyj := hl j y hy
    unfold loadKeyLogIds
    by_cases hxy : x.leaderId = y.leaderId
    · refine ⟨1, le_max_left _ _, fun more stack => ?_⟩
      have hpush : pushAsserts res y = true :=
        pushAsserts_of_le fun k hk => (hres k hk).trans (by omega)
      rw [Nat.add_comm, getKeyLogIdsLoop, if_pos hxy, if_pos hxy, if_pos hpush, Option.bind_some]
    · have hlt : i < j := by
        rcases Nat.lt_or_eq_of_le hij with h | h
        · exact h
        · subst h
          rw [hx] at hy
          exact absurd (congrArg LogId.leaderId (Option.some.inj hy)) hxy
      by_cases hadj : x.index + 1 = y.index
      · refine ⟨1, le_max_left _ _, fun more stack => ?_⟩
        have hpush : (pushAsserts res x && pushAsserts (pushKeyLogId res x) y) = true := by
          rw [pushAsserts_of_le hres, Bool.true_and]
          refine pushAsserts_of_le fun k hk => ?_
          rw [getLast?_pushKeyLogId] at hk
          rw [← Option.some.inj hk]
          omega
        rw [Nat.add_comm, getKeyLogIdsLoop, if_neg hxy, if_pos hadj, if_pos hpush, if_neg hxy,
          if_pos hadj, Option.bind_some]
      · obtain ⟨m, hm⟩ : ∃ m, (x.index + y.index) / 2 = b + m :=
          ⟨(x.index + y.index) / 2 - b, by omega⟩
        have him : i < m := by omega
        have hmj : m < j := by omega
        have hlen : j < l.length := (List.getElem?_eq_some_iff.1 hy).1
        obtain ⟨z, hz⟩ : ∃ z, l[m]? = some z := ⟨l[m], List.getElem?_eq_getElem (by omega)⟩
        have hzm := hl m z hz
        have hmid : read ((x.index + y.index) / 2) = some z := by rw [hm, hread m, hz]
        by_cases hxz : x.leaderId = z.leaderId
        · obtain ⟨rounds, hle, hloop⟩ := ih hmj.le hz hy (by omega)
            (fun k hk => (hres k hk).trans (show x.index ≤ z.index by omega))
          refine ⟨rounds + 1, by omega, fun more stack => ?_⟩
          rw [Nat.add_right_comm, getKeyLogIdsLoop, if_neg hxy, if_neg hadj, hmid,
            Option.bind_some, if_pos hxz, hloop, if_neg hxy, if_neg hadj, Option.bind_some,
            if_pos hxz]
        · -- the left half is worked off first, then the right one
          have hleft : loadKeyLogIds read fuel x z res = some _ :=
            loadKeyLogIds_eq hread hl hup fuel him.le hx hz (by omega)
          obtain ⟨rounds, hle, hloop⟩ := ih him.le hx hz (by omega) hres
          have hlast : ∀ k ∈ ((segment l i m).foldl pushKeyLogId res).getLast?,
              k.index ≤ z.index := by
            intro k hk
            rw [segment_snoc him.le hz, getLast?_foldl_push] at hk
            rw [Option.some.inj hk]
          obtain ⟨rounds', hle', hloop'⟩ := ih hmj.le hz hy (by omega) hlast
          refine ⟨rounds + rounds' + 1, by omega, fun more stack => ?_⟩
          rw [Nat.add_right_comm, getKeyLogIdsLoop, if_neg hxy, if_neg hadj, hmid,
            Option.bind_some, if_neg hxz, Nat.add_assoc, hloop, hleft, Option.bind_some, hloop',
            if_neg hxy, if_neg hadj, Option.bind_some, if_neg hxz, hleft, Option.bind_some]

/-! ## The last log id of every leader -/

/-- A log id of `l` such that no later one is of the same leader. -/
def IsLastOfLeader (l : List (LogId NID)) (k : LogId NID) : Prop :=
  k ∈ l ∧ ∀ z ∈ l, z.leaderId = k.leaderId → z.index ≤ k.index

omit [LinearOrder NID] in
theorem isLastOfLeader_snoc (hl : ConsecutiveFrom b (l ++ [x])) {k : LogId NID} :
    IsLastOfLeader (l ++ [x]) k ↔ k = x ∨ IsLastOfLeader l k ∧ k.leaderId ≠ x.leaderId := by
  obtain ⟨hl', hx⟩ := consecutiveFrom_append_singleton hl
  have hlt : ∀ z ∈ l, z.index < x.index := by
    intro z hz
    obtain ⟨i, hi⟩ := List.mem_iff_getElem?.1 hz
    have hzi := hl' i z hi
    have hlen := (List.getElem?_eq_some_iff.1 hi).1
    omega
  constructor
  · rintro ⟨hmem, hlast⟩
    rcases List.mem_append.1 hmem with hk | hk
    · have hne : k.leaderId ≠ x.leaderId := by
        intro heq
        have hle := hlast x (by simp) heq.symm
        have := hlt k hk
        omega
      exact Or.inr ⟨⟨hk, fun z hz => hlast z (by simp [hz])⟩, hne⟩
    · exact Or.inl (List.mem_singleton.1 hk)
  · rintro (rfl | ⟨⟨hmem, hlast⟩, hne⟩)
    · refine ⟨by simp, fun z hz _ => ?_⟩
      rcases List.mem_append.1 hz with hz | hz
      · exact (hlt z hz).le
      · rw [List.mem_singleton.1 hz]
    · refine ⟨by simp [hmem], fun z hz heq => ?_⟩
      rcases List.mem_append.1 hz with hz | hz
      · exact hlast z hz heq
      · rw [List.mem_singleton.1 hz] at heq
        exact absurd heq.symm hne

/-- What a push leaves in front of the new id: all keys of other leaders. -/
theorem pushKeyLogId_split
    (hpair : ks.Pairwise fun a c => a.leaderId < c.leaderId ∧ a.index < c.index)
    (hle : ∀ k ∈ ks, k.leaderId ≤ x.leaderId) :
    ∃ front, pushKeyLogId ks x = front ++ [x] ∧ front.Sublist ks ∧
      ∀ k, k ∈ front ↔ k ∈ ks ∧ k.leaderId ≠ x.leaderId := by
  refine ⟨_, pushKeyLogId_eq ks x, ?_, ?_⟩
  · split
    · exact List.dropLast_sublist ks
    · exact List.Sublist.refl ks
  · intro k
    rcases List.eq_nil_or_concat ks with rfl | ⟨init, k0, rfl⟩
    · simp
    · rw [List.concat_eq_append] at hpair hle ⊢
      have hbefore : ∀ a ∈ init, a.leaderId < k0.leaderId := fun a ha =>
        ((List.pairwise_append.1 hpair).2.2 a ha k0 (by simp)).1
      have hk0 : k0.leaderId ≤ x.leaderId := hle k0 (by simp)
      rw [List.getLast?_append, List.getLast?_singleton, Option.some_or, Option.any_some,
        List.dropLast_concat]
      by_cases heq : k0.leaderId = x.leaderId
      · rw [if_pos (decide_eq_true heq), List.mem_append, List.mem_singleton]
        constructor
        · intro hk
          exact ⟨Or.inl hk, ((hbefore k hk).trans_le hk0).ne⟩
        · rintro ⟨hk | rfl, hne⟩
          · exact hk
          · exact absurd heq hne
      · rw [if_neg (by simpa using heq), List.mem_append, List.mem_singleton]
        constructor
        · rintro (hk | rfl)
          · exact ⟨Or.inl hk, ((hbefore k hk).trans_le hk0).ne⟩
          · exact ⟨Or.inr rfl, heq⟩
        · exact fun hk => hk.1

/-- Appending log id by log id leaves the last log id of every leader, in order. -/
theorem foldl_push_spec (hl : ConsecutiveFrom b l) (hup : LeadersUp l) :
    (∀ k, k ∈ l.foldl pushKeyLogId [] ↔ IsLastOfLeader l k) ∧
      (l.foldl pushKeyLogId []).Pairwise fun a c =>
        a.leaderId < c.leaderId ∧ a.index < c.index := by
  induction l using List.reverseRecOn with
  | nil => exact ⟨fun k => by simp [IsLastOfLeader], List.Pairwise.nil⟩
  | append_singleton l x ih =>
    obtain ⟨hl', hx⟩ := consecutiveFrom_append_singleton hl
    have hup' : LeadersUp l := hup.sublist (List.sublist_append_left l [x])
    have hle : ∀ z ∈ l, z.leaderId ≤ x.leaderId := fun z hz =>
      (List.pairwise_append.1 hup).2.2 z hz x (by simp)
    obtain ⟨hmem, hpair⟩ := ih hl' hup'
    obtain ⟨ks, hks⟩ : ∃ ks, ks = l.foldl pushKeyLogId [] := ⟨_, rfl⟩
    rw [← hks] at hmem hpair
    have hlt : ∀ k ∈ ks, k.index < x.index := by
      intro k hk
      obtain ⟨i, hi⟩ := List.mem_iff_getElem?.1 ((hmem k).1 hk).1
      have hki := hl' i k hi
      have hlen := (List.getElem?_eq_some_iff.1 hi).1
      omega
    obtain ⟨front, hpush, hsub, hin⟩ := pushKeyLogId_split hpair
      (fun k hk => hle k ((hmem k).1 hk).1)
    rw [List.foldl_append, ← hks]
    show (∀ k, k ∈ pushKeyLogId ks x ↔ _) ∧ (pushKeyLogId ks x).Pairwise _
    rw [hpush]
    constructor
    · intro k
      rw [isLastOfLeader_snoc hl, List.mem_append, List.mem_singleton, hin, hmem, or_comm]
    · refine List.pairwise_append.2 ⟨hpair.sublist hsub, List.pairwise_singleton _ _, ?_⟩
      intro a ha c hc
      obtain ⟨hks', hne⟩ := (hin a).1 ha
      rw [List.mem_singleton.1 hc]
      exact ⟨lt_of_le_of_ne (hle a ((hmem a).1 hks').1) hne, hlt a hks'⟩

/-- The search between two log ids of a stored log ends after at most `2 d + 2` rounds, where `d`
    is their distance. It returns the keys that appending the log ids between them to an empty
    list builds, and these are the last log ids of the leaders in the range, in order. -/
theorem getKeyLogIds_eq {read : Nat → Option (LogId NID)} (hread : ∀ i, read (b + i) = l[i]?)
    (hl : ConsecutiveFrom b l) (hup : LeadersUp l) {i j : Nat} (hij : i ≤ j)
    (hx : l[i]? = some x) (hy : l[j]? = some y) :
    ∃ keys, (∀ fuel, 2 * (j - i) + 2 ≤ fuel → getKeyLogIds read fuel x y = some keys) ∧
      keys = (extend ⟨none, []⟩ (segment l i j)).keyLogIds ∧
      (∀ k, k ∈ keys ↔ IsLastOfLeader (segment l i j) k) ∧
      keys.Pairwise fun a c =>
        a.leaderId < c.leaderId ∧ a.index < c.index := by
  have hseg : ConsecutiveFrom (b + i) (segment l i j) := by
    intro n z hz
    unfold segment at hz
    rw [List.getElem?_drop, List.getElem?_take] at hz
    split at hz
    · rw [hl _ _ hz]
      omega
    · cases hz
  have hsegUp : LeadersUp (segment l i j) :=
    hup.sublist ((List.drop_sublist _ _).trans (List.take_sublist _ _))
  obtain ⟨hmem, hpair⟩ := foldl_push_spec hseg hsegUp
  have hnone : ∀ k ∈ ([] : List (LogId NID)).getLast?, k.index ≤ x.index := by simp
  obtain ⟨rounds, hrounds, hloop⟩ := loop_loadKeyLogIds hread hl hup (j - i + 1) hij hx hy
    (by omega) hnone
  have hload : loadKeyLogIds read (j - i + 1) x y [] = some _ :=
    loadKeyLogIds_eq hread hl hup (j - i + 1) hij hx hy (by omega)
  refine ⟨(segment l i j).foldl pushKeyLogId [], fun fuel hfuel => ?_, ?_, hmem, hpair⟩
  · obtain ⟨more, rfl⟩ : ∃ more, fuel = rounds + (more + 1) := ⟨fuel - rounds - 1, by omega⟩
    unfold getKeyLogIds
    rw [hloop, hload]
    rfl
  · rw [keyLogIds_extend]

/-- A log from index 2 with three leaders; the second wrote a single entry. -/
def threeLeaders : List (LogId Nat) :=
  [⟨⟨2, none⟩, 2⟩, ⟨⟨2, none⟩, 3⟩, ⟨⟨4, none⟩, 4⟩, ⟨⟨5, none⟩, 5⟩, ⟨⟨5, none⟩, 6⟩, ⟨⟨5, none⟩, 7⟩]

def readThreeLeaders (index : Nat) : Option (LogId Nat) :=
  if 2 ≤ index then threeLeaders[index - 2]? else none

theorem getKeyLogIds_threeLeaders :
    ∃ keys, (∀ fuel, 2 * (4 - 0) + 2 ≤ fuel →
        getKeyLogIds readThreeLeaders fuel ⟨⟨2, none⟩, 2⟩ ⟨⟨5, none⟩, 6⟩ = some keys) ∧
      keys = (extend ⟨none, []⟩ (segment threeLeaders 0 4)).keyLogIds ∧
      (∀ k, k ∈ keys ↔ IsLastOfLeader (segment threeLeaders 0 4) k) ∧
      keys.Pairwise fun a c =>
        a.leaderId < c.leaderId ∧ a.index < c.index := by
  have hread : ∀ i, readThreeLeaders (2 + i) = threeLeaders[i]? := by
    intro i
    unfold readThreeLeaders
    rw [if_pos (by omega), Nat.add_sub_cancel_left]
  have hl : ConsecutiveFrom 2 threeLeaders := by
    intro i z hz
    have hi : i < 6 := (List.getElem?_eq_some_iff.1 hz).1
    have hall : ∀ i < 6, ∀ z ∈ threeLeaders[i]?, z.index = 2 + i := by decide
    exact hall i hi z hz
  exact getKeyLogIds_eq hread hl (by unfold LeadersUp; decide) (by decide) rfl rfl

end LogIdList

end ZenohRaft
