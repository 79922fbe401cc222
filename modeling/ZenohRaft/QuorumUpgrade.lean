/-
  `VecProgress::upgrade_quorum_set`.

  The upgrade starts from a fresh tracker for the new quorum set and puts the old entries into it
  one by one, in the order the old tracker has them in. Each of them is an update that raises an
  entry, so that the rules for updates say what `quorum_accepted` is afterwards.

  * `replaceLoop_step`: the loop, from any tracker whose entries are not above the old ones.
  * `upgradeQuorumSet_greatest`: the entries and `quorum_accepted` of the result, whatever the
    order of the old entries.

  As for updates, the value is the greatest accepted one only if the empty set of voters is not a
  quorum of the new set (`upgrade_not_isGreatest_of_no_config`).
-/
import ZenohRaft.QuorumAccepted

namespace ZenohRaft

namespace VecProgress

variable {NID QS : Type} [DecidableEq NID] [QuorumSet QS NID]
variable {P A : Type} [LinearOrder P] [Inhabited P]

/-! ## The loop -/

/-- The entry of `old` with the id of `x`, and `x` itself where `old` has none. -/
def inherited (old : List (ProgressItem NID P A)) (x : ProgressItem NID P A) :
    ProgressItem NID P A :=
  (old.find? fun y => decide (y.id = x.id)).getD x

section

omit [LinearOrder P] [Inhabited P]

theorem inherited_id (old : List (ProgressItem NID P A)) (x : ProgressItem NID P A) :
    (inherited old x).id = x.id := by
  unfold inherited
  cases hy : old.find? fun y => decide (y.id = x.id) with
  | none => rfl
  | some y =>
    have hid := List.find?_some hy
    exact of_decide_eq_true hid

theorem inherited_of_not_mem {old : List (ProgressItem NID P A)} {x : ProgressItem NID P A}
    (h : x.id ∉ old.map (·.id)) : inherited old x = x := by
  unfold inherited
  rw [List.find?_eq_none.2, Option.getD_none]
  intro y hy heq
  exact h (List.mem_map.2 ⟨y, hy, of_decide_eq_true heq⟩)

/-- Putting in one entry and then the rest. -/
theorem inherited_cons {old : List (ProgressItem NID P A)} {y : ProgressItem NID P A}
    (hy : y.id ∉ old.map (·.id)) (x : ProgressItem NID P A) :
    inherited (y :: old) x = inherited old (if x.id = y.id then y else x) := by
  by_cases h : x.id = y.id
  · rw [if_pos h, inherited_of_not_mem hy]
    unfold inherited
    rw [List.find?_cons_of_pos (by simp [h]), Option.getD_some]
  · rw [if_neg h]
    unfold inherited
    rw [List.find?_cons_of_neg (by simpa using fun heq => h heq.symm)]

theorem map_id_mapEntry (entries : List (ProgressItem NID P A)) (y : ProgressItem NID P A) :
    (mapEntry entries y.id fun _ => y).map (·.id) = entries.map (·.id) := by
  unfold mapEntry
  rw [List.map_map]
  refine List.map_congr_left fun x _ => ?_
  simp only [Function.comp_apply]
  split
  · rename_i h
    exact h.symm
  · rfl

end

omit [Inhabited P] in
/-- The loop over the old entries: an entry is replaced by the old one with its id. -/
theorem replaceLoop_perm {p p' : VecProgress NID QS P A} {old : List (ProgressItem NID P A)}
    (hndp : (p.entries.map (·.id)).Nodup) (hnd : (old.map (·.id)).Nodup)
    (hp' : p.replaceLoop old = some p') : p'.entries.Perm (p.entries.map (inherited old)) := by
  induction old generalizing p with
  | nil =>
    obtain rfl := Option.some.inj hp'
    have hnil : (inherited [] : ProgressItem NID P A → ProgressItem NID P A) = id := rfl
    rw [hnil, List.map_id]
  | cons y old ih =>
    obtain ⟨hy, hnd⟩ := List.nodup_cons.1 hnd
    obtain ⟨⟨found, q⟩, hq, hrest⟩ := Option.bind_eq_some_iff.1 hp'
    have hperm := updateEntryWith_perm hndp hq
    have hndq : (q.entries.map (·.id)).Nodup := by
      rw [(hperm.map _).nodup_iff, map_id_mapEntry]
      exact hndp
    refine (ih hndq hnd hrest).trans ((hperm.map _).trans (List.Perm.of_eq ?_))
    unfold mapEntry
    rw [List.map_map]
    exact List.map_congr_left fun x _ => (inherited_cons hy x).symm

omit [Inhabited P] in
/-- The loop over the old entries, none of which is below the entry it replaces. -/
theorem replaceLoop_step {p : VecProgress NID QS P A} {old : List (ProgressItem NID P A)}
    (hqs : QuorumSet.UpwardClosed p.quorumSet) (h : p.VotersInOrder)
    (hndp : (p.entries.map (·.id)).Nodup) (hnd : (old.map (·.id)).Nodup)
    (hge : ∀ y ∈ old, ∀ x ∈ p.entries, x.id = y.id → x.progress ≤ y.progress) :
    ∃ p', p.replaceLoop old = some p' ∧ p'.quorumSet = p.quorumSet ∧ p'.VotersInOrder ∧
      (p'.voters.map (·.id)).Perm (p.voters.map (·.id)) ∧ (p.Greatest → p'.Greatest) := by
  induction old generalizing p with
  | nil => exact ⟨p, rfl, rfl, h, List.Perm.refl _, id⟩
  | cons y old ih =>
    obtain ⟨hy, hnd⟩ := List.nodup_cons.1 hnd
    have hfit : ∀ x, p.tryGet y.id = some x → y.id = x.id ∧ x.progress ≤ y.progress := by
      intro x hx
      obtain ⟨hmem, hid⟩ := (tryGet_eq_some hndp).1 hx
      exact ⟨hid.symm, hge y (by simp) x hmem hid⟩
    obtain ⟨found, q, hq, hstep⟩ := updateEntryWith_step (f := fun _ => y) hqs h hfit
    have hperm := updateEntryWith_perm hndp hq
    have hndq : (q.entries.map (·.id)).Nodup := by
      rw [(hperm.map _).nodup_iff, map_id_mapEntry]
      exact hndp
    have hgeq : ∀ z ∈ old, ∀ x ∈ q.entries, x.id = z.id → x.progress ≤ z.progress := by
      intro z hz x hx hid
      obtain ⟨w, hw, rfl⟩ := List.mem_map.1 (hperm.mem_iff.1 hx)
      by_cases hwy : w.id = y.id
      · rw [if_pos hwy] at hid
        exact absurd (List.mem_map.2 ⟨z, hz, hid.symm⟩) hy
      · rw [if_neg hwy] at hid ⊢
        exact hge z (by simp [hz]) w hw hid
    obtain ⟨p', hp', hset, horder, hids, hgreatest⟩ :=
      ih (hstep.quorumSet ▸ hqs) hstep.inOrder hndq hnd hgeq
    refine ⟨p', ?_, hset.trans hstep.quorumSet, horder, hids.trans hstep.ids, ?_⟩
    · unfold replaceLoop
      rw [hq]
      exact hp'
    · exact fun hg => hgreatest (hstep.preserves_greatest hqs h hg)

/-! ## The upgrade -/

section Upgrade

variable {p : VecProgress NID QS P A} {qs : QS} {learnerIds : List NID}
variable {defaultEntry : NID → ProgressItem NID P A}

omit [DecidableEq NID] [LinearOrder P] in
theorem entries_ids_new (hid : ∀ id, (defaultEntry id).id = id) :
    (new qs learnerIds defaultEntry).entries.map (·.id) = QuorumSet.ids qs ++ learnerIds := by
  unfold new
  dsimp only
  rw [List.map_map]
  conv_rhs => rw [← List.map_id (QuorumSet.ids qs ++ learnerIds)]
  exact List.map_congr_left fun id _ => hid id

omit [LinearOrder P] [Inhabited P] [QuorumSet QS NID] in
theorem inherited_entries (id : NID) (hid : (defaultEntry id).id = id) :
    inherited p.entries (defaultEntry id) = (p.tryGet id).getD (defaultEntry id) := by
  unfold inherited tryGet
  rw [hid]

/-- `upgrade_quorum_set` keeps the entry of an id that was there, and makes one for a new id. -/
theorem upgradeQuorumSet_perm {p' : VecProgress NID QS P A}
    (hnew : (QuorumSet.ids qs ++ learnerIds).Nodup) (hnd : (p.entries.map (·.id)).Nodup)
    (hid : ∀ id, (defaultEntry id).id = id)
    (hp' : p.upgradeQuorumSet qs learnerIds defaultEntry = some p') :
    p'.entries.Perm ((new qs learnerIds defaultEntry).entries.map (inherited p.entries)) := by
  refine replaceLoop_perm ?_ hnd hp'
  rw [entries_ids_new hid]
  exact hnew

/-- `upgrade_quorum_set` of a tracker with one entry for each id, all of whose values are at or
    above the initial one. The result has one entry for each new voter and each learner; an id
    that was there before keeps its entry. If the empty set of voters is not a quorum of the new
    set and any value is accepted, `quorum_accepted` is the greatest accepted value. -/
theorem upgradeQuorumSet_greatest (hqs : QuorumSet.UpwardClosed qs)
    (hnew : (QuorumSet.ids qs ++ learnerIds).Nodup) (hnd : (p.entries.map (·.id)).Nodup)
    (hge : ∀ x ∈ p.entries, default ≤ x.progress) (hid : ∀ id, (defaultEntry id).id = id)
    (hprog : ∀ id, (defaultEntry id).progress = default) :
    ∃ p', p.upgradeQuorumSet qs learnerIds defaultEntry = some p' ∧ p'.quorumSet = qs ∧
      (p'.voters.map (·.id)).Perm (QuorumSet.ids qs) ∧
      ((p'.entries.drop p'.voterCount).map (·.id)).Perm learnerIds ∧
      (∀ id ∈ QuorumSet.ids qs ++ learnerIds,
        p'.tryGet id = some ((p.tryGet id).getD (defaultEntry id))) ∧
      (QuorumSet.isQuorum qs [] = false → (∃ v, p'.Accepted v) →
        IsGreatest {v | p'.Accepted v} p'.quorumAccepted) := by
  have hids : (new qs learnerIds defaultEntry).entries.map (·.id) = _ := entries_ids_new hid
  have hfresh : ∀ y ∈ p.entries, ∀ x ∈ (new qs learnerIds defaultEntry).entries,
      x.id = y.id → x.progress ≤ y.progress := by
    intro y hy x hx _
    obtain ⟨id, -, rfl⟩ := List.mem_map.1 hx
    rw [hprog]
    exact hge y hy
  have hndn : ((new qs learnerIds defaultEntry).entries.map (·.id)).Nodup := by
    rw [hids]
    exact hnew
  obtain ⟨p', hp', hset, horder, hvoters, hgreatest⟩ :=
    replaceLoop_step (p := new qs learnerIds defaultEntry) hqs
      (new_inOrder (List.nodup_append.1 hnew).1 hid hprog) hndn hnd hfresh
  have hentries := replaceLoop_perm hndn hnd hp'
  have hset : p'.quorumSet = qs := hset
  rw [ids_new hid] at hvoters
  have hall : (p'.entries.map (·.id)).Perm (QuorumSet.ids qs ++ learnerIds) := by
    refine (hentries.map _).trans (List.Perm.of_eq ?_)
    rw [List.map_map, ← hids]
    exact List.map_congr_left fun x _ => inherited_id _ x
  refine ⟨p', hp', hset, hvoters, ?_, ?_, ?_⟩
  · -- what is left of all ids after those of the voters
    rw [← List.take_append_drop p'.voterCount p'.entries, List.map_append] at hall
    exact (List.perm_append_left_iff _).1 (hall.trans (hvoters.symm.append_right _))
  · intro id hmem
    have hnd' : (p'.entries.map (·.id)).Nodup := hall.nodup_iff.2 hnew
    rw [← inherited_entries id (hid id)]
    refine (tryGet_eq_some hnd').2 ⟨?_, by rw [inherited_id, hid]⟩
    rw [hentries.mem_iff]
    exact List.mem_map.2 ⟨defaultEntry id, List.mem_map.2 ⟨id, hmem, rfl⟩, rfl⟩
  · intro hempty hex
    exact (hgreatest (new_greatest hempty hid hprog)).isGreatest (hset ▸ hqs) horder hex

end Upgrade

/-- Voters 1, 2 and 3 have reached 5, 3 and 0, the learner 4 has reached 9. -/
def fourNodes : VecProgress Nat (List (Finset Nat)) Nat Nat :=
  ⟨[{1, 2, 3}], 3, 3, [⟨1, 5, 10⟩, ⟨2, 3, 20⟩, ⟨3, 0, 30⟩, ⟨4, 9, 40⟩]⟩

def freshEntry (id : Nat) : ProgressItem Nat Nat Nat := ⟨id, 0, 0⟩

/-- With the new voters 1, 3 and 5 the accepted value falls from 3 to 0. With 1, 2 and 4 it rises
    to 5, and the former learner keeps its entry. -/
theorem upgradeQuorumSet_greatest_fourNodes :
    (∃ p', fourNodes.upgradeQuorumSet [{1, 3, 5}] [2] freshEntry = some p' ∧
      IsGreatest {v | p'.Accepted v} 0) ∧
    ∃ p', fourNodes.upgradeQuorumSet [{1, 2, 4}] [3] freshEntry = some p' ∧
      p'.tryGet 4 = some ⟨4, 9, 40⟩ ∧ IsGreatest {v | p'.Accepted v} 5 := by
  constructor
  · obtain ⟨p', hp', -, -, -, -, hgreatest⟩ := upgradeQuorumSet_greatest
      (p := fourNodes) (upwardClosed_joint [{1, 3, 5}])
      (show (Lib.sortedList _ ++ [2]).Nodup by decide) (by decide) (by decide)
      (show ∀ id, (freshEntry id).id = id from fun _ => rfl) (fun _ => rfl)
    have hvalue : (some p').map (fun p => (p.quorumAccepted,
        QuorumSet.isQuorum p.quorumSet (idsFrom p.voters 0))) = some (0, true) := by
      rw [← hp']
      decide
    obtain ⟨hqa, hacc⟩ := Prod.mk.inj (Option.some.inj hvalue)
    refine ⟨p', hp', ?_⟩
    rw [← hqa]
    exact hgreatest rfl ⟨0, hacc⟩
  · obtain ⟨p', hp', -, -, -, hget, hgreatest⟩ := upgradeQuorumSet_greatest
      (p := fourNodes) (upwardClosed_joint [{1, 2, 4}])
      (show (Lib.sortedList _ ++ [3]).Nodup by decide) (by decide) (by decide)
      (show ∀ id, (freshEntry id).id = id from fun _ => rfl) (fun _ => rfl)
    have hvalue : (some p').map (fun p => (p.quorumAccepted,
        QuorumSet.isQuorum p.quorumSet (idsFrom p.voters 5))) = some (5, true) := by
      rw [← hp']
      decide
    obtain ⟨hqa, hacc⟩ := Prod.mk.inj (Option.some.inj hvalue)
    refine ⟨p', hp', hget 4 (by decide), ?_⟩
    rw [← hqa]
    exact hgreatest rfl ⟨5, hacc⟩

/-- An upgrade to the config without a voter set: the empty set of voters accepts `true`, and
    `quorum_accepted` is `false`. -/
theorem upgrade_not_isGreatest_of_no_config :
    let p : VecProgress Nat (List (Finset Nat)) Bool Unit := ⟨[{1}], true, 1, [⟨1, true, ()⟩]⟩
    QuorumSet.UpwardClosed ([] : List (Finset Nat)) ∧
      ∃ p', p.upgradeQuorumSet [] [1] (fun id => ⟨id, false, ()⟩) = some p' ∧
        p'.Accepted true ∧ ¬ IsGreatest {v | p'.Accepted v} p'.quorumAccepted := by
  refine ⟨upwardClosed_joint _, ⟨[], false, 0, [⟨1, true, ()⟩]⟩, rfl, rfl, ?_⟩
  rintro ⟨-, hmax⟩
  have hle : true ≤ false :=
    hmax (show QuorumSet.isQuorum ([] : List (Finset Nat)) _ = true from rfl)
  exact absurd hle (by decide)

end VecProgress

end ZenohRaft
