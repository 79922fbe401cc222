/-
  Memberships and membership changes: `membership/membership_impl.rs`,
  `membership/membership_impl_quorum_set.rs` and `change_members.rs`.

  `BTreeMap<NID, N>` is a `Finmap`. Where the source walks a set or a map in key order and the
  order shows in the result (the first voter without a node), the model walks `sortedList`.

  Proved about `change` (`Membership::change`), for every change, batches included:
  * `change_ok_spec`: a result is valid, keeps a voter set of the old membership, and has the
    nodes of the target, without the dropped voters unless they are retained.
  * `change_siblings_meet_iff`: any two results from one parent have intersecting quorums
    exactly when the majorities of any two voter sets of the parent meet. A uniform parent
    always qualifies. A joint parent need not: each of its voter sets is a legal goal, and the
    step to it drops the others (`change_siblings_disjoint`).
  * `change_reaches_uniform`: a voter set asked for again and again is reached after at most two
    requests, and a joint result is flattened by the empty addition.
  Proved about `is_direct_append_compatible_with`:
  * `isDirectAppendCompatibleWith_symm_meet`: it is symmetric and implies that quorums meet.
-/
import Mathlib.Data.Finmap
import ZenohRaft.Quorum

namespace ZenohRaft

open Lib

/-- `BTreeMap<NID, N>`. -/
abbrev NodeMap (NID N : Type) := Finmap (fun _ : NID => N)

/-- `Membership`: a joint of one or more voter sets, and the nodes by id. A node that is in
    `nodes` and in no voter set is a learner. -/
structure Membership (NID N : Type) where
  configs : List (Finset NID)
  nodes : NodeMap NID N

/-- `MembershipError`. The `operation` of a `NodeNotFound` is always `Operation::None` here. -/
inductive MembershipError (NID : Type) where
  | emptyMembership
  | nodeNotFound (nodeId : NID)
  deriving DecidableEq

/-- `ChangeMembers`. -/
inductive ChangeMembers (NID N : Type) where
  | addVoterIds (ids : Finset NID)
  | addVoters (nodes : NodeMap NID N)
  | removeVoters (ids : Finset NID)
  | replaceAllVoters (ids : Finset NID)
  | addNodes (nodes : NodeMap NID N)
  | setNodes (nodes : NodeMap NID N)
  | removeNodes (ids : Finset NID)
  | replaceAllNodes (nodes : NodeMap NID N)
  | batch (changes : List (ChangeMembers NID N))

variable {NID N : Type} [LinearOrder NID]

namespace Membership

instance [DecidableEq N] : DecidableEq (Membership NID N)
  | ⟨c, n⟩, ⟨c', n'⟩ => decidable_of_iff (c = c' ∧ n = n') (by simp)

/-- `Membership::default`. -/
def default : Membership NID N := ⟨[], ∅⟩

/-- `Membership::from` a map of nodes: all of them are voters. -/
def ofNodes (nodes : NodeMap NID N) : Membership NID N := ⟨[nodes.keys], nodes⟩

/-- `Membership::voter_ids`, as a set. -/
def voterIds (m : Membership NID N) : Finset NID := m.configs.foldr (· ∪ ·) ∅

/-- `Membership::is_voter`. -/
def isVoter (m : Membership NID N) (id : NID) : Bool := m.configs.any (fun c => decide (id ∈ c))

/-- `Membership::contains`. -/
def contains (m : Membership NID N) (id : NID) : Bool := decide (id ∈ m.nodes)

/-- `Membership::learner_ids`. -/
def learnerIds (m : Membership NID N) : List NID :=
  (sortedList m.nodes.keys).filter fun id => !m.isVoter id

/-- `Membership::is_joint`. -/
def isJoint (m : Membership NID N) : Bool := decide (1 < m.configs.length)

/-- `QuorumSet::is_quorum` for `Membership`. -/
def isQuorum (m : Membership NID N) (ids : List NID) : Bool := jointIsQuorum m.configs ids

/-- `QuorumSet::ids` for `Membership`. -/
def ids (m : Membership NID N) : List NID := sortedList m.voterIds

instance : QuorumSet (Membership NID N) NID where
  isQuorum := isQuorum
  ids := ids

/-- `Membership::ensure_non_empty_config`. -/
def ensureNonEmptyConfig (m : Membership NID N) : Except (MembershipError NID) Unit :=
  if m.configs.any (fun c => decide (c = ∅)) then .error .emptyMembership else .ok ()

/-- `Membership::ensure_quorum_defined`. -/
def ensureQuorumDefined (m : Membership NID N) : Except (MembershipError NID) Unit :=
  if m.configs.isEmpty then .error .emptyMembership else m.ensureNonEmptyConfig

/-- `Membership::ensure_voter_nodes`: the first voter that has no node is the error. -/
def ensureVoterNodes (m : Membership NID N) : Except NID Unit :=
  match (sortedList m.voterIds).find? (fun id => decide (id ∉ m.nodes)) with
  | some id => .error id
  | none => .ok ()

/-- `Membership::ensure_valid`. -/
def ensureValid (m : Membership NID N) : Except (MembershipError NID) Unit :=
  match m.ensureNonEmptyConfig with
  | .error e => .error e
  | .ok () =>
    match m.ensureVoterNodes with
    | .error id => .error (.nodeNotFound id)
    | .ok () => .ok ()

/-- `Membership::extend_nodes`: a node that is in `old` is not replaced. -/
def extendNodes (old new : NodeMap NID N) : NodeMap NID N := old ∪ new

/-- `nodes.remove(id)` for every id of a set. -/
def removeNodes (nodes : NodeMap NID N) (ids : Finset NID) : NodeMap NID N :=
  (sortedList ids).foldl (fun m id => m.erase id) nodes

/-- `Membership::find_changed_node_metadata`. -/
def findChangedNodeMetadata [DecidableEq N] (m other : Membership NID N) : Option NID :=
  (sortedList m.nodes.keys).find? fun id =>
    match other.nodes.lookup id with
    | none => false
    | some node => decide (m.nodes.lookup id ≠ some node)

/-- `Membership::is_direct_append_compatible_with`. -/
def isDirectAppendCompatibleWith (m other : Membership NID N) : Bool :=
  match m.ensureQuorumDefined with
  | .error _ => false
  | .ok () =>
    match other.ensureQuorumDefined with
    | .error _ => false
    | .ok () =>
      match m.configs, other.configs with
      | [c], [d] => decide ((symmDiff c d).card ≤ 1)
      | cs, ds => isCoherentWith cs ds

/-- `Membership::next_coherent`. -/
def nextCoherent (m : Membership NID N) (goal : Finset NID) (retain : Bool) :
    Membership NID N :=
  let config := findCoherent m.configs goal
  let newVoterIds := config.foldr (· ∪ ·) ∅
  let nodes := if retain then m.nodes else removeNodes m.nodes (m.voterIds \ newVoterIds)
  ⟨config, nodes⟩

/-- The last constituent, `get_joint_config().last().cloned().unwrap_or_default()`. -/
def lastConfig (m : Membership NID N) : Finset NID := m.configs.getLast?.getD ∅

/-- `self.configs = vec![voter_ids]`. -/
def setVoters (m : Membership NID N) (ids : Finset NID) : Membership NID N := ⟨[ids], m.nodes⟩

mutual

/-- `Membership::compute_target_membership`. -/
def computeTargetMembership (m : Membership NID N) : ChangeMembers NID N → Membership NID N
  | .addVoterIds ids => m.setVoters (m.lastConfig ∪ ids)
  | .addVoters nodes =>
    (⟨m.configs, extendNodes m.nodes nodes⟩ : Membership NID N).setVoters
      (m.lastConfig ∪ nodes.keys)
  | .removeVoters ids => m.setVoters (m.lastConfig \ ids)
  | .replaceAllVoters ids => m.setVoters ids
  | .addNodes nodes => ⟨m.configs, extendNodes m.nodes nodes⟩
  | .setNodes nodes => ⟨m.configs, nodes ∪ m.nodes⟩
  | .removeNodes ids => ⟨m.configs, removeNodes m.nodes ids⟩
  | .replaceAllNodes nodes => ⟨m.configs, nodes⟩
  | .batch changes => computeTargetBatch m changes

/-- The loop over the changes of a `Batch`. -/
def computeTargetBatch (m : Membership NID N) : List (ChangeMembers NID N) → Membership NID N
  | [] => m
  | change :: changes => computeTargetBatch (computeTargetMembership m change) changes

end

/-- `Membership::change`. `none` is the panic of `configs.pop().unwrap()`. -/
def change (m : Membership NID N) (change : ChangeMembers NID N) (retain : Bool) :
    Option (Except (MembershipError NID) (Membership NID N)) :=
  let target := m.computeTargetMembership change
  target.configs.getLast?.map fun targetVoterIds =>
    let newMembership :=
      (⟨m.configs, target.nodes⟩ : Membership NID N).nextCoherent targetVoterIds retain
    newMembership.ensureValid.map fun () => newMembership

/-! ## Validity -/

/-- What `ensure_valid` accepts: no empty voter set, and a node for every voter. -/
structure Valid (m : Membership NID N) : Prop where
  nonempty : ∀ c ∈ m.configs, c.Nonempty
  node : ∀ id ∈ m.voterIds, id ∈ m.nodes

theorem mem_voterIds {m : Membership NID N} {id : NID} :
    id ∈ m.voterIds ↔ ∃ c ∈ m.configs, id ∈ c := by
  unfold voterIds
  induction m.configs with
  | nil => simp
  | cons c cs ih => simp [ih]

theorem isVoter_iff {m : Membership NID N} {id : NID} :
    m.isVoter id = true ↔ id ∈ m.voterIds := by
  simp [isVoter, mem_voterIds]

theorem ensureNonEmptyConfig_ok_iff (m : Membership NID N) :
    m.ensureNonEmptyConfig = .ok () ↔ ∀ c ∈ m.configs, c.Nonempty := by
  unfold ensureNonEmptyConfig
  split
  · rename_i h
    simp only [List.any_eq_true, decide_eq_true_eq] at h
    obtain ⟨c, hc, rfl⟩ := h
    simp only [reduceCtorEq, false_iff]
    exact fun hall => Finset.not_nonempty_empty (hall ∅ hc)
  · rename_i h
    simp only [true_iff]
    intro c hc
    by_contra hn
    exact h (List.any_eq_true.2 ⟨c, hc, decide_eq_true (Finset.not_nonempty_iff_eq_empty.1 hn)⟩)

theorem ensureQuorumDefined_ok_iff (m : Membership NID N) :
    m.ensureQuorumDefined = .ok () ↔ m.configs ≠ [] ∧ ∀ c ∈ m.configs, c.Nonempty := by
  unfold ensureQuorumDefined
  split
  · rename_i h
    simp [List.isEmpty_iff.1 h]
  · rename_i h
    rw [ensureNonEmptyConfig_ok_iff]
    exact ⟨fun hall => ⟨fun h0 => h (List.isEmpty_iff.2 h0), hall⟩, fun hall => hall.2⟩

theorem ensureVoterNodes_ok_iff (m : Membership NID N) :
    m.ensureVoterNodes = .ok () ↔ ∀ id ∈ m.voterIds, id ∈ m.nodes := by
  unfold ensureVoterNodes
  split
  · rename_i id h
    have hnode : id ∉ m.nodes := by simpa using List.find?_some h
    have hmem := mem_sortedList.1 (List.mem_of_find?_eq_some h)
    simp only [reduceCtorEq, false_iff]
    exact fun hall => hnode (hall id hmem)
  · rename_i h
    rw [List.find?_eq_none] at h
    simpa using h

theorem ensureValid_ok_iff (m : Membership NID N) : m.ensureValid = .ok () ↔ m.Valid := by
  unfold ensureValid
  split
  · rename_i e h
    simp only [reduceCtorEq, false_iff]
    intro hv
    rw [(ensureNonEmptyConfig_ok_iff m).2 hv.nonempty] at h
    cases h
  · rename_i h
    have hne := (ensureNonEmptyConfig_ok_iff m).1 h
    split
    · rename_i id h'
      simp only [reduceCtorEq, false_iff]
      intro hv
      rw [(ensureVoterNodes_ok_iff m).2 hv.node] at h'
      cases h'
    · rename_i h'
      simp only [true_iff]
      exact ⟨hne, (ensureVoterNodes_ok_iff m).1 h'⟩

/-! ## Nodes -/

theorem lookup_foldl_erase (l : List NID) (nodes : NodeMap NID N) (x : NID) :
    (l.foldl (fun m id => m.erase id) nodes).lookup x =
      if x ∈ l then none else nodes.lookup x := by
  induction l generalizing nodes with
  | nil => simp
  | cons a l ih =>
    rw [List.foldl_cons, ih]
    by_cases hxl : x ∈ l
    · simp [hxl]
    · by_cases hxa : x = a
      · subst hxa
        simp [hxl]
      · simp [hxl, hxa]

theorem lookup_removeNodes (nodes : NodeMap NID N) (ids : Finset NID) (x : NID) :
    (removeNodes nodes ids).lookup x = if x ∈ ids then none else nodes.lookup x := by
  unfold removeNodes
  rw [lookup_foldl_erase]
  simp only [mem_sortedList]

/-! ## The result of a change -/

/-- The fields of a change that returned `Ok`. -/
theorem change_eq_ok {m new : Membership NID N} {ch : ChangeMembers NID N} {retain : Bool}
    (h : m.change ch retain = some (.ok new)) :
    ∃ goal, (m.computeTargetMembership ch).configs.getLast? = some goal ∧
      new = (⟨m.configs, (m.computeTargetMembership ch).nodes⟩ : Membership NID N).nextCoherent
        goal retain ∧ new.Valid := by
  unfold change at h
  rw [Option.map_eq_some_iff] at h
  obtain ⟨goal, hgoal, h⟩ := h
  refine ⟨goal, hgoal, ?_⟩
  cases hv : ((⟨m.configs, (m.computeTargetMembership ch).nodes⟩ :
      Membership NID N).nextCoherent goal retain).ensureValid with
  | error e => simp [hv, Except.map] at h
  | ok u =>
    simp only [hv, Except.map, Except.ok.injEq] at h
    subst h
    exact ⟨rfl, (ensureValid_ok_iff _).1 hv⟩

theorem nextCoherent_configs (m : Membership NID N) (goal : Finset NID) (retain : Bool) :
    (m.nextCoherent goal retain).configs = findCoherent m.configs goal := rfl

theorem lookup_nextCoherent (m : Membership NID N) (goal : Finset NID) (retain : Bool)
    (x : NID) :
    (m.nextCoherent goal retain).nodes.lookup x =
      if retain = false ∧ x ∈ m.voterIds ∧ x ∉ (m.nextCoherent goal retain).voterIds then none
      else m.nodes.lookup x := by
  have hv : (m.nextCoherent goal retain).voterIds =
      (findCoherent m.configs goal).foldr (· ∪ ·) ∅ := rfl
  rw [hv]
  cases retain with
  | true => simp [nextCoherent]
  | false =>
    simp only [nextCoherent, Bool.false_eq_true, if_false, lookup_removeNodes,
      Finset.mem_sdiff, true_and]

/-- A result keeps one of the voter sets it starts from. -/
theorem exists_common_of_change {old new : Membership NID N} (hne : old.configs ≠ [])
    {ch : ChangeMembers NID N} {retain : Bool} (h : old.change ch retain = some (.ok new)) :
    ∃ c ∈ old.configs, c ∈ new.configs := by
  obtain ⟨goal, -, rfl, -⟩ := change_eq_ok h
  exact exists_common_findCoherent hne goal

/-- Every result of `change` on a membership that has a voter set: no voter set of it is
    empty, every voter has a node, its quorums meet those of the old membership, and its nodes
    are those of the target, less the dropped voters when they are not retained. -/
theorem change_ok_spec {old new : Membership NID N} (hne : old.configs ≠ [])
    {ch : ChangeMembers NID N} {retain : Bool} (h : old.change ch retain = some (.ok new)) :
    (∀ c ∈ new.configs, c.Nonempty) ∧ (∀ id ∈ new.voterIds, id ∈ new.nodes) ∧
      QuorumsMeet old.configs new.configs ∧
      ∀ x, new.nodes.lookup x =
        if retain = false ∧ x ∈ old.voterIds ∧ x ∉ new.voterIds then none
        else (old.computeTargetMembership ch).nodes.lookup x := by
  obtain ⟨c, hc, hc'⟩ := exists_common_of_change hne h
  obtain ⟨goal, -, rfl, hvalid⟩ := change_eq_ok h
  refine ⟨hvalid.nonempty, hvalid.node, quorumsMeet_of_common hc hc', ?_⟩
  intro x
  exact lookup_nextCoherent ⟨old.configs, (old.computeTargetMembership ch).nodes⟩ goal retain x

/-- Nodes 1, 2 and 3 without metadata. -/
def threeNodes : NodeMap Nat Unit := ((∅ : NodeMap Nat Unit).insert 1 ()).insert 2 () |>.insert 3 ()

theorem change_ok_spec_batch :
    let old : Membership Nat Unit := ⟨[{1, 2}], threeNodes⟩
    let new : Membership Nat Unit := ⟨[{1, 2}, {2, 3}], threeNodes⟩
    old.change (.batch [.removeVoters {1}, .addVoterIds {3}]) false = some (.ok new) ∧
      QuorumsMeet old.configs new.configs := by
  have h : (⟨[{1, 2}], threeNodes⟩ : Membership Nat Unit).change
      (.batch [.removeVoters {1}, .addVoterIds {3}]) false =
        some (.ok ⟨[{1, 2}, {2, 3}], threeNodes⟩) := by decide +kernel
  exact ⟨h, (change_ok_spec (by decide) h).2.2.1⟩

/-! ## Two changes of one parent -/

/-- The majorities of any two voter sets of `m` meet. -/
def ConstituentsMeet (m : Membership NID N) : Prop :=
  ∀ c ∈ m.configs, ∀ d ∈ m.configs, MajoritiesMeet c d

instance (m : Membership NID N) : Decidable m.ConstituentsMeet :=
  inferInstanceAs (Decidable (∀ c ∈ _, ∀ d ∈ _, _))

/-- Replacing the voters by one constituent is accepted and leaves that voter set alone. -/
theorem change_to_constituent {m : Membership NID N} (hv : m.Valid) {c : Finset NID}
    (hc : c ∈ m.configs) :
    m.change (.replaceAllVoters c) true = some (.ok ⟨[c], m.nodes⟩) := by
  have hcoh : isCoherentWith m.configs [c] = true :=
    (isCoherentWith_iff _ _).2 ⟨c, hc, List.mem_singleton.2 rfl⟩
  have hnext : m.nextCoherent c true = ⟨[c], m.nodes⟩ := by
    simp [nextCoherent, findCoherent, hcoh]
  have hvalid : (⟨[c], m.nodes⟩ : Membership NID N).ensureValid = .ok () := by
    rw [ensureValid_ok_iff]
    constructor
    · intro c' hc'
      rw [List.mem_singleton.1 hc']
      exact hv.nonempty c hc
    · intro id hid
      obtain ⟨c', hc', hid⟩ := mem_voterIds.1 hid
      rw [List.mem_singleton.1 hc'] at hid
      exact hv.node id (mem_voterIds.2 ⟨c, hc, hid⟩)
  simp [change, computeTargetMembership, setVoters, hnext, hvalid, Except.map]

/-- Any two results of `change` on one valid parent have intersecting quorums, for all changes
    and retain flags, exactly when the majorities of any two voter sets of the parent meet. -/
theorem change_siblings_meet_iff {parent : Membership NID N} (hv : parent.Valid)
    (hne : parent.configs ≠ []) :
    (∀ (ch₁ ch₂ : ChangeMembers NID N) (retain₁ retain₂ : Bool) (m₁ m₂ : Membership NID N),
        parent.change ch₁ retain₁ = some (.ok m₁) → parent.change ch₂ retain₂ = some (.ok m₂) →
        QuorumsMeet m₁.configs m₂.configs) ↔
      parent.ConstituentsMeet := by
  constructor
  · intro h c hc d hd
    have hmeet := h _ _ _ _ _ _ (change_to_constituent hv hc) (change_to_constituent hv hd)
    exact (quorumsMeet_singleton_iff (hv.nonempty c hc) (hv.nonempty d hd)).1 hmeet
  · intro h ch₁ ch₂ retain₁ retain₂ m₁ m₂ h₁ h₂
    obtain ⟨c, hc, hc₁⟩ := exists_common_of_change hne h₁
    obtain ⟨d, hd, hd₂⟩ := exists_common_of_change hne h₂
    exact quorumsMeet_of_majorities hc₁ hd₂ fun _ _ hq hr => (h c hc d hd).inter_nonempty hq hr

/-- A joint membership of `{1, 2, 3}` and `{4}`. -/
def jointParent : Membership Nat Unit := ⟨[{1, 2, 3}, {4}], threeNodes.insert 4 ()⟩

theorem jointParent_valid : jointParent.Valid :=
  (ensureValid_ok_iff _).1 (by decide +kernel)

theorem change_siblings_meet_iff_joint :
    (jointParent.Valid ∧ jointParent.configs ≠ []) ∧
      ¬ ∀ (ch₁ ch₂ : ChangeMembers Nat Unit) (retain₁ retain₂ : Bool)
        (m₁ m₂ : Membership Nat Unit), jointParent.change ch₁ retain₁ = some (.ok m₁) →
          jointParent.change ch₂ retain₂ = some (.ok m₂) →
          QuorumsMeet m₁.configs m₂.configs := by
  refine ⟨⟨jointParent_valid, by decide⟩, ?_⟩
  rw [change_siblings_meet_iff jointParent_valid (by decide)]
  decide

/-- Going back to `{1, 2, 3}` and going on to `{4}` are both accepted, and the results have
    disjoint quorums. -/
theorem change_siblings_disjoint :
    ∃ m₁ m₂ : Membership Nat Unit,
      jointParent.change (.replaceAllVoters {1, 2, 3}) true = some (.ok m₁) ∧
      jointParent.change (.replaceAllVoters {4}) true = some (.ok m₂) ∧
      ¬ QuorumsMeet m₁.configs m₂.configs := by
  refine ⟨⟨[{1, 2, 3}], jointParent.nodes⟩, ⟨[{4}], jointParent.nodes⟩, by decide +kernel,
    by decide +kernel, ?_⟩
  intro h
  obtain ⟨x, hx, hx'⟩ := h [1, 2] [4] (by decide) (by decide) (by decide) (by decide)
  rw [List.mem_singleton.1 hx'] at hx
  exact absurd hx (by decide)

/-! ## Repeated changes -/

/-- The same change asked for again and again, with the retain flags of the list. -/
def changeEach (m : Membership NID N) (ch : ChangeMembers NID N) :
    List Bool → Option (Except (MembershipError NID) (Membership NID N))
  | [] => some (.ok m)
  | retain :: retains =>
    match m.change ch retain with
    | some (.ok new) => changeEach new ch retains
    | res => res

theorem changeEach_cons {m new : Membership NID N} {ch : ChangeMembers NID N} {retain : Bool}
    (h : m.change ch retain = some (.ok new)) (retains : List Bool) :
    m.changeEach ch (retain :: retains) = new.changeEach ch retains := by
  simp only [changeEach, h]

theorem lookup_nextCoherent_of_mem {m : Membership NID N} {goal : Finset NID} {retain : Bool}
    {x : NID} (hx : x ∈ (m.nextCoherent goal retain).voterIds) :
    (m.nextCoherent goal retain).nodes.lookup x = m.nodes.lookup x := by
  rw [lookup_nextCoherent, if_neg fun h => h.2.2 hx]

/-- A change to a known, non-empty voter set is accepted, and the result is valid. -/
theorem nextCoherent_valid {m : Membership NID N} (hv : m.Valid) (hne : m.configs ≠ [])
    {goal : Finset NID} (hgoal : goal.Nonempty) (hknown : ∀ id ∈ goal, id ∈ m.nodes)
    (retain : Bool) : (m.nextCoherent goal retain).Valid := by
  have hof : ∀ c ∈ findCoherent m.configs goal, c = goal ∨ c ∈ m.configs := by
    intro c hc
    rcases findCoherent_cases hne goal with ⟨-, he⟩ | ⟨-, he⟩ <;> rw [he] at hc
    · exact Or.inl (List.mem_singleton.1 hc)
    · rcases List.mem_cons.1 hc with rfl | hc
      · exact Or.inr (List.getLast_mem hne)
      · exact Or.inl (List.mem_singleton.1 hc)
  constructor
  · intro c hc
    rcases hof c hc with rfl | hc
    · exact hgoal
    · exact hv.nonempty c hc
  · intro id hid
    have hnode : id ∈ m.nodes := by
      obtain ⟨c, hc, hidc⟩ := mem_voterIds.1 hid
      rcases hof c hc with rfl | hc
      · exact hknown id hidc
      · exact hv.node id (mem_voterIds.2 ⟨c, hc, hidc⟩)
    rw [← Finmap.lookup_isSome, lookup_nextCoherent_of_mem hid, Finmap.lookup_isSome]
    exact hnode

theorem change_eq_nextCoherent {m : Membership NID N} {ch : ChangeMembers NID N}
    {goal : Finset NID} (hch : m.computeTargetMembership ch = m.setVoters goal) {retain : Bool}
    (hvalid : (m.nextCoherent goal retain).Valid) :
    m.change ch retain = some (.ok (m.nextCoherent goal retain)) := by
  unfold change
  rw [hch]
  show some ((m.nextCoherent goal retain).ensureValid.map fun () => m.nextCoherent goal retain) = _
  rw [(ensureValid_ok_iff _).2 hvalid]
  rfl

/-- One request for `goal`: it is a voter set of the result, and the only one if it was a voter
    set before. -/
theorem change_replaceAllVoters {m : Membership NID N} (hv : m.Valid) (hne : m.configs ≠ [])
    {goal : Finset NID} (hgoal : goal.Nonempty) (hknown : ∀ id ∈ goal, id ∈ m.nodes)
    (retain : Bool) :
    ∃ new, m.change (.replaceAllVoters goal) retain = some (.ok new) ∧ new.Valid ∧
      goal ∈ new.configs ∧ (goal ∈ m.configs → new.configs = [goal]) := by
  have hvalid := nextCoherent_valid hv hne hgoal hknown retain
  refine ⟨_, change_eq_nextCoherent rfl hvalid, hvalid, ?_, ?_⟩
  · rw [nextCoherent_configs]
    rcases findCoherent_cases hne goal with ⟨-, he⟩ | ⟨-, he⟩ <;> simp [he]
  · intro hmem
    rw [nextCoherent_configs]
    rcases findCoherent_cases hne goal with ⟨-, he⟩ | ⟨hnot, -⟩
    · exact he
    · exact absurd hmem hnot

/-- A uniform membership is not changed by a request for its own voter set. -/
theorem nextCoherent_self {m : Membership NID N} {goal : Finset NID} (h : m.configs = [goal])
    (retain : Bool) : m.nextCoherent goal retain = m := by
  have hcoh : findCoherent m.configs goal = [goal] := by
    have hne : m.configs ≠ [] := by simp [h]
    rcases findCoherent_cases hne goal with ⟨-, he⟩ | ⟨hnot, -⟩
    · exact he
    · exact absurd (by simp [h]) hnot
  have hdiff : m.voterIds \ ([goal] : List (Finset NID)).foldr (· ∪ ·) ∅ = ∅ := by
    unfold voterIds
    rw [h, Finset.sdiff_self]
  obtain ⟨configs, nodes⟩ := m
  simp only [nextCoherent, hcoh, hdiff]
  cases h
  cases retain <;> rfl

theorem changeEach_self {m : Membership NID N} (hv : m.Valid) {goal : Finset NID}
    (h : m.configs = [goal]) (retains : List Bool) :
    m.changeEach (.replaceAllVoters goal) retains = some (.ok m) := by
  induction retains with
  | nil => rfl
  | cons retain retains ih =>
    have hself := nextCoherent_self h retain
    have hchange : m.change (.replaceAllVoters goal) retain = some (.ok m) := by
      rw [change_eq_nextCoherent rfl (hself.symm ▸ hv), hself]
    rw [changeEach_cons hchange]
    exact ih

/-- Flattening a valid joint: the empty addition leaves the last voter set alone. -/
theorem change_addVoterIds_empty {m : Membership NID N} (hv : m.Valid) (hne : m.configs ≠ [])
    (retain : Bool) :
    ∃ new, m.change (.addVoterIds ∅) retain = some (.ok new) ∧
      new.configs = [m.configs.getLast hne] := by
  have hlast : m.configs.getLast hne ∈ m.configs := List.getLast_mem hne
  have htarget : m.computeTargetMembership (.addVoterIds ∅) =
      m.setVoters (m.configs.getLast hne) := by
    unfold computeTargetMembership lastConfig
    rw [List.getLast?_eq_some_getLast hne, Option.getD_some, Finset.union_empty]
  have hvalid : (m.nextCoherent (m.configs.getLast hne) retain).Valid :=
    nextCoherent_valid hv hne (hv.nonempty _ hlast)
      (fun id hid => hv.node id (mem_voterIds.2 ⟨_, hlast, hid⟩)) retain
  refine ⟨_, change_eq_nextCoherent htarget hvalid, ?_⟩
  rw [nextCoherent_configs]
  rcases findCoherent_cases hne (m.configs.getLast hne) with ⟨-, he⟩ | ⟨hnot, -⟩
  · exact he
  · exact absurd hlast hnot

/-- Asking again and again for a known, non-empty voter set always succeeds. From the second
    request on the membership is uniform with this voter set, and once it is, no further request
    changes it. A change whose result is joint is flattened to its last voter set by the empty
    addition. The retain flag may be different each time. -/
theorem change_reaches_uniform {m : Membership NID N} (hv : m.Valid) (hne : m.configs ≠ []) :
    (∀ goal : Finset NID, goal.Nonempty → (∀ id ∈ goal, id ∈ m.nodes) → ∀ retains : List Bool,
        ∃ last, m.changeEach (.replaceAllVoters goal) retains = some (.ok last) ∧
          (2 ≤ retains.length → last.configs = [goal]) ∧
          (last.configs = [goal] → ∀ more,
            last.changeEach (.replaceAllVoters goal) more = some (.ok last))) ∧
      ∀ (ch : ChangeMembers NID N) (retain : Bool) (joint : Membership NID N),
        m.change ch retain = some (.ok joint) → joint.isJoint = true → ∀ retain' : Bool,
          ∃ uniform, joint.change (.addVoterIds ∅) retain' = some (.ok uniform) ∧
            some uniform.configs = joint.configs.getLast?.map fun c => [c] := by
  constructor
  · intro goal hgoal hknown retains
    cases retains with
    | nil => exact ⟨m, rfl, by simp, changeEach_self hv⟩
    | cons r retains =>
      obtain ⟨m₁, h₁, hv₁, hmem₁, -⟩ := change_replaceAllVoters hv hne hgoal hknown r
      rw [changeEach_cons h₁]
      have hne₁ : m₁.configs ≠ [] := List.ne_nil_of_mem hmem₁
      have hknown₁ : ∀ id ∈ goal, id ∈ m₁.nodes := fun id hid =>
        hv₁.node id (mem_voterIds.2 ⟨goal, hmem₁, hid⟩)
      cases retains with
      | nil => exact ⟨m₁, rfl, by simp, changeEach_self hv₁⟩
      | cons r' retains =>
        obtain ⟨m₂, h₂, hv₂, -, huni⟩ := change_replaceAllVoters hv₁ hne₁ hgoal hknown₁ r'
        rw [changeEach_cons h₂]
        exact ⟨m₂, changeEach_self hv₂ (huni hmem₁) retains, fun _ => huni hmem₁,
          changeEach_self hv₂⟩
  · intro ch retain joint h hjoint retain'
    obtain ⟨-, -, -, hvalid⟩ := change_eq_ok h
    have hnej : joint.configs ≠ [] := by
      intro h0
      simp [isJoint, h0] at hjoint
    obtain ⟨uniform, hu, hconfigs⟩ := change_addVoterIds_empty hvalid hnej retain'
    refine ⟨uniform, hu, ?_⟩
    rw [hconfigs, List.getLast?_eq_some_getLast hnej]
    rfl

/-- From the joint of `{1, 2, 3}` and `{4}` to `{2, 3}`, dropping the removed voters: the first
    request still keeps `{4}`. -/
theorem change_reaches_uniform_joint :
    jointParent.Valid ∧
      (∃ last, jointParent.changeEach (.replaceAllVoters {2, 3}) [false] = some (.ok last) ∧
        last.configs = [{4}, {2, 3}]) ∧
      ∃ last, jointParent.changeEach (.replaceAllVoters {2, 3}) [false, false] =
        some (.ok last) ∧ last.configs = [{2, 3}] := by
  refine ⟨jointParent_valid, ⟨⟨[{4}, {2, 3}], _⟩, rfl, rfl⟩, ?_⟩
  obtain ⟨last, hlast, hconfigs, -⟩ :=
    (change_reaches_uniform jointParent_valid (by decide)).1 {2, 3} (by decide) (by decide)
      [false, false]
  exact ⟨last, hlast, hconfigs (by decide)⟩

/-! ## Direct appends -/

theorem isDirectAppendCompatibleWith_eq (a b : Membership NID N) :
    a.isDirectAppendCompatibleWith b = true ↔
      (a.configs ≠ [] ∧ ∀ c ∈ a.configs, c.Nonempty) ∧
      (b.configs ≠ [] ∧ ∀ c ∈ b.configs, c.Nonempty) ∧
      ((∃ c d, a.configs = [c] ∧ b.configs = [d] ∧ (symmDiff c d).card ≤ 1) ∨
        ((¬ ∃ c d, a.configs = [c] ∧ b.configs = [d]) ∧ ∃ c ∈ a.configs, c ∈ b.configs)) := by
  rw [← ensureQuorumDefined_ok_iff, ← ensureQuorumDefined_ok_iff]
  unfold isDirectAppendCompatibleWith
  cases ha : a.ensureQuorumDefined with
  | error e => simp
  | ok u =>
    cases hb : b.ensureQuorumDefined with
    | error e => simp
    | ok u' =>
      simp only [true_and]
      split
      · rename_i c d hc hd
        simp [hc, hd]
      · rename_i h
        rw [isCoherentWith_iff]
        have hnot : ¬ ∃ c d, a.configs = [c] ∧ b.configs = [d] := by
          rintro ⟨c, d, hc, hd⟩
          exact h c d hc hd
        constructor
        · exact fun hex => Or.inr ⟨hnot, hex⟩
        · rintro (⟨c, d, hc, hd, -⟩ | ⟨-, hex⟩)
          · exact absurd ⟨c, d, hc, hd⟩ hnot
          · exact hex

/-- Memberships compatible for a direct append have intersecting quorums. -/
theorem quorumsMeet_of_isDirectAppendCompatibleWith {a b : Membership NID N}
    (h : a.isDirectAppendCompatibleWith b = true) : QuorumsMeet a.configs b.configs := by
  obtain ⟨-, -, hcase⟩ := (isDirectAppendCompatibleWith_eq a b).1 h
  rcases hcase with ⟨c, d, hc, hd, hdiff⟩ | ⟨-, c, hc, hc'⟩
  · rw [hc, hd]
    exact quorumsMeet_of_majorities (List.mem_singleton.2 rfl) (List.mem_singleton.2 rfl)
      fun _ _ hq hr => hq.inter_nonempty_of_symmDiff hdiff hr
  · exact quorumsMeet_of_common hc hc'

/-- `is_direct_append_compatible_with` is symmetric, and when it holds every quorum of one
    membership shares a node with every quorum of the other. -/
theorem isDirectAppendCompatibleWith_symm_meet {a b : Membership NID N}
    (h : a.isDirectAppendCompatibleWith b = true) :
    b.isDirectAppendCompatibleWith a = true ∧ QuorumsMeet a.configs b.configs := by
  refine ⟨?_, quorumsMeet_of_isDirectAppendCompatibleWith h⟩
  rw [isDirectAppendCompatibleWith_eq] at h ⊢
  obtain ⟨ha, hb, hcase⟩ := h
  refine ⟨hb, ha, ?_⟩
  rcases hcase with ⟨c, d, hc, hd, hdiff⟩ | ⟨hnot, c, hc, hc'⟩
  · exact Or.inl ⟨d, c, hd, hc, by rwa [symmDiff_comm]⟩
  · refine Or.inr ⟨?_, c, hc', hc⟩
    rintro ⟨d, e, hd, he⟩
    exact hnot ⟨e, d, he, hd⟩

theorem isDirectAppendCompatibleWith_symm_meet_add :
    let a : Membership Nat Unit := ⟨[{1, 2}], threeNodes⟩
    let b : Membership Nat Unit := ⟨[{1, 2, 3}], threeNodes⟩
    a.isDirectAppendCompatibleWith b = true ∧ QuorumsMeet a.configs b.configs := by
  have h : (⟨[{1, 2}], threeNodes⟩ : Membership Nat Unit).isDirectAppendCompatibleWith
      ⟨[{1, 2, 3}], threeNodes⟩ = true := by decide +kernel
  exact ⟨h, (isDirectAppendCompatibleWith_symm_meet h).2⟩

end Membership

end ZenohRaft
