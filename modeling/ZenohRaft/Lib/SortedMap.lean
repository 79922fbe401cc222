/-
  Maps kept in the order of their keys.

  A map is the list of its entries, in strictly ascending order of the keys, and carries the proof
  of that. The lemmas say what an operation does to the entries up to their order: an insertion of
  a new key adds an entry, a removal takes one away, and the first entry is the least.
-/
import ZenohRaft.Lib.Order

namespace Lib

/-- A map with its entries in ascending order of the keys. -/
structure SortedMap (K V : Type) [LinearOrder K] where
  entries : List (K × V)
  sorted : entries.Pairwise fun a b => a.1 < b.1

namespace SortedMap

variable {K V : Type} [LinearOrder K]

/-! ## Operations -/

/-- The map without entries. -/
def empty : SortedMap K V := ⟨[], .nil⟩

/-- Puts an entry in its place, over one of the same key. -/
def insertEntry (k : K) (v : V) : List (K × V) → List (K × V)
  | [] => [(k, v)]
  | e :: es =>
    if k < e.1 then (k, v) :: e :: es
    else if k = e.1 then (k, v) :: es
    else e :: insertEntry k v es

theorem mem_insertEntry {k : K} {v : V} {x : K × V} {es : List (K × V)}
    (h : x ∈ insertEntry k v es) : x = (k, v) ∨ x ∈ es := by
  induction es with
  | nil => exact Or.inl (List.mem_singleton.1 h)
  | cons e es ih =>
    unfold insertEntry at h
    split at h
    · exact List.mem_cons.1 h
    · split at h
      · exact (List.mem_cons.1 h).imp id (List.mem_cons_of_mem e)
      · rcases List.mem_cons.1 h with h | h
        · exact Or.inr (h ▸ List.mem_cons_self)
        · exact (ih h).imp id (List.mem_cons_of_mem e)

theorem sorted_insertEntry (k : K) (v : V) {es : List (K × V)}
    (h : es.Pairwise fun a b => a.1 < b.1) :
    (insertEntry k v es).Pairwise fun a b => a.1 < b.1 := by
  induction es with
  | nil => exact List.pairwise_singleton _ _
  | cons e es ih =>
    obtain ⟨hfirst, hrest⟩ := List.pairwise_cons.1 h
    unfold insertEntry
    split
    · rename_i hlt
      refine List.pairwise_cons.2 ⟨fun x hx => ?_, h⟩
      rcases List.mem_cons.1 hx with rfl | hx
      · exact hlt
      · exact hlt.trans (hfirst x hx)
    · split
      · rename_i heq
        exact List.pairwise_cons.2 ⟨fun x hx => heq ▸ hfirst x hx, hrest⟩
      · rename_i hlt hne
        refine List.pairwise_cons.2 ⟨fun x hx => ?_, ih hrest⟩
        rcases mem_insertEntry hx with rfl | hx
        · exact lt_of_le_of_ne (not_lt.1 hlt) (Ne.symm hne)
        · exact hfirst x hx

/-- Inserts an entry, over one of the same key. -/
def insert (m : SortedMap K V) (k : K) (v : V) : SortedMap K V :=
  ⟨insertEntry k v m.entries, sorted_insertEntry k v m.sorted⟩

/-- The entry with the least key. -/
def first? (m : SortedMap K V) : Option (K × V) := m.entries.head?

/-- The map without the entry with the least key. -/
def popFirst (m : SortedMap K V) : SortedMap K V := ⟨m.entries.tail, m.sorted.tail⟩

/-- The value of `k`, and the map without it. -/
def remove? (m : SortedMap K V) (k : K) : Option (V × SortedMap K V) :=
  (m.entries.find? fun e => e.1 = k).map fun e =>
    (e.2, ⟨m.entries.filter fun e => e.1 ≠ k, m.sorted.filter _⟩)

/-! ## The entries after an operation -/

variable {m : SortedMap K V}

theorem entries_of_first? {e : K × V} (h : m.first? = some e) :
    m.entries = e :: m.popFirst.entries :=
  List.eq_cons_of_mem_head? h

theorem entries_of_first?_none (h : m.first? = none) : m.entries = [] :=
  List.head?_eq_none_iff.1 h

/-- No key is below the first. -/
theorem first?_le {e : K × V} (h : m.first? = some e) : ∀ x ∈ m.entries, e.1 ≤ x.1 := by
  intro x hx
  have hsorted := m.sorted
  rw [entries_of_first? h] at hx hsorted
  rcases List.mem_cons.1 hx with rfl | hx
  · exact le_rfl
  · exact (List.pairwise_cons.1 hsorted).1 x hx |>.le

theorem insert_perm {k : K} (v : V) (hk : ∀ x ∈ m.entries, x.1 ≠ k) :
    (m.insert k v).entries.Perm ((k, v) :: m.entries) := by
  have key : ∀ es : List (K × V), (∀ x ∈ es, x.1 ≠ k) →
      (insertEntry k v es).Perm ((k, v) :: es) := by
    intro es hes
    induction es with
    | nil => exact .refl _
    | cons e es ih =>
      unfold insertEntry
      split
      · exact .refl _
      · rw [if_neg fun h => hes e List.mem_cons_self h.symm]
        have hrest := ih fun x hx => hes x (List.mem_cons_of_mem e hx)
        exact (hrest.cons e).trans (.swap _ _ _)
  exact key m.entries hk

/-- The value of a key that is there. -/
theorem remove?_of_mem {k : K} {v : V} (h : (k, v) ∈ m.entries) :
    ∃ m', m.remove? k = some (v, m') ∧ m.entries.Perm ((k, v) :: m'.entries) := by
  have key : ∀ es : List (K × V), (es.Pairwise fun a b => a.1 < b.1) → (k, v) ∈ es →
      (es.find? fun e => decide (e.1 = k)) = some (k, v) ∧
        es.Perm ((k, v) :: es.filter fun e => decide (e.1 ≠ k)) := by
    intro es hsorted hmem
    induction es with
    | nil => cases hmem
    | cons e es ih =>
      obtain ⟨hfirst, hrest⟩ := List.pairwise_cons.1 hsorted
      by_cases he : e.1 = k
      · -- the keys after `k` are greater
        have hgone : ∀ x ∈ es, x.1 ≠ k := fun x hx => he ▸ (hfirst x hx).ne'
        have hsame : e = (k, v) := by
          rcases List.mem_cons.1 hmem with h | h
          · exact h.symm
          · exact absurd rfl (hgone _ h)
        subst hsame
        rw [List.filter_cons_of_neg (by simp), List.find?_cons_of_pos (by simp),
          List.filter_eq_self.2 fun x hx => decide_eq_true (hgone x hx)]
        exact ⟨rfl, .refl _⟩
      · have hmem' : (k, v) ∈ es := by
          rcases List.mem_cons.1 hmem with h | h
          · exact absurd (congrArg Prod.fst h).symm he
          · exact h
        obtain ⟨hfind, hperm⟩ := ih hrest hmem'
        rw [List.find?_cons_of_neg (by simpa using he),
          List.filter_cons_of_pos (by simpa using he)]
        exact ⟨hfind, (hperm.cons e).trans (.swap _ _ _)⟩
  obtain ⟨hfind, hperm⟩ := key m.entries m.sorted h
  refine ⟨⟨m.entries.filter fun e => e.1 ≠ k, m.sorted.filter _⟩, ?_, hperm⟩
  unfold remove?
  rw [hfind]
  rfl

end SortedMap

end Lib
