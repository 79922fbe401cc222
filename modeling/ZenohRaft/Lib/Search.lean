/-
  Binary search in a list, as the standard library of the source does it.

  `binarySearchBy cmp l` halves the part of `l` that may hold an element with `cmp = .eq`. Its
  answer is `.ok i` for such an element, or `.error i` for the place where one would stand.

  * `binarySearchBy_ok`: what is found is there.
  * `binarySearchBy_error`: on a list that `cmp` orders, everything before the place is smaller
    and everything from it on is greater.
-/
import Mathlib.Data.List.Basic

namespace Lib

variable {α : Type}

/-- The loop of `slice::binary_search_by`: `size` elements from `base` on are left. -/
def searchLoop (cmp : α → Ordering) (l : List α) : Nat → Nat → Nat → Nat
  | 0, _, base => base
  | fuel + 1, size, base =>
    if size ≤ 1 then base
    else
      let half := size / 2
      let mid := base + half
      searchLoop cmp l fuel (size - half) (if (l[mid]?).map cmp = some .gt then base else mid)

/-- `slice::binary_search_by`. -/
def binarySearchBy (cmp : α → Ordering) (l : List α) : Except Nat Nat :=
  let base := searchLoop cmp l l.length l.length 0
  match (l[base]?).map cmp with
  | some .eq => .ok base
  | some .lt => .error (base + 1)
  | _ => .error base

/-- The elements go from smaller over equal to greater. -/
def OrderedBy (cmp : α → Ordering) (l : List α) : Prop :=
  l.Pairwise fun a b => (cmp b = .lt → cmp a = .lt) ∧ (cmp a = .gt → cmp b = .gt)

variable {cmp : α → Ordering} {l : List α}

/-- What the loop keeps: everything from the end of the part on is greater, and the part starts
    at the front of the list or at an element that is not greater. -/
theorem searchLoop_spec (ho : OrderedBy cmp l) (fuel : Nat) {size base : Nat} (hsize : 0 < size)
    (hfuel : size ≤ fuel + 1) (hle : base + size ≤ l.length)
    (hbehind : ∀ i a, l[i]? = some a → base + size ≤ i → cmp a = .gt)
    (hbase : base = 0 ∨ ∀ a, l[base]? = some a → cmp a ≠ .gt) :
    let r := searchLoop cmp l fuel size base
    r < l.length ∧ (∀ i a, l[i]? = some a → r < i → cmp a = .gt) ∧
      (r = 0 ∨ ∀ a, l[r]? = some a → cmp a ≠ .gt) := by
  induction fuel generalizing size base with
  | zero =>
    have hone : size = 1 := by omega
    subst hone
    exact ⟨by show base < _; omega, fun i a ha hi => hbehind i a ha hi, hbase⟩
  | succ fuel ih =>
    unfold searchLoop
    split
    · have hone : size = 1 := by omega
      subst hone
      exact ⟨by show base < _; omega, fun i a ha hi => hbehind i a ha hi, hbase⟩
    · rename_i hbig
      have hmid : base + size / 2 < l.length := by omega
      dsimp only
      split
      · rename_i hgt
        obtain ⟨b, hb, hbgt⟩ := Option.map_eq_some_iff.1 hgt
        refine ih (by omega) (by omega) (by omega) ?_ hbase
        intro i a ha hi
        rcases Nat.lt_or_ge i (base + size) with hlt | hge
        · -- behind the middle, which is greater already
          rcases Nat.eq_or_lt_of_le (show base + size / 2 ≤ i by omega) with rfl | hmi
          · rw [hb] at ha
            rw [← Option.some.inj ha]
            exact hbgt
          · obtain ⟨hm', rfl⟩ := List.getElem?_eq_some_iff.1 hb
            obtain ⟨hi', rfl⟩ := List.getElem?_eq_some_iff.1 ha
            exact (List.pairwise_iff_getElem.1 ho _ _ hm' hi' hmi).2 hbgt
        · exact hbehind i a ha hge
      · rename_i hgt
        refine ih (by omega) (by omega) (by omega) ?_ (Or.inr ?_)
        · intro i a ha hi
          exact hbehind i a ha (by omega)
        · intro a ha hagt
          rw [ha, Option.map_some, hagt] at hgt
          exact hgt rfl

theorem binarySearchBy_ok {i : Nat} (h : binarySearchBy cmp l = .ok i) :
    ∃ a, l[i]? = some a ∧ cmp a = .eq := by
  unfold binarySearchBy at h
  dsimp only at h
  split at h
  · rename_i heq
    obtain ⟨a, ha, hcmp⟩ := Option.map_eq_some_iff.1 heq
    obtain rfl := Except.ok.inj h
    exact ⟨a, ha, hcmp⟩
  · cases h
  · cases h

theorem binarySearchBy_error (ho : OrderedBy cmp l) {i : Nat}
    (h : binarySearchBy cmp l = .error i) : i ≤ l.length ∧
      (∀ a ∈ l.take i, cmp a = .lt) ∧ ∀ a ∈ l.drop i, cmp a = .gt := by
  cases l with
  | nil =>
    have hi : i = 0 := by
      have h0 : (Except.error 0 : Except Nat Nat) = .error i := h
      exact (Except.error.inj h0).symm
    subst hi
    simp
  | cons b l =>
    have hpos : 0 < (b :: l).length := Nat.succ_pos _
    obtain ⟨hlt, hbehind, hfront⟩ := searchLoop_spec ho (b :: l).length hpos (Nat.le_succ _)
      (Nat.le_of_eq (Nat.zero_add _))
      (fun i a ha hi => absurd (List.getElem?_eq_some_iff.1 ha).1 (by omega)) (Or.inl rfl)
    unfold binarySearchBy at h
    dsimp only at h
    generalize searchLoop cmp (b :: l) (b :: l).length (b :: l).length 0 = r at *
    obtain ⟨a, ha⟩ : ∃ a, (b :: l)[r]? = some a := ⟨_, List.getElem?_eq_getElem hlt⟩
    have hdrop : ∀ j, r < j → ∀ c ∈ (b :: l).drop j, cmp c = .gt := by
      intro j hj c hc
      obtain ⟨k, hk⟩ := List.mem_iff_getElem?.1 hc
      rw [List.getElem?_drop] at hk
      exact hbehind _ c hk (by omega)
    rw [ha, Option.map_some] at h
    cases hcmp : cmp a with
    | eq =>
      rw [hcmp] at h
      cases h
    | lt =>
      rw [hcmp] at h
      obtain rfl := Except.error.inj h
      refine ⟨hlt, ?_, hdrop _ (Nat.lt_succ_self r)⟩
      intro c hc
      obtain ⟨k, hk⟩ := List.mem_iff_getElem?.1 hc
      rw [List.getElem?_take] at hk
      split at hk
      · rename_i hkr
        rcases Nat.eq_or_lt_of_le (Nat.lt_succ_iff.1 hkr) with rfl | hlt'
        · rw [ha] at hk
          rw [← Option.some.inj hk]
          exact hcmp
        · obtain ⟨hk', rfl⟩ := List.getElem?_eq_some_iff.1 hk
          obtain ⟨hr', rfl⟩ := List.getElem?_eq_some_iff.1 ha
          exact (List.pairwise_iff_getElem.1 ho k r hk' hr' hlt').1 hcmp
      · cases hk
    | gt =>
      rw [hcmp] at h
      obtain rfl := Except.error.inj h
      have hr : r = 0 := hfront.resolve_right fun hne => hne a ha hcmp
      subst hr
      refine ⟨Nat.zero_le _, by simp, ?_⟩
      intro c hc
      obtain rfl : b = a := by simpa using ha
      rcases List.mem_cons.1 hc with rfl | hc
      · exact hcmp
      · exact hdrop 1 Nat.one_pos c hc

end Lib
