/-
  Orders used by the rest of the development.

  `Option α` is ordered with `none` below every `some`. Core defines `≤`, `<`, `min` and
  `max` that way; here they become a linear order, so that the order lemmas of Mathlib apply
  to optional values.

  `sortedList s` lists a finite set in ascending order. It is an insertion sort lifted to the
  set, hence structural, and a closed instance of it evaluates in the kernel.

  `StrictCmp cmp` says that a comparison that may have no answer is a strict partial order and
  that it finds equal exactly what is equal. A comparison by rank is one, and so is one that
  breaks the ties of another by a linear order.
-/
import Mathlib.Data.Finset.Basic
import Mathlib.Data.Finset.Card
import Mathlib.Data.List.Sort
import Mathlib.Order.Defs.LinearOrder

namespace Lib

/-! ## Optional values -/

section OptionOrder

variable {α : Type} [LinearOrder α]

instance optionDecidableLE : DecidableLE (Option α)
  | none, _ => isTrue Option.none_le
  | some _, none => isFalse Option.not_some_le_none
  | some a, some b => decidable_of_iff (a ≤ b) Option.some_le_some.symm

instance optionDecidableLT : DecidableLT (Option α)
  | none, none => isFalse Option.not_lt_none
  | none, some _ => isTrue Option.none_lt_some
  | some _, none => isFalse Option.not_lt_none
  | some a, some b => decidable_of_iff (a < b) Option.some_lt_some.symm

/-- `none` is below every `some`, and two `some` compare by their values. -/
instance optionLinearOrder : LinearOrder (Option α) where
  le := (· ≤ ·)
  lt := (· < ·)
  le_refl
    | none => Option.none_le
    | some a => Option.some_le_some.2 (le_refl a)
  le_trans
    | none, _, _, _, _ => Option.none_le
    | some _, none, _, h, _ => absurd h Option.not_some_le_none
    | some _, some _, none, _, h => absurd h Option.not_some_le_none
    | some _, some _, some _, h, h' =>
      Option.some_le_some.2 (le_trans (Option.some_le_some.1 h) (Option.some_le_some.1 h'))
  le_antisymm
    | none, none, _, _ => rfl
    | none, some _, _, h => absurd h Option.not_some_le_none
    | some _, none, h, _ => absurd h Option.not_some_le_none
    | some _, some _, h, h' =>
      congrArg some (le_antisymm (Option.some_le_some.1 h) (Option.some_le_some.1 h'))
  le_total
    | none, _ => Or.inl Option.none_le
    | some _, none => Or.inr Option.none_le
    | some a, some b => (le_total a b).imp Option.some_le_some.2 Option.some_le_some.2
  lt_iff_le_not_ge
    | none, none => by simp
    | none, some _ => by simp
    | some _, none => by simp
    | some a, some b => by
        rw [Option.some_lt_some, Option.some_le_some, Option.some_le_some]
        exact lt_iff_le_not_ge
  toDecidableLE := optionDecidableLE
  toDecidableLT := optionDecidableLT
  compare a b := compareOfLessAndEq a b
  min := min
  max := max
  min_def
    | none, none => rfl
    | none, some _ => by simp
    | some _, none => by simp
    | some a, some b => by
        simp only [Option.min_some_some, Option.some_le_some, min_def]
        split <;> rfl
  max_def
    | none, none => rfl
    | none, some _ => by simp
    | some _, none => by simp
    | some a, some b => by
        simp only [Option.max_some_some, Option.some_le_some, max_def]
        split <;> rfl

end OptionOrder

/-! ## Ascending enumeration of a finite set -/

section SortedList

variable {α : Type} [LinearOrder α]

/-- The elements of `s` in ascending order. -/
def sortedList (s : Finset α) : List α :=
  Quot.liftOn s.val (List.insertionSort (· ≤ ·)) fun a b h =>
    ((List.perm_insertionSort _ a).trans
      (h.trans (List.perm_insertionSort _ b).symm)).eq_of_pairwise
      (fun _ _ _ _ h h' => le_antisymm h h') (List.pairwise_insertionSort _ a)
      (List.pairwise_insertionSort _ b)

theorem coe_sortedList (s : Finset α) : (sortedList s : Multiset α) = s.val := by
  obtain ⟨v, hv⟩ := s
  induction v using Quot.inductionOn with
  | h l => exact Multiset.coe_eq_coe.2 (List.perm_insertionSort _ l)

@[simp] theorem mem_sortedList {s : Finset α} {x : α} : x ∈ sortedList s ↔ x ∈ s := by
  rw [← Multiset.mem_coe, coe_sortedList, Finset.mem_val]

theorem nodup_sortedList (s : Finset α) : (sortedList s).Nodup := by
  rw [← Multiset.coe_nodup, coe_sortedList]
  exact s.nodup

end SortedList

/-! ## Comparisons that may have no answer -/

/-- `cmp` is a strict partial order, read off its answer `.lt`, and `.eq` is equality. -/
structure StrictCmp {α : Type} (cmp : α → α → Option Ordering) : Prop where
  eq_iff : ∀ a b, cmp a b = some .eq ↔ a = b
  gt_iff : ∀ a b, cmp a b = some .gt ↔ cmp b a = some .lt
  irrefl : ∀ a, cmp a a ≠ some .lt
  asymm : ∀ a b, cmp a b = some .lt → cmp b a ≠ some .lt
  trans : ∀ a b c, cmp a b = some .lt → cmp b c = some .lt → cmp a c = some .lt

/-- The answer `o`, and `next` where `o` found a tie. -/
def thenCmp (o : Option Ordering) (next : Ordering) : Option Ordering :=
  match o with
  | some .eq => some next
  | o => o

theorem thenCmp_eq_some {o : Option Ordering} {next r : Ordering} :
    thenCmp o next = some r ↔ o = some r ∧ r ≠ .eq ∨ o = some .eq ∧ next = r := by
  unfold thenCmp
  split
  · constructor
    · exact fun h => Or.inr ⟨rfl, Option.some.inj h⟩
    · rintro (⟨h, hr⟩ | ⟨-, rfl⟩)
      · exact absurd (Option.some.inj h).symm hr
      · rfl
  · rename_i ho
    constructor
    · rintro rfl
      exact Or.inl ⟨rfl, fun hr => ho (congrArg some hr)⟩
    · rintro (⟨rfl, -⟩ | ⟨rfl, -⟩)
      · rfl
      · exact absurd rfl ho

section StrictCmp

variable {α β γ : Type} {cmp : α → α → Option Ordering} [LinearOrder γ]

/-- A comparison is a strict partial order when some strict order decides its answers. -/
theorem StrictCmp.of_lt (lt : α → α → Prop) (hirrefl : ∀ a, ¬ lt a a)
    (htrans : ∀ a b c, lt a b → lt b c → lt a c)
    (hlt : ∀ a b, cmp a b = some .lt ↔ lt a b) (hgt : ∀ a b, cmp a b = some .gt ↔ lt b a)
    (heq : ∀ a b, cmp a b = some .eq ↔ a = b) : StrictCmp cmp where
  eq_iff := heq
  gt_iff a b := (hgt a b).trans (hlt b a).symm
  irrefl a h := hirrefl a ((hlt a a).1 h)
  asymm a b h h' := hirrefl a (htrans a b a ((hlt a b).1 h) ((hlt b a).1 h'))
  trans a b c h h' := (hlt a c).2 (htrans a b c ((hlt a b).1 h) ((hlt b c).1 h'))

/-- Values compared by their rank, where different values of one rank do not compare. -/
theorem StrictCmp.of_rank [DecidableEq α] (rank : α → γ)
    (hcmp : ∀ a b, cmp a b =
      if a = b then some .eq
      else if rank a < rank b then some .lt
      else if rank b < rank a then some .gt
      else none) : StrictCmp cmp := by
  have hkey : ∀ a b, (cmp a b = some .lt ↔ rank a < rank b) ∧
      (cmp a b = some .gt ↔ rank b < rank a) ∧ (cmp a b = some .eq ↔ a = b) := by
    intro a b
    rw [hcmp]
    by_cases hab : a = b
    · simp [hab]
    · rcases lt_trichotomy (rank a) (rank b) with h | h | h
      · simp [hab, h, not_lt.2 h.le]
      · simp [hab, h]
      · simp [hab, h, not_lt.2 h.le]
  exact StrictCmp.of_lt (fun a b => rank a < rank b) (fun a => lt_irrefl (rank a))
    (fun _ _ _ => lt_trans) (fun a b => (hkey a b).1) (fun a b => (hkey a b).2.1)
    (fun a b => (hkey a b).2.2)

theorem compareOfLessAndEq_cases [DecidableEq γ] (x y : γ) [Decidable (x < y)] :
    (compareOfLessAndEq x y = .lt ↔ x < y) ∧ (compareOfLessAndEq x y = .gt ↔ y < x) ∧
      (compareOfLessAndEq x y = .eq ↔ x = y) := by
  unfold compareOfLessAndEq
  rcases lt_trichotomy x y with h | h | h
  · simp [h, h.ne, not_lt.2 h.le]
  · simp [h]
  · simp [h, h.ne', not_lt.2 h.le]

/-- The ties of a strict partial order `c` on one part of a value, broken by a linear order on
    another part. -/
theorem StrictCmp.lex {c : β → β → Option Ordering} (hc : StrictCmp c) (f : α → β) (g : α → γ)
    (hinj : ∀ a b, f a = f b → g a = g b → a = b) {tie : α → α → Ordering}
    (htie : ∀ a b, (tie a b = .lt ↔ g a < g b) ∧ (tie a b = .gt ↔ g b < g a) ∧
      (tie a b = .eq ↔ g a = g b))
    (hcmp : ∀ a b, cmp a b = thenCmp (c (f a) (f b)) (tie a b)) : StrictCmp cmp := by
  have hlt : ∀ a b, cmp a b = some .lt ↔
      c (f a) (f b) = some .lt ∨ f a = f b ∧ g a < g b := by
    intro a b
    rw [hcmp, thenCmp_eq_some, hc.eq_iff, (htie a b).1]
    simp
  have hgt : ∀ a b, cmp a b = some .gt ↔
      c (f b) (f a) = some .lt ∨ f b = f a ∧ g b < g a := by
    intro a b
    rw [hcmp, thenCmp_eq_some, hc.eq_iff, hc.gt_iff, (htie a b).2.1,
      eq_comm (a := f a)]
    simp
  have heq : ∀ a b, cmp a b = some .eq ↔ a = b := by
    intro a b
    rw [hcmp, thenCmp_eq_some, hc.eq_iff, (htie a b).2.2]
    constructor
    · rintro (⟨-, h⟩ | ⟨hf, hg⟩)
      · exact absurd rfl h
      · exact hinj a b hf hg
    · rintro rfl
      exact Or.inr ⟨rfl, rfl⟩
  refine .of_lt (fun a b => c (f a) (f b) = some .lt ∨ f a = f b ∧ g a < g b) ?_ ?_ hlt hgt heq
  · rintro a (h | ⟨-, h⟩)
    · exact hc.irrefl _ h
    · exact lt_irrefl _ h
  · rintro x y z (h | ⟨hf, hg⟩) (h' | ⟨hf', hg'⟩)
    · exact Or.inl (hc.trans _ _ _ h h')
    · exact Or.inl (hf' ▸ h)
    · exact Or.inl (hf ▸ h')
    · exact Or.inr ⟨hf.trans hf', hg.trans hg'⟩

/-- `g` is one of `xs`, and every other one is below it. -/
structure GreatestOf (cmp : α → α → Option Ordering) (g : α) (xs : List α) : Prop where
  mem : g ∈ xs
  le : ∀ x ∈ xs, x = g ∨ cmp x g = some .lt

theorem GreatestOf.keep {g x : α} {xs : List α} (h : GreatestOf cmp g xs)
    (hx : x = g ∨ cmp x g = some .lt) : GreatestOf cmp g (xs ++ [x]) := by
  refine ⟨List.mem_append_left _ h.mem, fun y hy => ?_⟩
  rcases List.mem_append.1 hy with hy | hy
  · exact h.le y hy
  · rw [List.mem_singleton.1 hy]
    exact hx

/-- What is comparable to the greatest and not below it is greater than all. -/
theorem StrictCmp.greatestOf_replace (hc : StrictCmp cmp) {g x : α} {xs : List α}
    (h : GreatestOf cmp g xs) (hx : ¬ (x = g ∨ cmp x g = some .lt)) (hcomp : cmp x g ≠ none) :
    GreatestOf cmp x (xs ++ [x]) := by
  have hlt : cmp g x = some .lt := by
    obtain ⟨o, ho⟩ := Option.ne_none_iff_exists'.1 hcomp
    rw [← hc.gt_iff, ho]
    cases o with
    | lt => exact absurd (Or.inr ho) hx
    | eq => exact absurd (Or.inl ((hc.eq_iff x g).1 ho)) hx
    | gt => rfl
  refine ⟨by simp, fun y hy => ?_⟩
  rcases List.mem_append.1 hy with hy | hy
  · rcases h.le y hy with rfl | hlt'
    · exact Or.inr hlt
    · exact Or.inr (hc.trans _ _ _ hlt' hlt)
  · exact Or.inl (List.mem_singleton.1 hy)

end StrictCmp

end Lib
