/-
  Arithmetic of unsigned machine numbers of a fixed width, on natural numbers: an operation
  gives `none` where the machine's overflows or underflows.
-/
import Mathlib.Algebra.Group.Nat.Defs
import Mathlib.Data.Nat.Notation

namespace Lib

/-- Addition of two numbers of `w` bits. -/
def addChecked (w a b : ℕ) : Option ℕ := if a + b < 2 ^ w then some (a + b) else none

/-- Multiplication of two numbers of `w` bits. -/
def mulChecked (w a b : ℕ) : Option ℕ := if a * b < 2 ^ w then some (a * b) else none

/-- Subtraction of two numbers of any width. -/
def subChecked (a b : ℕ) : Option ℕ := if b ≤ a then some (a - b) else none

theorem addChecked_of_lt {w a b : ℕ} (h : a + b < 2 ^ w) : addChecked w a b = some (a + b) :=
  if_pos h

theorem addChecked_eq_none {w a b : ℕ} : addChecked w a b = none ↔ 2 ^ w ≤ a + b := by
  unfold addChecked
  split
  · simpa using Nat.not_le.2 ‹_›
  · simpa using Nat.not_lt.1 ‹_›

theorem mulChecked_of_lt {w a b : ℕ} (h : a * b < 2 ^ w) : mulChecked w a b = some (a * b) :=
  if_pos h

theorem subChecked_of_le {a b : ℕ} (h : b ≤ a) : subChecked a b = some (a - b) := if_pos h

end Lib
