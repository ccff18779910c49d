import Mathlib.Tactic

/-! Integers of 32 bits: what is left of a value that is stored into an `int`. -/

namespace UnixProgramming.Library

def INT_MAX : ℤ :=
  2 ^ 31 - 1

def int (x : ℤ) : ℤ :=
  Int.bmod x (2 ^ 32)

variable {x y : ℤ}

lemma int_eq (h : -(2 ^ 31) ≤ x) (h' : x ≤ INT_MAX) : int x = x := by
  simp only [INT_MAX] at h'
  simp only [int, Int.bmod]
  omega

lemma int_range : -(2 ^ 31) ≤ int x ∧ int x ≤ INT_MAX := by
  simp only [int, Int.bmod, INT_MAX]
  omega

lemma int_eq_iff : int x = x ↔ -(2 ^ 31) ≤ x ∧ x ≤ INT_MAX := by
  constructor
  · intro h
    rw [← h]
    exact int_range
  · rintro ⟨h, h'⟩
    exact int_eq h h'

lemma int_add : int (int x + y) = int (x + y) := by
  simp only [int, Int.bmod]
  omega

lemma int_of_nonneg (h : 0 ≤ x) (h' : x ≤ INT_MAX) : int x = x :=
  int_eq (Int.le_trans (by decide) h) h'

lemma int_halfway (h : 0 < int x) : int (x - 2 ^ 31) ≤ 0 := by
  simp only [int, Int.bmod] at *
  omega

end UnixProgramming.Library
