import Mathlib.Logic.Function.Basic
import Mathlib.Data.Int.Notation
import Mathlib.Data.Finset.Insert

/-! Descriptor tables: what each open descriptor number denotes. Connections are
numbered in the order of the `accept` calls that return them. -/

namespace UnixProgramming.Library

inductive File
  | inherited
  | listener
  | connection (n : ℕ)
  deriving DecidableEq, Repr

@[ext] structure Descriptors where
  file : ℤ → Option File
  accepted : ℕ
  fresh : ∀ fd n, file fd = some (.connection n) → n < accepted
  single : ∀ fd fd' n, file fd = some (.connection n) → file fd' = some (.connection n) → fd = fd'

namespace Descriptors

def boot (lfd : ℤ) (inherited : Finset ℤ) : Descriptors where
  file fd := if fd = lfd then some .listener else if fd ∈ inherited then some .inherited else none
  accepted := 0
  fresh fd n h := by split_ifs at h <;> cases h
  single fd fd' n h _ := by split_ifs at h <;> cases h

def close (d : Descriptors) (fd : ℤ) : Descriptors where
  file := Function.update d.file fd none
  accepted := d.accepted
  fresh := by
    intro a n ha
    by_cases h : a = fd
    · simp [h] at ha
    · exact d.fresh a n (by simpa [h] using ha)
  single := by
    intro a b n ha hb
    by_cases h : a = fd
    · simp [h] at ha
    · by_cases h' : b = fd
      · simp [h'] at hb
      · exact d.single a b n (by simpa [h] using ha) (by simpa [h'] using hb)

/-- `accept` may return any descriptor number that is not open. -/
def accept (d : Descriptors) (fd : ℤ) : Option Descriptors :=
  if h : 0 ≤ fd ∧ d.file fd = none then
    some {
      file := Function.update d.file fd (some (.connection d.accepted))
      accepted := d.accepted + 1
      fresh := by
        intro a n ha
        by_cases hfd : a = fd
        · obtain rfl : d.accepted = n := by simpa [hfd] using ha
          exact Nat.lt_succ_self _
        · exact (d.fresh a n (by simpa [hfd] using ha)).trans (Nat.lt_succ_self _)
      single := by
        intro a b n ha hb
        by_cases hfd : a = fd <;> by_cases hfd' : b = fd
        · exact hfd.trans hfd'.symm
        · obtain rfl : d.accepted = n := by simpa [hfd] using ha
          exact absurd (d.fresh b _ (by simpa [hfd'] using hb)) (lt_irrefl _)
        · obtain rfl : d.accepted = n := by simpa [hfd'] using hb
          exact absurd (d.fresh a _ (by simpa [hfd] using ha)) (lt_irrefl _)
        · exact d.single a b n (by simpa [hfd] using ha) (by simpa [hfd'] using hb) }
  else none

variable {d d' : Descriptors} {fd fd' : ℤ}

lemma boot_connection {lfd : ℤ} {inherited : Finset ℤ} {n : ℕ} :
    (boot lfd inherited).file fd ≠ some (.connection n) := by
  intro h
  exact absurd ((boot lfd inherited).fresh fd n h) (Nat.not_lt_zero n)

@[simp] lemma close_file_self : (d.close fd).file fd = none := by
  simp [close]

lemma close_file_ne (h : fd' ≠ fd) : (d.close fd).file fd' = d.file fd' := by
  simp [close, h]

lemma accept_eq_some : d.accept fd = some d' ↔ (0 ≤ fd ∧ d.file fd = none) ∧
    d'.file = Function.update d.file fd (some (.connection d.accepted)) ∧
      d'.accepted = d.accepted + 1 := by
  simp only [accept]
  constructor
  · intro h
    split_ifs at h with hfd
    obtain rfl := Option.some.inj h
    exact ⟨hfd, rfl, rfl⟩
  · rintro ⟨hfd, hf, ha⟩
    rw [dif_pos hfd]
    exact congrArg some (Descriptors.ext hf.symm ha.symm)

lemma exists_accept (h₀ : 0 ≤ fd) (h : d.file fd = none) : ∃ d', d.accept fd = some d' :=
  ⟨_, dif_pos ⟨h₀, h⟩⟩

lemma accept_file_self (h : d.accept fd = some d') :
    d'.file fd = some (.connection d.accepted) := by
  rw [(accept_eq_some.mp h).2.1, Function.update_self]

lemma accept_file_ne (h : d.accept fd = some d') (hne : fd' ≠ fd) : d'.file fd' = d.file fd' := by
  rw [(accept_eq_some.mp h).2.1, Function.update_of_ne hne]

lemma accept_file_open {f : File} (h : d.accept fd = some d') (ho : d.file fd' = some f) :
    d'.file fd' = some f := by
  have hne : fd' ≠ fd := by
    rintro rfl
    simp [(accept_eq_some.mp h).1.2] at ho
  rw [accept_file_ne h hne, ho]

lemma accept_nonneg (h : d.accept fd = some d') : 0 ≤ fd :=
  (accept_eq_some.mp h).1.1

lemma accept_closed (h : d.accept fd = some d') : d.file fd = none :=
  (accept_eq_some.mp h).1.2

lemma accept_accepted (h : d.accept fd = some d') : d'.accepted = d.accepted + 1 :=
  (accept_eq_some.mp h).2.2

lemma close_accept (h : d.accept fd = some d') : (d'.close fd).file = d.file := by
  obtain ⟨⟨_, hn⟩, hf, _⟩ := accept_eq_some.mp h
  funext a
  by_cases ha : a = fd
  · rw [ha, close_file_self, hn]
  · rw [close_file_ne ha, hf, Function.update_of_ne ha]

end Descriptors

end UnixProgramming.Library
