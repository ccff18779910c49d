import Mathlib.Tactic

/-! The running processes with their groups, and which of them `kill` addresses. -/

namespace UnixProgramming.Library

structure Processes where
  pids : Finset ℤ
  group : ℤ → ℤ
  self : ℤ
  positive : ∀ p ∈ pids, 0 < p
  running : self ∈ pids

namespace Processes

variable (t : Processes)

def addressed (pid : ℤ) : Finset ℤ :=
  if 0 < pid then t.pids.filter (· = pid)
  else if pid = 0 then t.pids.filter fun p => t.group p = t.group t.self
  else if pid = -1 then t.pids.filter fun p => p ≠ 1 ∧ p ≠ t.self
  else t.pids.filter fun p => t.group p = -pid

variable {t} {p pid : ℤ}

lemma mem_addressed (h : 0 < pid) : p ∈ t.addressed pid ↔ p ∈ t.pids ∧ p = pid := by
  rw [addressed, if_pos h, Finset.mem_filter]

end Processes

end UnixProgramming.Library
