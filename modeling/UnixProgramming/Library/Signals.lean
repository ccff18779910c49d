import Mathlib.Data.Finset.Insert
import Mathlib.Data.Finset.Erase
import Mathlib.Data.Finset.Lattice.Basic

/-! The standard signals of one process: a set of pending ones, where a signal sent
twice is pending once, and the mask of the blocked ones. -/

namespace UnixProgramming.Library

universe u

@[ext] structure Signals (α : Type u) where
  pending : Finset α
  blocked : Finset α

namespace Signals

variable {α : Type u}

def setMask (g : Signals α) (mask : Finset α) : Signals α :=
  { g with blocked := mask }

@[simp] lemma setMask_pending {g : Signals α} {mask : Finset α} :
    (g.setMask mask).pending = g.pending := rfl

@[simp] lemma setMask_blocked {g : Signals α} {mask : Finset α} :
    (g.setMask mask).blocked = mask := rfl

def Deliverable (g : Signals α) (x : α) : Prop :=
  x ∈ g.pending ∧ x ∉ g.blocked

variable [DecidableEq α]

instance (g : Signals α) (x : α) : Decidable (g.Deliverable x) :=
  inferInstanceAs (Decidable (_ ∧ _))

def send (g : Signals α) (x : α) : Signals α :=
  { g with pending := insert x g.pending }

def take (g : Signals α) (x : α) : Option (Signals α) :=
  if g.Deliverable x then some { g with pending := g.pending.erase x } else none

def due (g : Signals α) (x : α) : ℕ :=
  if x ∈ g.pending then 1 else 0

def enter (g : Signals α) (x : α) (mask : Finset α) : Signals α :=
  { g with blocked := g.blocked ∪ insert x mask }

variable {g g' : Signals α} {x y : α} {mask : Finset α}

@[simp] lemma mem_send : y ∈ (g.send x).pending ↔ y = x ∨ y ∈ g.pending := by
  simp [send]

@[simp] lemma enter_pending : (g.enter x mask).pending = g.pending := rfl

@[simp] lemma due_setMask : (g.setMask mask).due x = g.due x := rfl

@[simp] lemma due_enter : (g.enter y mask).due x = g.due x := rfl

lemma due_send : (g.send y).due x ≤ g.due x + if y = x then 1 else 0 := by
  by_cases hyx : y = x
  · simp [due, hyx]
  · simp [due, hyx, Ne.symm hyx]

lemma take_eq_some : g.take x = some g' ↔
    g.Deliverable x ∧ g'.pending = g.pending.erase x ∧ g'.blocked = g.blocked := by
  simp only [take]
  constructor
  · intro h
    split_ifs at h with hx
    obtain rfl := Option.some.inj h
    exact ⟨hx, rfl, rfl⟩
  · rintro ⟨hx, hp, hb⟩
    rw [if_pos hx]
    exact congrArg some (Signals.ext hp.symm hb.symm)

lemma take_pending (h : g.take x = some g') (hne : y ≠ x) :
    y ∈ g'.pending ↔ y ∈ g.pending := by
  rw [(take_eq_some.mp h).2.1, Finset.mem_erase]
  exact and_iff_right hne

lemma due_take (h : g.take y = some g') : (g'.due x + if y = x then 1 else 0) = g.due x := by
  obtain ⟨⟨hmem, -⟩, hp, -⟩ := take_eq_some.mp h
  by_cases hyx : y = x
  · subst hyx
    simp [due, hp, hmem]
  · simp [due, hp, hyx, Ne.symm hyx]

end Signals

end UnixProgramming.Library
