import Mathlib.Data.Finset.Insert
import Mathlib.Data.Finset.Erase

/-! A readers-writer lock. A thread that has to wait has no step. -/

namespace UnixProgramming.Library

universe u

@[ext] structure RwLock (τ : Type u) where
  readers : Finset τ
  writer : Option τ
  exclusive : ∀ t, writer = some t → readers = ∅

namespace RwLock

variable {τ : Type u}

def free : RwLock τ where
  readers := ∅
  writer := none
  exclusive _ h := by cases h

@[simp] lemma free_readers : (free : RwLock τ).readers = ∅ := rfl

@[simp] lemma free_writer : (free : RwLock τ).writer = none := rfl

variable [DecidableEq τ]

def rdlock (l : RwLock τ) (t : τ) : Option (RwLock τ) :=
  if h : l.writer = none then
    some { l with
      readers := insert t l.readers
      exclusive := fun u hu => by rw [h] at hu; cases hu }
  else none

def wrlock (l : RwLock τ) (t : τ) : Option (RwLock τ) :=
  if h : l.writer = none ∧ l.readers = ∅ then
    some { l with writer := some t, exclusive := fun _ _ => h.2 }
  else none

def unlock (l : RwLock τ) (t : τ) : Option (RwLock τ) :=
  if l.writer = some t then some { l with writer := none, exclusive := fun _ h => by cases h }
  else if t ∈ l.readers then
    some { l with
      readers := l.readers.erase t
      exclusive := fun u hu => by simp [l.exclusive u hu] }
  else none

variable {l l' : RwLock τ} {t : τ}

@[simp] lemma rdlock_eq_some : l.rdlock t = some l' ↔
    l.writer = none ∧ l'.writer = none ∧ l'.readers = insert t l.readers := by
  simp only [rdlock, Option.dite_none_right_eq_some, Option.some.injEq]
  constructor
  · rintro ⟨h, rfl⟩
    exact ⟨h, h, rfl⟩
  · rintro ⟨h, hw, hr⟩
    exact ⟨h, RwLock.ext hr.symm (h.trans hw.symm)⟩

@[simp] lemma wrlock_eq_some : l.wrlock t = some l' ↔
    (l.writer = none ∧ l.readers = ∅) ∧ l'.writer = some t ∧ l'.readers = ∅ := by
  simp only [wrlock, Option.dite_none_right_eq_some, Option.some.injEq]
  constructor
  · rintro ⟨h, rfl⟩
    exact ⟨h, rfl, h.2⟩
  · rintro ⟨h, hw, hr⟩
    exact ⟨h, RwLock.ext (h.2.trans hr.symm) hw.symm⟩

lemma unlock_writer (h : l.writer = some t) : l.unlock t = some free := by
  rw [unlock, if_pos h]
  exact congrArg some (RwLock.ext (l.exclusive t h) rfl)

lemma unlock_reader (h : t ∈ l.readers) :
    ∃ l', l.unlock t = some l' ∧ l'.writer = none ∧ l'.readers = l.readers.erase t := by
  have hw : l.writer = none := by
    cases hw : l.writer with
    | none => rfl
    | some u => simp [l.exclusive u hw] at h
  refine ⟨{ readers := l.readers.erase t, writer := none, exclusive := fun _ h => by cases h },
    ?_, rfl, rfl⟩
  rw [unlock, if_neg (by simp [hw]), if_pos h]
  exact congrArg some (RwLock.ext rfl hw)

end RwLock

end UnixProgramming.Library
