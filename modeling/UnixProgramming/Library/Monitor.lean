import Mathlib.Data.Finset.Insert
import Mathlib.Data.Finset.Erase
import Mathlib.Order.Disjoint
import Mathlib.Data.Finset.Disjoint

/-! A mutex with one condition variable, as POSIX threads use them. A waiting
thread is either blocked or has a wakeup delivered and contends for the mutex. -/

namespace UnixProgramming.Library

universe u

@[ext] structure Monitor (τ : Type u) where
  owner : Option τ
  blocked : Finset τ
  woken : Finset τ
  disjoint : ∀ t ∈ blocked, t ∉ woken
  awake : ∀ t, owner = some t → t ∉ blocked ∧ t ∉ woken

namespace Monitor

variable {τ : Type u}

def free : Monitor τ where
  owner := none
  blocked := ∅
  woken := ∅
  disjoint := by simp
  awake := by simp

@[simp] lemma free_owner : (free : Monitor τ).owner = none := rfl

@[simp] lemma free_blocked : (free : Monitor τ).blocked = ∅ := rfl

@[simp] lemma free_woken : (free : Monitor τ).woken = ∅ := rfl

variable [DecidableEq τ]

def lock (m : Monitor τ) (t : τ) : Option (Monitor τ) :=
  if h : m.owner = none ∧ t ∉ m.blocked ∧ t ∉ m.woken then
    some { m with
      owner := some t
      awake := by
        rintro u hu
        obtain rfl := Option.some.inj hu
        exact h.2 }
  else none

def unlock (m : Monitor τ) (t : τ) : Option (Monitor τ) :=
  if m.owner = some t then some { m with owner := none, awake := by simp } else none

/-- The mutex is released and the thread starts to block in one atomic step. -/
def wait (m : Monitor τ) (t : τ) : Option (Monitor τ) :=
  if h : m.owner = some t then
    some { m with
      owner := none
      blocked := insert t m.blocked
      disjoint := by
        intro u hu
        rcases Finset.mem_insert.mp hu with rfl | hu
        · exact (m.awake u h).2
        · exact m.disjoint u hu
      awake := by simp }
  else none

def wake (m : Monitor τ) (t : τ) : Option (Monitor τ) :=
  if h : t ∈ m.blocked then
    some { m with
      blocked := m.blocked.erase t
      woken := insert t m.woken
      disjoint := by
        intro u hu hw
        obtain ⟨hne, hb⟩ := Finset.mem_erase.mp hu
        exact m.disjoint u hb (Finset.mem_of_mem_insert_of_ne hw hne)
      awake := by
        intro u hu
        have hne : u ≠ t := fun he => (m.awake u hu).1 (he ▸ h)
        simpa [hne] using m.awake u hu }
  else none

/-- A signal wakes some blocked thread, and has no effect only when none is blocked. -/
def signal (m : Monitor τ) : Option τ → Option (Monitor τ)
  | some t => m.wake t
  | none => if m.blocked = ∅ then some m else none

def resume (m : Monitor τ) (t : τ) : Option (Monitor τ) :=
  if h : t ∈ m.woken ∧ m.owner = none then
    some { m with
      owner := some t
      woken := m.woken.erase t
      disjoint := fun u hu hw => m.disjoint u hu (Finset.mem_of_mem_erase hw)
      awake := by
        rintro u hu
        obtain rfl := Option.some.inj hu
        exact ⟨fun hb => m.disjoint _ hb h.1, by simp⟩ }
  else none

variable {m m' : Monitor τ} {t : τ}

omit [DecidableEq τ] in
lemma eq_some_iff {p : Prop} [Decidable p] {f : p → Monitor τ} :
    (if h : p then some (f h) else none) = some m' ↔
      ∃ h : p, m'.owner = (f h).owner ∧ m'.blocked = (f h).blocked ∧ m'.woken = (f h).woken := by
  constructor
  · intro he
    split_ifs at he with h
    obtain rfl := Option.some.inj he
    exact ⟨h, rfl, rfl, rfl⟩
  · rintro ⟨h, ho, hb, hw⟩
    rw [dif_pos h]
    exact congrArg some (Monitor.ext ho.symm hb.symm hw.symm)

@[simp] lemma lock_eq_some : m.lock t = some m' ↔
    (m.owner = none ∧ t ∉ m.blocked ∧ t ∉ m.woken) ∧
      m'.owner = some t ∧ m'.blocked = m.blocked ∧ m'.woken = m.woken :=
  eq_some_iff.trans ⟨fun ⟨h, he⟩ => ⟨h, he⟩, fun ⟨h, he⟩ => ⟨h, he⟩⟩

@[simp] lemma unlock_eq_some : m.unlock t = some m' ↔
    m.owner = some t ∧ m'.owner = none ∧ m'.blocked = m.blocked ∧ m'.woken = m.woken := by
  simp only [unlock, ← dite_eq_ite]
  exact eq_some_iff.trans ⟨fun ⟨h, he⟩ => ⟨h, he⟩, fun ⟨h, he⟩ => ⟨h, he⟩⟩

@[simp] lemma wait_eq_some : m.wait t = some m' ↔
    m.owner = some t ∧
      m'.owner = none ∧ m'.blocked = insert t m.blocked ∧ m'.woken = m.woken :=
  eq_some_iff.trans ⟨fun ⟨h, he⟩ => ⟨h, he⟩, fun ⟨h, he⟩ => ⟨h, he⟩⟩

@[simp] lemma wake_eq_some : m.wake t = some m' ↔
    t ∈ m.blocked ∧
      m'.owner = m.owner ∧ m'.blocked = m.blocked.erase t ∧ m'.woken = insert t m.woken :=
  eq_some_iff.trans ⟨fun ⟨h, he⟩ => ⟨h, he⟩, fun ⟨h, he⟩ => ⟨h, he⟩⟩

@[simp] lemma resume_eq_some : m.resume t = some m' ↔
    (t ∈ m.woken ∧ m.owner = none) ∧
      m'.owner = some t ∧ m'.blocked = m.blocked ∧ m'.woken = m.woken.erase t :=
  eq_some_iff.trans ⟨fun ⟨h, he⟩ => ⟨h, he⟩, fun ⟨h, he⟩ => ⟨h, he⟩⟩

@[simp] lemma signal_none : m.signal none = some m' ↔ m.blocked = ∅ ∧ m = m' := by
  simp [signal]

@[simp] lemma signal_some : m.signal (some t) = m.wake t := rfl

lemma lock_unlock (ho : m.owner = none) (hb : t ∉ m.blocked) (hw : t ∉ m.woken) :
    ∃ m', m.lock t = some m' ∧ m'.owner = some t ∧ m'.unlock t = some m := by
  obtain ⟨m', hm'⟩ : ∃ m', m.lock t = some m' := by simp [lock, ho, hb, hw]
  obtain ⟨_, ht, hb', hw'⟩ := lock_eq_some.mp hm'
  exact ⟨m', hm', ht, unlock_eq_some.mpr ⟨ht, ho, hb'.symm, hw'.symm⟩⟩

lemma exists_wait (ho : m.owner = some t) : ∃ m', m.wait t = some m' := by
  simp [wait, ho]

lemma signal_blocked {p : Option τ} (h : m.signal p = some m') : m'.blocked ⊆ m.blocked := by
  cases p with
  | none =>
    obtain ⟨_, rfl⟩ := signal_none.mp h
    exact Finset.Subset.refl _
  | some u =>
    obtain ⟨_, _, hb, _⟩ := wake_eq_some.mp (signal_some.symm.trans h)
    rw [hb]
    exact Finset.erase_subset u _

lemma signal_wakes {p : Option τ} (h : m.signal p = some m') (ht : m.blocked.Nonempty) :
    ∃ u ∈ m.blocked, u ∈ m'.woken := by
  cases p with
  | none =>
    obtain ⟨hb, _⟩ := signal_none.mp h
    simp [hb] at ht
  | some u =>
    obtain ⟨hu, _, _, hw⟩ := wake_eq_some.mp (signal_some.symm.trans h)
    exact ⟨u, hu, by simp [hw]⟩

lemma signal_owner {p : Option τ} (h : m.signal p = some m') : m'.owner = m.owner := by
  cases p with
  | none =>
    obtain ⟨_, rfl⟩ := signal_none.mp h
    rfl
  | some u =>
    obtain ⟨_, ho, _⟩ := wake_eq_some.mp (signal_some.symm.trans h)
    exact ho

lemma signal_unblocks {p : Option τ} (hb : ∀ u ∈ m.blocked, u = t)
    (h : m.signal p = some m') : t ∉ m'.blocked := by
  intro ht
  have hsub : m'.blocked ⊆ m.blocked := signal_blocked h
  obtain ⟨u, hu, hw⟩ := signal_wakes h ⟨t, hsub ht⟩
  obtain rfl := hb u hu
  exact m'.disjoint u ht hw

end Monitor

end UnixProgramming.Library
