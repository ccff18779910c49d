import UnixProgramming.Polling.Ledger

/-! When main may leave its loop, and that it does once the producers have returned. -/

namespace UnixProgramming.Polling

open Library Library.Transition

variable {n : ℕ} {cnt : Fin n → ℤ} {s s' t : State n} {l : Label n} {ls : List (Label n)}

structure WorkDone (cnt : Fin n → ℤ) (s : State n) : Prop where
  performed : ∀ i, (s.producer i).performed = (cnt i).toNat
  avail : s.avail = 0
  consumed : s.numConsumed = units cnt

def AllReturned (s : State n) : Prop :=
  ∀ i, (s.producer i).pc = .returned

/-- Main leaves its loop, and takes the mutex at most once before. -/
structure Leaves (cnt : Fin n → ℤ) (s : State n) : Prop where
  locks : ∀ ls t, (system cnt).Run s ls t → ls.count .lock ≤ 1
  left : ∃ ls t, (system cnt).Run s ls t ∧ t.main = .left

lemma AllReturned.idle (h : AllReturned s) {i : Fin n} :
    (system cnt).step s (.producer i) ≠ some s' := by
  intro he
  have hi := h i
  simp only [system, step] at he
  split_ifs at he
  rcases producerStep_cases he with ⟨j, hp, -⟩ | ⟨j, m, hp, -⟩ | ⟨j, hp, -⟩ | ⟨j, m, hp, -⟩ <;>
    rw [hp] at hi <;> cases hi

lemma left_workDone (hcnt : units cnt ≤ 1 ∨ (units cnt : ℤ) ≤ target cnt) (hl : Ledger cnt s)
    (h : Stock cnt s) (hm : s.main = .left) : WorkDone cnt s := by
  have htarget : target cnt ≤ INT_MAX := int_range.2
  have hone : (1 : ℤ) ≤ INT_MAX := by decide
  have hfit : (units cnt : ℤ) ≤ INT_MAX := by omega
  have hdone := h.done.mp (hl.left hm)
  have hbehind := h.behind hfit
  have hle := hl.produced_le
  have havail := h.avail_eq hl hfit
  have hall : s.produced = units cnt := by omega
  refine ⟨fun i => ?_, by omega, by omega⟩
  have hsum := (Finset.sum_eq_sum_iff_of_le fun i _ => (hl.sound i).performed_le).mp hall
  exact hsum i (Finset.mem_univ i)

/-- The arguments with which main does not outlast its producers. -/
def Attainable (cnt : Fin n → ℤ) : Prop :=
  0 < int (units cnt) ∧ target cnt ≤ int (units cnt) ∧
    (int (units cnt) = units cnt ∨ target cnt ≤ 1)

instance (cnt : Fin n → ℤ) : Decidable (Attainable cnt) :=
  inferInstanceAs (Decidable (_ ∧ _))

lemma Attainable.room (hcnt : Attainable cnt) : (units cnt : ℤ) ≤ INT_MAX ∨ target cnt ≤ 1 := by
  apply hcnt.2.2.imp_left
  intro heq
  rw [← heq]
  exact int_range.2

section Leaving

structure Spent (cnt : Fin n → ℤ) (s : State n) : Prop where
  ledger : Ledger cnt s
  stock : Stock cnt s
  returned : AllReturned s

lemma Spent.produced (h : Spent cnt s) : s.produced = units cnt := by
  apply Finset.sum_congr rfl
  intro i _
  have hsound := h.ledger.sound i
  simp only [Producer.Sound, h.returned i] at hsound
  simp [Producer.performed, h.returned i, hsound]

lemma Spent.not_creating (h : Spent cnt s) {j : ℕ} (hm : s.main = .create j) : n ≤ j := by
  by_contra hlt
  have habsent := (h.ledger.absent ⟨j, Nat.lt_of_not_le hlt⟩).mpr ⟨j, hm, le_rfl⟩
  rw [h.returned] at habsent
  cases habsent

lemma step_returned (h : Spent cnt s) (he : (system cnt).step s l = some s') :
    AllReturned s' := by
  have hret := h.returned
  cases l with
  | create =>
    rcases createStep_cases he with ⟨j, hj, hm, -⟩ | ⟨j, -, -, rfl⟩
    · exact absurd (h.not_creating hm) (Nat.not_le_of_lt hj)
    · exact hret
  | lock =>
    obtain ⟨-, m, -, rfl⟩ := lockStep_cases he
    exact hret
  | consume =>
    obtain ⟨-, -, rfl⟩ := consumeStep_cases he
    exact hret
  | unlock =>
    obtain ⟨-, -, m, -, rfl⟩ := unlockStep_cases he
    exact hret
  | test =>
    obtain ⟨-, ⟨-, rfl⟩ | ⟨-, rfl⟩⟩ := testStep_cases he
    · exact hret
    · exact hret
  | producer i => exact absurd he hret.idle

def locksLeft (s : State n) : ℕ :=
  match s.main with
  | .create _ | .lock => 1
  | .test => if s.done then 0 else 1
  | .drain | .left => 0

variable (hcnt : Attainable cnt)
include hcnt

lemma Spent.step (h : Spent cnt s) (he : (system cnt).step s l = some s') : Spent cnt s' := by
  obtain ⟨hl, hs⟩ := (stock_inductive hcnt.room).step s l s' ⟨h.ledger, h.stock⟩ he
  exact ⟨hl, hs, step_returned h he⟩

lemma Spent.ripe (h : Spent cnt s) (hdone : s.done = false) :
    0 < s.avail ∧ target cnt ≤ s.avail + s.numConsumed := by
  obtain ⟨hpos, htarget, hcases⟩ := hcnt
  have hnot : ¬ (1 ≤ s.numConsumed ∧ target cnt ≤ s.numConsumed) := by
    rw [← h.stock.done, hdone]
    exact Bool.false_ne_true
  have hconsumed := h.stock.consumed.1
  have havail := h.stock.avail
  rw [h.produced] at havail
  cases hcases with
  | inl heq =>
    have hfit : (units cnt : ℤ) ≤ INT_MAX := by
      rw [← heq]
      exact int_range.2
    have hbehind := h.stock.behind hfit
    rw [h.produced] at hbehind
    rw [int_of_nonneg (by omega) (by omega)] at havail
    omega
  | inr hsmall =>
    have hzero : s.numConsumed = 0 := by omega
    rw [hzero, sub_zero] at havail
    omega

lemma locksLeft_step (h : Spent cnt s) (he : (system cnt).step s l = some s') :
    locksLeft s' + (if l = .lock then 1 else 0) ≤ locksLeft s := by
  cases l with
  | create =>
    rcases createStep_cases he with ⟨j, -, hm, rfl⟩ | ⟨j, -, hm, rfl⟩ <;> simp [locksLeft, hm]
  | lock =>
    obtain ⟨hm, m, -, rfl⟩ := lockStep_cases he
    simp [locksLeft, hm]
  | consume =>
    obtain ⟨hm, -, rfl⟩ := consumeStep_cases he
    simp [locksLeft, hm]
  | unlock =>
    obtain ⟨hm, havail, m, -, rfl⟩ := unlockStep_cases he
    have hdone : s.done = true := by
      by_contra hdone
      have hripe := h.ripe hcnt (Bool.eq_false_iff.mpr hdone)
      omega
    simp [locksLeft, hm, hdone]
  | test =>
    obtain ⟨hm, ⟨hdone, rfl⟩ | ⟨hdone, rfl⟩⟩ := testStep_cases he
    · simp [locksLeft]
    · simp [locksLeft, hm, hdone]
  | producer i => exact absurd he h.returned.idle

lemma count_locks (h : Spent cnt s) (hr : (system cnt).Run s ls t) :
    ls.count .lock + locksLeft t ≤ locksLeft s := by
  induction hr with
  | nil s => simp
  | @cons s u t l ls he _ ih =>
    have hstep := locksLeft_step hcnt h he
    have hrest := ih (h.step hcnt he)
    rw [List.count_cons]
    simp only [beq_iff_eq]
    omega

omit hcnt in
lemma run_of_step (he : (system cnt).step s l = some s')
    (h : ∃ ls t, (system cnt).Run s' ls t ∧ t.main = .left) :
    ∃ ls t, (system cnt).Run s ls t ∧ t.main = .left := by
  obtain ⟨ls, t, hr, ht⟩ := h
  exact ⟨l :: ls, t, .cons he hr, ht⟩

omit hcnt in
lemma done_leaves (hm : s.main = .test) (hdone : s.done = true) :
    ∃ ls t, (system cnt).Run s ls t ∧ t.main = .left := by
  have he : (system cnt).step s .test = some { s with main := .left } := by
    change testStep s = _
    simp [testStep, hm, hdone]
  exact run_of_step he ⟨[], _, .nil _, rfl⟩

lemma drain_leaves (h : Spent cnt s) (hm : s.main = .drain) :
    ∃ ls t, (system cnt).Run s ls t ∧ t.main = .left := by
  induction hk : s.avail.toNat generalizing s with
  | zero =>
    have hnone : ¬ s.avail > 0 := by omega
    have hdone : s.done = true := by
      by_contra hdone
      exact hnone (h.ripe hcnt (Bool.eq_false_iff.mpr hdone)).1
    obtain ⟨m, hunlock⟩ : ∃ m, s.mtx.unlock none = some m := by
      simp [Monitor.unlock, h.ledger.main.mpr hm]
    have he : (system cnt).step s .unlock = some { s with mtx := m, main := .test } := by
      change unlockStep s = _
      rw [unlockStep, if_pos ⟨hm, hnone⟩, hunlock, Option.map_some]
    exact run_of_step he (done_leaves rfl hdone)
  | succ k ih =>
    have hpos : s.avail > 0 := by omega
    have he : (system cnt).step s .consume = some _ := if_pos ⟨hm, hpos⟩
    have hroom := h.stock.room hm
    have hconsumed := h.stock.consumed.1
    have hless : int (s.avail - 1) = s.avail - 1 := int_of_nonneg (by omega) (by omega)
    apply run_of_step he
    apply ih (h.step hcnt he) hm
    change (int (s.avail - 1)).toNat = k
    omega

lemma lock_leaves (h : Spent cnt s) (hm : s.main = .lock) :
    ∃ ls t, (system cnt).Run s ls t ∧ t.main = .left := by
  have hfree : s.mtx.owner = none := by
    cases howner : s.mtx.owner with
    | none => rfl
    | some u =>
      cases u with
      | none =>
        have hdrain := h.ledger.main.mp howner
        cases hm.symm.trans hdrain
      | some i =>
        have hholding := (h.ledger.holder i).mp howner
        simp [Producer.Holding, h.returned i] at hholding
  obtain ⟨m, hlock⟩ : ∃ m, s.mtx.lock none = some m := by
    simp [Monitor.lock, hfree, h.ledger.idle]
  have he : (system cnt).step s .lock = some { s with mtx := m, main := .drain } := by
    change lockStep s = _
    rw [lockStep, if_pos hm, hlock, Option.map_some]
  exact run_of_step he (drain_leaves hcnt (h.step hcnt he) rfl)

lemma spent_leaves (h : Spent cnt s) : Leaves cnt s where
  locks ls t hr := by
    have hcount := count_locks hcnt h hr
    have hone : locksLeft s ≤ 1 := by
      cases hm : s.main with
      | test => cases hdone : s.done <;> simp [locksLeft, hm, hdone]
      | _ => simp [locksLeft, hm]
    omega
  left := by
    cases hm : s.main with
    | create j =>
      have hlast : ¬ j < n := Nat.not_lt.mpr (h.not_creating hm)
      have he : (system cnt).step s .create = some { s with main := .lock } := by
        change createStep cnt s = _
        simp [createStep, hm, hlast]
      exact run_of_step he (lock_leaves hcnt (h.step hcnt he) rfl)
    | lock => exact lock_leaves hcnt h hm
    | drain => exact drain_leaves hcnt h hm
    | test =>
      cases hdone : s.done with
      | true => exact done_leaves hm hdone
      | false =>
        have he : (system cnt).step s .test = some { s with main := .lock } := by
          change testStep s = _
          simp [testStep, hm, hdone]
        exact run_of_step he (lock_leaves hcnt (h.step hcnt he) rfl)
    | left => exact ⟨[], s, .nil s, hm⟩

end Leaving

end UnixProgramming.Polling
