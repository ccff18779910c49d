import UnixProgramming.Polling.Model

/-! What every step keeps: who holds the mutex, how far the producers are, and which units
have been produced and consumed. -/

namespace UnixProgramming.Polling

open Library Library.Transition

variable {n : ℕ} {cnt : Fin n → ℤ} {s s' : State n} {i k : Fin n} {p : Producer}

def State.produced (s : State n) : ℕ :=
  ∑ i, (s.producer i).performed

def partialSum (cnt : Fin n → ℤ) (j : ℕ) : ℤ :=
  ∑ i : Fin n, if (i : ℕ) < j then cnt i else 0

lemma partialSum_succ {j : ℕ} (h : j < n) :
    partialSum cnt (j + 1) = partialSum cnt j + cnt ⟨j, h⟩ := by
  have hsplit : ∀ i : Fin n, (if (i : ℕ) < j + 1 then cnt i else 0) =
      (if (i : ℕ) < j then cnt i else 0) + if i = ⟨j, h⟩ then cnt i else 0 := by
    intro i
    have heq : i = ⟨j, h⟩ ↔ (i : ℕ) = j := Fin.ext_iff
    simp only [heq]
    split_ifs <;> omega
  rw [partialSum, Finset.sum_congr rfl fun i _ => hsplit i, Finset.sum_add_distrib]
  simp [partialSum]

lemma partialSum_all : partialSum cnt n = ∑ i, cnt i := by
  apply Finset.sum_congr rfl
  intro i _
  rw [if_pos i.isLt]

lemma produced_update {g : Fin n → Producer} :
    (∑ k, (Function.update g i p k).performed) + (g i).performed =
      (∑ k, (g k).performed) + p.performed := by
  have hother : ∀ k ∈ Finset.univ.erase i,
      (Function.update g i p k).performed = (g k).performed := by
    intro k hk
    rw [Function.update_of_ne (Finset.ne_of_mem_erase hk)]
  have hsplit : ∀ f : Fin n → Producer, ∑ k, (f k).performed =
      (∑ k ∈ Finset.univ.erase i, (f k).performed) + (f i).performed := by
    intro f
    rw [Finset.sum_erase_add _ _ (Finset.mem_univ i)]
  rw [hsplit (Function.update g i p), hsplit g, Finset.sum_congr rfl hother, Function.update_self]
  omega

lemma produced_same {g : Fin n → Producer} (h : p.performed = (g i).performed) :
    ∑ k, (Function.update g i p k).performed = ∑ k, (g k).performed := by
  have hsum := produced_update (g := g) (i := i) (p := p)
  omega

section Cases

lemma createStep_cases (he : createStep cnt s = some s') :
    (∃ j, ∃ h : j < n, s.main = .create j ∧ s' = { s with
      totalRequired := int (s.totalRequired + cnt ⟨j, h⟩)
      producer := Function.update s.producer ⟨j, h⟩ ⟨.test, 0⟩
      main := .create (j + 1) }) ∨
    ∃ j, n ≤ j ∧ s.main = .create j ∧ s' = { s with main := .lock } := by
  simp only [createStep] at he
  split at he
  · next j hj =>
    split_ifs at he with h
    · exact Or.inl ⟨j, h, hj, (Option.some.inj he).symm⟩
    · exact Or.inr ⟨j, Nat.le_of_not_lt h, hj, (Option.some.inj he).symm⟩
  · cases he

lemma lockStep_cases (he : lockStep s = some s') :
    s.main = .lock ∧ ∃ m, s.mtx.lock none = some m ∧ s' = { s with mtx := m, main := .drain } := by
  simp only [lockStep] at he
  split_ifs at he with h
  obtain ⟨m, hm, rfl⟩ := Option.map_eq_some_iff.mp he
  exact ⟨h, m, hm, rfl⟩

lemma consumeStep_cases (he : consumeStep s = some s') :
    s.main = .drain ∧ 0 < s.avail ∧ s' = { s with
      numConsumed := int (s.numConsumed + 1)
      avail := int (s.avail - 1)
      done := int (s.numConsumed + 1) ≥ s.totalRequired } := by
  simp only [consumeStep] at he
  split_ifs at he with h
  exact ⟨h.1, h.2, (Option.some.inj he).symm⟩

lemma unlockStep_cases (he : unlockStep s = some s') :
    s.main = .drain ∧ s.avail ≤ 0 ∧
      ∃ m, s.mtx.unlock none = some m ∧ s' = { s with mtx := m, main := .test } := by
  simp only [unlockStep] at he
  split_ifs at he with h
  obtain ⟨m, hm, rfl⟩ := Option.map_eq_some_iff.mp he
  exact ⟨h.1, Int.not_lt.mp h.2, m, hm, rfl⟩

lemma testStep_cases (he : testStep s = some s') :
    s.main = .test ∧ (s.done = true ∧ s' = { s with main := .left } ∨
      s.done = false ∧ s' = { s with main := .lock }) := by
  simp only [testStep] at he
  split_ifs at he with h hdone
  · exact ⟨h, Or.inl ⟨hdone, (Option.some.inj he).symm⟩⟩
  · exact ⟨h, Or.inr ⟨Bool.eq_false_iff.mpr hdone, (Option.some.inj he).symm⟩⟩

lemma producerStep_cases (he : producerStep cnt s i = some s') :
    (∃ j, s.producer i = ⟨.test, j⟩ ∧
      s' = { s with
        producer := Function.update s.producer i
          ⟨if (j : ℤ) < cnt i then .lock else .returned, j⟩ }) ∨
    (∃ j m, s.producer i = ⟨.lock, j⟩ ∧ s.mtx.lock (some i) = some m ∧
      s' = { s with mtx := m, producer := Function.update s.producer i ⟨.add, j⟩ }) ∨
    (∃ j, s.producer i = ⟨.add, j⟩ ∧
      s' = { s with
        avail := int (s.avail + 1)
        producer := Function.update s.producer i ⟨.unlock, j⟩ }) ∨
    ∃ j m, s.producer i = ⟨.unlock, j⟩ ∧ s.mtx.unlock (some i) = some m ∧
      s' = { s with mtx := m, producer := Function.update s.producer i ⟨.test, j + 1⟩ } := by
  simp only [producerStep] at he
  split at he
  · next j hj => exact Or.inl ⟨j, hj, (Option.some.inj he).symm⟩
  · next j hj =>
    obtain ⟨m, hm, rfl⟩ := Option.map_eq_some_iff.mp he
    exact Or.inr (Or.inl ⟨j, m, hj, hm, rfl⟩)
  · next j hj => exact Or.inr (Or.inr (Or.inl ⟨j, hj, (Option.some.inj he).symm⟩))
  · next j hj =>
    obtain ⟨m, hm, rfl⟩ := Option.map_eq_some_iff.mp he
    exact Or.inr (Or.inr (Or.inr ⟨j, m, hj, hm, rfl⟩))
  · cases he
  · cases he

end Cases

section Ledger

def Producer.Sound (c : ℤ) (p : Producer) : Prop :=
  match p.pc with
  | .absent => p.j = 0
  | .test => p.j ≤ c.toNat
  | .lock | .add | .unlock => p.j < c.toNat
  | .returned => p.j = c.toNat

lemma Producer.Sound.performed_le {c : ℤ} (h : p.Sound c) : p.performed ≤ c.toNat := by
  obtain ⟨pc, j⟩ := p
  cases pc <;> simp_all [Producer.Sound, Producer.performed] <;> omega

def Producer.Holding (p : Producer) : Prop :=
  p.pc = .add ∨ p.pc = .unlock

structure Ledger (cnt : Fin n → ℤ) (s : State n) : Prop where
  idle : s.mtx.blocked = ∅ ∧ s.mtx.woken = ∅
  main : s.mtx.owner = some none ↔ s.main = .drain
  holder : ∀ i, s.mtx.owner = some (some i) ↔ (s.producer i).Holding
  sound : ∀ i, (s.producer i).Sound (cnt i)
  absent : ∀ i, (s.producer i).pc = .absent ↔ ∃ j, s.main = .create j ∧ j ≤ i
  creating : ∀ j, s.main = .create j → j ≤ n ∧ s.totalRequired = int (partialSum cnt j) ∧
    s.numConsumed = 0 ∧ s.done = false
  created : (∀ j, s.main ≠ .create j) → s.totalRequired = target cnt
  polling : s.main = .lock → s.done = false
  left : s.main = .left → s.done = true

lemma start_ledger : Ledger cnt (start n) where
  idle := ⟨rfl, rfl⟩
  main := by simp [start]
  holder i := by simp [start, Producer.Holding]
  sound i := rfl
  absent i := by simp [start]
  creating j hj := by
    obtain rfl : 0 = j := by simpa [start] using hj
    refine ⟨n.zero_le, ?_, rfl, rfl⟩
    simp only [partialSum, Nat.not_lt_zero, if_false, Finset.sum_const_zero]
    rfl
  created h := absurd rfl (h 0)
  polling h := by cases h
  left h := by cases h

lemma create_ledger (h : Ledger cnt s) (he : createStep cnt s = some s') : Ledger cnt s' := by
  rcases createStep_cases he with ⟨j, hj, hm, rfl⟩ | ⟨j, hj, hm, rfl⟩
  · obtain ⟨-, htotal, hconsumed, hdone⟩ := h.creating j hm
    have habsent : (s.producer ⟨j, hj⟩).pc = .absent := (h.absent _).mpr ⟨j, hm, le_rfl⟩
    refine ⟨h.idle, ?_, fun i => ?_, fun i => ?_, fun i => ?_, fun k hk => ?_, fun hk => ?_,
      nofun, nofun⟩
    · rw [h.main, hm]
      simp
    · rw [h.holder i]
      by_cases hi : i = ⟨j, hj⟩
      · simp [hi, Producer.Holding, habsent]
      · simp [hi]
    · by_cases hi : i = ⟨j, hj⟩
      · simp [hi, Producer.Sound]
      · simpa [hi] using h.sound i
    · by_cases hi : i = ⟨j, hj⟩
      · simp [hi]
      · have hne : (i : ℕ) ≠ j := fun heq => hi (Fin.ext heq)
        simp only [Function.update_of_ne hi, h.absent i, hm,
          MainPc.create.injEq, exists_eq_left']
        omega
    · obtain rfl : j + 1 = k := by simpa using hk
      refine ⟨hj, ?_, hconsumed, hdone⟩
      rw [partialSum_succ hj, htotal, int_add]
    · exact absurd rfl (hk (j + 1))
  · obtain ⟨hle, htotal, -, hdone⟩ := h.creating j hm
    obtain rfl : j = n := le_antisymm hle hj
    refine ⟨h.idle, ?_, h.holder, h.sound, fun i => ?_, nofun, fun _ => ?_, fun _ => hdone, nofun⟩
    · rw [h.main, hm]
      simp
    · rw [h.absent i, hm]
      simp
    · rw [htotal, partialSum_all, target]

lemma lock_ledger (h : Ledger cnt s) (he : lockStep s = some s') : Ledger cnt s' := by
  obtain ⟨hm, m, hlock, rfl⟩ := lockStep_cases he
  obtain ⟨⟨hfree, -⟩, howner, hb, hw⟩ := Monitor.lock_eq_some.mp hlock
  refine ⟨⟨hb.trans h.idle.1, hw.trans h.idle.2⟩, by simp [howner], fun i => ?_, h.sound,
    fun i => ?_, nofun, fun _ => h.created (by simp [hm]), nofun, nofun⟩
  · rw [howner, ← h.holder i, hfree]
    simp
  · rw [h.absent i, hm]
    simp

lemma consume_ledger (h : Ledger cnt s) (he : consumeStep s = some s') : Ledger cnt s' := by
  obtain ⟨hm, -, rfl⟩ := consumeStep_cases he
  refine ⟨h.idle, h.main, h.holder, h.sound, h.absent, fun j hj => ?_, h.created, fun hl => ?_,
    fun hl => ?_⟩
  · cases hm.symm.trans hj
  · cases hm.symm.trans hl
  · cases hm.symm.trans hl

lemma unlock_ledger (h : Ledger cnt s) (he : unlockStep s = some s') : Ledger cnt s' := by
  obtain ⟨hm, -, m, hunlock, rfl⟩ := unlockStep_cases he
  obtain ⟨howner, hfree, hb, hw⟩ := Monitor.unlock_eq_some.mp hunlock
  refine ⟨⟨hb.trans h.idle.1, hw.trans h.idle.2⟩, by simp [hfree], fun i => ?_, h.sound,
    fun i => ?_, nofun, fun _ => h.created (by simp [hm]), nofun, nofun⟩
  · rw [hfree, ← h.holder i, howner]
    simp
  · rw [h.absent i, hm]
    simp

lemma test_ledger (h : Ledger cnt s) (he : testStep s = some s') : Ledger cnt s' := by
  obtain ⟨hm, ⟨hdone, rfl⟩ | ⟨hdone, rfl⟩⟩ := testStep_cases he
  · refine ⟨h.idle, ?_, h.holder, h.sound, fun i => ?_, nofun,
      fun _ => h.created (by simp [hm]), nofun, fun _ => hdone⟩
    · rw [h.main, hm]
      simp
    · rw [h.absent i, hm]
      simp
  · refine ⟨h.idle, ?_, h.holder, h.sound, fun i => ?_, nofun,
      fun _ => h.created (by simp [hm]), fun _ => hdone, nofun⟩
    · rw [h.main, hm]
      simp
    · rw [h.absent i, hm]
      simp

lemma Ledger.update (h : Ledger cnt s) {m : Monitor (Thread n)} {a : ℤ}
    (hidle : m.blocked = ∅ ∧ m.woken = ∅)
    (hmain : m.owner = some none ↔ s.mtx.owner = some none)
    (hself : m.owner = some (some i) ↔ p.Holding)
    (hother : ∀ k, k ≠ i → (m.owner = some (some k) ↔ s.mtx.owner = some (some k)))
    (hsound : p.Sound (cnt i)) (hpc : p.pc = .absent ↔ (s.producer i).pc = .absent) :
    Ledger cnt { s with mtx := m, avail := a, producer := Function.update s.producer i p } where
  idle := hidle
  main := hmain.trans h.main
  holder k := by
    by_cases hk : k = i
    · simpa [hk] using hself
    · simpa [hk] using (hother k hk).trans (h.holder k)
  sound k := by
    by_cases hk : k = i
    · simpa [hk] using hsound
    · simpa [hk] using h.sound k
  absent k := by
    by_cases hk : k = i
    · simpa [hk] using hpc.trans (h.absent i)
    · simpa [hk] using h.absent k
  creating := h.creating
  created := h.created
  polling := h.polling
  left := h.left

lemma producer_ledger (h : Ledger cnt s) (he : producerStep cnt s i = some s') :
    Ledger cnt s' := by
  have hsound := h.sound i
  have hholder := h.holder i
  rcases producerStep_cases he with ⟨j, hp, rfl⟩ | ⟨j, m, hp, hlock, rfl⟩ | ⟨j, hp, rfl⟩ |
    ⟨j, m, hp, hunlock, rfl⟩
  · rw [hp] at hsound hholder
    by_cases hj : (j : ℤ) < cnt i
    · rw [if_pos hj]
      refine h.update h.idle Iff.rfl ?_ (fun _ _ => Iff.rfl) ?_ (by simp [hp])
      · simpa [Producer.Holding] using hholder
      · change j < (cnt i).toNat
        omega
    · rw [if_neg hj]
      refine h.update h.idle Iff.rfl ?_ (fun _ _ => Iff.rfl) ?_ (by simp [hp])
      · simpa [Producer.Holding] using hholder
      · change j ≤ (cnt i).toNat at hsound
        change j = (cnt i).toNat
        omega
  · obtain ⟨⟨hfree, -⟩, howner, hb, hw⟩ := Monitor.lock_eq_some.mp hlock
    rw [hp] at hsound
    refine h.update ⟨hb.trans h.idle.1, hw.trans h.idle.2⟩ ?_ ?_ ?_ hsound (by simp [hp])
    · simp [howner, hfree]
    · simp [howner, Producer.Holding]
    · intro k hk
      simp [howner, hfree, Ne.symm hk]
  · rw [hp] at hsound hholder
    refine h.update h.idle Iff.rfl ?_ (fun _ _ => Iff.rfl) hsound (by simp [hp])
    simpa [Producer.Holding] using hholder
  · obtain ⟨howner, hfree, hb, hw⟩ := Monitor.unlock_eq_some.mp hunlock
    rw [hp] at hsound
    refine h.update ⟨hb.trans h.idle.1, hw.trans h.idle.2⟩ ?_ ?_ ?_ hsound (by simp [hp])
    · simp [howner, hfree]
    · simp [hfree, Producer.Holding]
    · intro k hk
      simp [howner, hfree, Ne.symm hk]

lemma ledger_inductive (cnt : Fin n → ℤ) : (system cnt).Inductive (Ledger cnt) where
  initial := by
    rintro _ rfl
    exact start_ledger
  step s l s' h he := by
    cases l with
    | create => exact create_ledger h he
    | lock => exact lock_ledger h he
    | consume => exact consume_ledger h he
    | unlock => exact unlock_ledger h he
    | test => exact test_ledger h he
    | producer i =>
      simp only [system, step] at he
      split_ifs at he
      exact producer_ledger h he

end Ledger

section Stock

lemma Ledger.produced_le (h : Ledger cnt s) : s.produced ≤ units cnt :=
  Finset.sum_le_sum fun i _ => (h.sound i).performed_le

/-- The counters never wrap when all units fit into an `int`, nor when main needs no more
than one unit, since it then polls only while it has none. -/
structure Stock (cnt : Fin n → ℤ) (s : State n) : Prop where
  avail : s.avail = int (s.produced - s.numConsumed)
  consumed : 0 ≤ s.numConsumed ∧ s.numConsumed ≤ INT_MAX
  room : s.main = .drain → s.avail + s.numConsumed ≤ INT_MAX
  done : s.done = true ↔ 1 ≤ s.numConsumed ∧ target cnt ≤ s.numConsumed
  behind : (units cnt : ℤ) ≤ INT_MAX → s.numConsumed ≤ s.produced

variable {q : ℕ}

lemma start_stock : Stock cnt (start n) where
  avail := by
    have hzero : (start n).produced = 0 := Finset.sum_eq_zero fun _ _ => rfl
    rw [hzero]
    rfl
  consumed := by simp [start, INT_MAX]
  room := nofun
  done := by simp [start]
  behind _ := Int.natCast_nonneg _

lemma Stock.avail_eq (h : Stock cnt s) (hl : Ledger cnt s) (hfit : (units cnt : ℤ) ≤ INT_MAX) :
    s.avail = s.produced - s.numConsumed := by
  have hle := hl.produced_le
  have hbehind := h.behind hfit
  have hpos := h.consumed.1
  rw [h.avail, int_of_nonneg (by omega) (by omega)]

lemma Stock.frame (h : Stock cnt s) (hp : s'.produced = s.produced) (ha : s'.avail = s.avail)
    (hc : s'.numConsumed = s.numConsumed) (hd : s'.done = s.done)
    (hr : s'.main = .drain → s.avail + s.numConsumed ≤ INT_MAX) : Stock cnt s' where
  avail := by rw [ha, hp, hc, h.avail]
  consumed := hc ▸ h.consumed
  room hm := by
    rw [ha, hc]
    exact hr hm
  done := by rw [hd, hc, h.done]
  behind hfit := by rw [hc, hp]; exact h.behind hfit

lemma create_stock (h : Stock cnt s) (hl : Ledger cnt s) (he : createStep cnt s = some s') :
    Stock cnt s' := by
  rcases createStep_cases he with ⟨j, hj, hm, rfl⟩ | ⟨j, -, hm, rfl⟩
  · refine h.frame ?_ rfl rfl rfl nofun
    have habsent : (s.producer ⟨j, hj⟩).pc = .absent := (hl.absent _).mpr ⟨j, hm, le_rfl⟩
    have hsound := hl.sound ⟨j, hj⟩
    have hnone : (s.producer ⟨j, hj⟩).performed = 0 := by
      have hj0 : (s.producer ⟨j, hj⟩).j = 0 := by simpa [Producer.Sound, habsent] using hsound
      simp [Producer.performed, habsent, hj0]
    have hsum := produced_update (g := s.producer) (i := ⟨j, hj⟩) (p := ⟨.test, 0⟩)
    rw [hnone] at hsum
    exact hsum
  · exact h.frame rfl rfl rfl rfl nofun

lemma lock_stock (hroom : (units cnt : ℤ) ≤ INT_MAX ∨ target cnt ≤ 1) (h : Stock cnt s)
    (hl : Ledger cnt s) (he : lockStep s = some s') : Stock cnt s' := by
  obtain ⟨hm, m, -, rfl⟩ := lockStep_cases he
  refine h.frame rfl rfl rfl rfl fun _ => ?_
  cases hroom with
  | inl hfit =>
    have hle := hl.produced_le
    have havail := h.avail_eq hl hfit
    omega
  | inr hsmall =>
    have hnot : ¬ (1 ≤ s.numConsumed ∧ target cnt ≤ s.numConsumed) := by
      rw [← h.done, hl.polling hm]
      exact Bool.false_ne_true
    have hmax : s.avail ≤ INT_MAX := by
      rw [h.avail]
      exact int_range.2
    have hpos := h.consumed.1
    omega

lemma consume_stock (h : Stock cnt s) (hl : Ledger cnt s) (he : consumeStep s = some s') :
    Stock cnt s' := by
  obtain ⟨hm, hpos, rfl⟩ := consumeStep_cases he
  have hroom := h.room hm
  have hconsumed := h.consumed.1
  have hnext : int (s.numConsumed + 1) = s.numConsumed + 1 := int_of_nonneg (by omega) (by omega)
  have htotal : s.totalRequired = target cnt := hl.created (by simp [hm])
  refine ⟨?_, ?_, fun _ => ?_, ?_, fun hfit => ?_⟩
  · change int (s.avail - 1) = int (s.produced - int (s.numConsumed + 1))
    rw [h.avail, hnext, sub_eq_add_neg, int_add]
    congr 1
    omega
  · change 0 ≤ int (s.numConsumed + 1) ∧ int (s.numConsumed + 1) ≤ INT_MAX
    omega
  · change int (s.avail - 1) + int (s.numConsumed + 1) ≤ INT_MAX
    rw [hnext, int_of_nonneg (by omega) (by omega)]
    omega
  · simp only [hnext, htotal, decide_eq_true_eq]
    omega
  · have havail := h.avail_eq hl hfit
    change int (s.numConsumed + 1) ≤ s.produced
    omega

lemma producer_stock (h : Stock cnt s) (hl : Ledger cnt s)
    (he : producerStep cnt s i = some s') : Stock cnt s' := by
  rcases producerStep_cases he with ⟨j, hp, rfl⟩ | ⟨j, m, hp, -, rfl⟩ | ⟨j, hp, rfl⟩ |
    ⟨j, m, hp, -, rfl⟩
  · refine h.frame (produced_same ?_) rfl rfl rfl h.room
    rw [hp]
    by_cases hj : (j : ℤ) < cnt i <;> simp [Producer.performed, hj]
  · refine h.frame (produced_same ?_) rfl rfl rfl h.room
    rw [hp]
    rfl
  · have hsum := produced_update (g := s.producer) (i := i) (p := ⟨.unlock, j⟩)
    have hold : (s.producer i).performed = j := by
      rw [hp]
      rfl
    have hone : (∑ k, (Function.update s.producer i ⟨.unlock, j⟩ k).performed) =
        s.produced + 1 := by
      rw [hold] at hsum
      simp only [Producer.performed, if_true] at hsum
      simp only [State.produced, Producer.performed]
      omega
    refine ⟨?_, h.consumed, fun hm => ?_, h.done, fun hfit => ?_⟩
    · change int (s.avail + 1) = int (((∑ k, _ : ℕ) : ℤ) - s.numConsumed)
      rw [hone, h.avail, int_add]
      congr 1
      push_cast
      omega
    · have howner := (hl.holder i).mpr (by rw [hp]; exact Or.inl rfl)
      cases howner.symm.trans (hl.main.mpr hm)
    · have hle := h.behind hfit
      change s.numConsumed ≤ ((∑ k, _ : ℕ) : ℤ)
      rw [hone]
      push_cast
      omega
  · refine h.frame (produced_same ?_) rfl rfl rfl h.room
    rw [hp]
    rfl

lemma stock_inductive (hroom : (units cnt : ℤ) ≤ INT_MAX ∨ target cnt ≤ 1) :
    (system cnt).Inductive fun s => Ledger cnt s ∧ Stock cnt s := by
  apply (ledger_inductive cnt).and
  · rintro _ rfl
    exact start_stock
  · intro s l s' hl _ h he
    cases l with
    | create => exact create_stock h hl he
    | lock => exact lock_stock hroom h hl he
    | consume => exact consume_stock h hl he
    | unlock =>
      obtain ⟨-, -, m, -, rfl⟩ := unlockStep_cases he
      exact h.frame rfl rfl rfl rfl nofun
    | test =>
      obtain ⟨-, ⟨-, rfl⟩ | ⟨-, rfl⟩⟩ := testStep_cases he
      · exact h.frame rfl rfl rfl rfl nofun
      · exact h.frame rfl rfl rfl rfl nofun
    | producer i =>
      simp only [system, step] at he
      split_ifs at he
      exact producer_stock h hl he

end Stock

end UnixProgramming.Polling
