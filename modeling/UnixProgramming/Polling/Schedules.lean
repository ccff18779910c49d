import UnixProgramming.Polling.Exit

/-! Schedules: main polls after any number of units, and which of them lead it astray. -/

namespace UnixProgramming.Polling

open Library Library.Transition

variable {n : ℕ} {cnt : Fin n → ℤ} {s s' t : State n} {l : Label n} {p q : ℕ} {a c x y : ℤ}

lemma reach (h : (system cnt).Reachable s) (he : (system cnt).step s l = some s') :
    (system cnt).Reachable s' :=
  h.reaches ⟨[l], .cons he (.nil s')⟩

/-- Main is about to lock the mutex, nobody holds it and the producers are between units. -/
structure Stand (cnt : Fin n → ℤ) (p : ℕ) (a c : ℤ) (s : State n) : Prop where
  reachable : (system cnt).Reachable s
  main : s.main = .lock
  free : s.mtx.owner = none
  resting : ∀ i, (s.producer i).pc = .test ∨ (s.producer i).pc = .returned
  produced : s.produced = p
  avail : s.avail = a
  consumed : s.numConsumed = c

lemma Stand.ledger (h : Stand cnt p a c s) : Ledger cnt s :=
  (ledger_inductive cnt).reachable h.reachable

lemma Stand.total (h : Stand cnt p a c s) : s.totalRequired = target cnt :=
  h.ledger.created (by simp [h.main])

section Creation

def created (cnt : Fin n → ℤ) (j : ℕ) : State n :=
  { start n with
    totalRequired := int (partialSum cnt j)
    main := .create j
    producer := fun i => if (i : ℕ) < j then ⟨.test, 0⟩ else ⟨.absent, 0⟩ }

lemma created_step {j : ℕ} (hj : j < n) :
    (system cnt).step (created cnt j) .create = some (created cnt (j + 1)) := by
  have hproducer : Function.update (created cnt j).producer ⟨j, hj⟩ ⟨.test, 0⟩ =
      (created cnt (j + 1)).producer := by
    funext i
    by_cases hi : i = ⟨j, hj⟩
    · simp [hi, created]
    · have hne : (i : ℕ) ≠ j := fun heq => hi (Fin.ext heq)
      have hlt : (i : ℕ) < j ↔ (i : ℕ) < j + 1 := by omega
      simp [Function.update_of_ne hi, created, hlt]
  have htotal : int ((created cnt j).totalRequired + cnt ⟨j, hj⟩) =
      (created cnt (j + 1)).totalRequired := by
    simp only [created]
    rw [int_add, partialSum_succ hj]
  change createStep cnt (created cnt j) = _
  simp only [createStep, created, dif_pos hj]
  simp only [created] at hproducer htotal
  rw [hproducer, htotal]

lemma created_reachable (j : ℕ) (hj : j ≤ n) : (system cnt).Reachable (created cnt j) := by
  induction j with
  | zero =>
    have hstart : created cnt 0 = start n := by
      have hsum : int (partialSum cnt 0) = 0 := by
        simp only [partialSum, Nat.not_lt_zero, if_false, Finset.sum_const_zero]
        rfl
      simp only [created, hsum, Nat.not_lt_zero, if_false]
      rfl
    rw [hstart]
    exact System.Reachable.initial rfl
  | succ j ih => exact reach (ih (Nat.le_of_succ_le hj)) (created_step hj)

lemma exists_stand (cnt : Fin n → ℤ) : ∃ s, Stand cnt 0 0 0 s := by
  have he : (system cnt).step (created cnt n) .create =
      some { created cnt n with main := .lock } := by
    change createStep cnt (created cnt n) = _
    simp [createStep, created]
  refine ⟨_, reach (created_reachable n le_rfl) he, rfl, rfl, fun i => ?_, ?_, rfl, rfl⟩
  · exact Or.inl (by simp [created])
  · apply Finset.sum_eq_zero
    intro i _
    simp [created, Producer.performed]

end Creation

section Units

variable {i : Fin n} {j : ℕ}

lemma producer_reach (h : (system cnt).Reachable s) (hm : s.main = .lock)
    (he : producerStep cnt s i = some s') : (system cnt).Reachable s' := by
  apply reach (l := .producer i) h
  change (if s.main = .left then none else producerStep cnt s i) = some s'
  rw [if_neg (by simp [hm]), he]

lemma unit_reachable (h : Stand cnt p a c s) (hp : s.producer i = ⟨.test, j⟩)
    (hj : (j : ℤ) < cnt i) : (system cnt).Reachable
      { s with
        avail := int (s.avail + 1)
        producer := Function.update s.producer i ⟨.test, j + 1⟩ } := by
  have hidle := h.ledger.idle
  obtain ⟨m, hlock, -, hunlock⟩ := Monitor.lock_unlock (t := some i) h.free
    (by simp [hidle]) (by simp [hidle])
  have htest : (system cnt).Reachable
      { s with producer := Function.update s.producer i ⟨.lock, j⟩ } := by
    apply producer_reach (i := i) h.reachable h.main
    simp [producerStep, hp, hj]
  have hadd : (system cnt).Reachable
      { s with mtx := m, producer := Function.update s.producer i ⟨.add, j⟩ } := by
    apply producer_reach (i := i) htest h.main
    simp [producerStep, hlock]
  have hunit : (system cnt).Reachable
      { s with
        mtx := m
        avail := int (s.avail + 1)
        producer := Function.update s.producer i ⟨.unlock, j⟩ } := by
    apply producer_reach (i := i) hadd h.main
    simp [producerStep]
  apply producer_reach (i := i) hunit h.main
  simp [producerStep, hunlock]

lemma produce_one (h : Stand cnt p a c s) (hp : p < units cnt) :
    ∃ s', Stand cnt (p + 1) (int (a + 1)) c s' := by
  have hl := h.ledger
  obtain ⟨i, hi⟩ : ∃ i, (s.producer i).performed < (cnt i).toNat := by
    by_contra hnone
    simp only [not_exists, Nat.not_lt] at hnone
    have hle : units cnt ≤ s.produced := Finset.sum_le_sum fun i _ => hnone i
    have hproduced := h.produced
    omega
  have hsound := hl.sound i
  obtain ⟨j, hj⟩ : ∃ j, s.producer i = ⟨.test, j⟩ := by
    refine ⟨(s.producer i).j, ?_⟩
    cases h.resting i with
    | inl htest => rw [← htest]
    | inr hret =>
      simp only [Producer.Sound, hret] at hsound
      simp [Producer.performed, hret, hsound] at hi
  rw [hj] at hi
  have hlt : (j : ℤ) < cnt i := by
    simp only [Producer.performed] at hi
    change j < _ at hi
    omega
  refine ⟨_, unit_reachable h hj hlt, h.main, h.free, fun k => ?_, ?_, ?_, h.consumed⟩
  · by_cases hk : k = i
    · simp [hk]
    · simpa [hk] using h.resting k
  · have hsum := produced_update (g := s.producer) (i := i) (p := ⟨.test, j + 1⟩)
    have hold : (s.producer i).performed = j := by
      rw [hj]
      rfl
    have hnew : (⟨.test, j + 1⟩ : Producer).performed = j + 1 := rfl
    have hproduced := h.produced
    simp only [State.produced] at hproduced ⊢
    omega
  · change int (s.avail + 1) = _
    rw [h.avail]

lemma produce (h : Stand cnt p (int x) c s) (hpq : p ≤ q) (hq : q ≤ units cnt) :
    ∃ s', Stand cnt q (int (x + (q - p))) c s' := by
  induction q, hpq using Nat.le_induction with
  | base => exact ⟨s, by simpa using h⟩
  | succ q hpq ih =>
    obtain ⟨s', hs'⟩ := ih (Nat.le_of_succ_le hq)
    have hone := produce_one hs' hq
    rw [int_add] at hone
    have heq : x + (q - p) + 1 = x + (((q + 1 : ℕ) : ℤ) - p) := by
      push_cast
      omega
    rwa [heq] at hone

lemma Stand.performed (h : Stand cnt (units cnt) a c s) (i : Fin n) :
    (s.producer i).performed = (cnt i).toNat := by
  have hle : ∀ i ∈ Finset.univ, (s.producer i).performed ≤ (cnt i).toNat :=
    fun i _ => (h.ledger.sound i).performed_le
  exact (Finset.sum_eq_sum_iff_of_le hle).mp h.produced i (Finset.mem_univ i)

lemma exists_returned (h : Stand cnt (units cnt) a c s) (F : Finset (Fin n)) :
    ∃ s', Stand cnt (units cnt) a c s' ∧ ∀ i ∈ F, (s'.producer i).pc = .returned := by
  induction F using Finset.induction_on with
  | empty => exact ⟨s, h, by simp⟩
  | insert i F _ ih =>
    obtain ⟨t, ht, hF⟩ := ih
    cases ht.resting i with
    | inr hret => exact ⟨t, ht, Finset.forall_mem_insert _ _ _ |>.mpr ⟨hret, hF⟩⟩
    | inl htest =>
      have hj : t.producer i = ⟨.test, (t.producer i).j⟩ := by rw [← htest]
      have hall := ht.performed i
      rw [hj] at hall
      change (t.producer i).j = (cnt i).toNat at hall
      have hend : ¬ ((t.producer i).j : ℤ) < cnt i := by omega
      have hreach : (system cnt).Reachable { t with
          producer := Function.update t.producer i ⟨.returned, (t.producer i).j⟩ } := by
        apply producer_reach (i := i) ht.reachable ht.main
        rw [producerStep, hj]
        simp only [if_neg hend]
      refine ⟨_, ⟨hreach, ht.main, ht.free, fun k => ?_, ?_, ht.avail, ht.consumed⟩, fun k hk => ?_⟩
      · by_cases hk : k = i
        · simp [hk]
        · simpa [hk] using ht.resting k
      · exact (produced_same (by rw [hj]; rfl)).trans ht.produced
      · by_cases hki : k = i
        · simp [hki]
        · have hkF : k ∈ F := (Finset.mem_insert.mp hk).resolve_left hki
          simpa [hki] using hF k hkF

end Units

section Rounds

lemma consume_reachable {k : ℕ} (h : (system cnt).Reachable s) (hm : s.main = .drain)
    (ha : s.avail = k + 1) (hfit : (k : ℤ) + 1 ≤ INT_MAX) (hc : s.numConsumed = int y) :
    (system cnt).Reachable { s with
      avail := k
      numConsumed := int (y + 1)
      done := decide (int (y + 1) ≥ s.totalRequired) } := by
  apply reach (l := .consume) h
  have hless : int (s.avail - 1) = k := by
    rw [ha, int_of_nonneg (by omega) (by omega)]
    omega
  change consumeStep s = _
  rw [consumeStep, if_pos ⟨hm, by omega⟩, hc, int_add, hless]

lemma drain_reachable (k : ℕ) (h : (system cnt).Reachable s) (hm : s.main = .drain)
    (ha : s.avail = k + 1) (hfit : (k : ℤ) + 1 ≤ INT_MAX) (hc : s.numConsumed = int y) :
    (system cnt).Reachable { s with
      avail := 0
      numConsumed := int (y + (k + 1))
      done := decide (int (y + (k + 1)) ≥ s.totalRequired) } := by
  induction k generalizing s y with
  | zero => simpa using consume_reachable h hm ha hfit hc
  | succ k ih =>
    have hnext := consume_reachable h hm ha hfit hc
    have hrest := ih (y := y + 1) hnext hm (by push_cast; rfl) (by push_cast at hfit; omega) rfl
    have heq : y + 1 + ((k : ℤ) + 1) = y + (((k + 1 : ℕ) : ℤ) + 1) := by
      push_cast
      omega
    rwa [heq] at hrest

lemma round_cases (h : Stand cnt p a (int y) s) (ha : 0 < a) (hfit : a ≤ INT_MAX) :
    (target cnt ≤ int (y + a) → ∃ s', (system cnt).Reachable s' ∧ s'.main = .left ∧
      s'.numConsumed = int (y + a)) ∧
    (int (y + a) < target cnt → ∃ s', Stand cnt p 0 (int (y + a)) s') := by
  have hidle := h.ledger.idle
  have htotal := h.total
  obtain ⟨k, hk⟩ : ∃ k : ℕ, a = k + 1 := ⟨(a - 1).toNat, by omega⟩
  obtain ⟨m, hlock, howner, hunlock⟩ := Monitor.lock_unlock (t := (none : Thread n)) h.free
    (by simp [hidle]) (by simp [hidle])
  have hdrain : (system cnt).Reachable { s with mtx := m, main := .drain } := by
    apply reach (l := .lock) h.reachable
    change lockStep s = _
    rw [lockStep, if_pos h.main, hlock, Option.map_some]
  have hdrained := drain_reachable k hdrain rfl (h.avail.trans hk) (hk ▸ hfit) h.consumed
  rw [← hk] at hdrained
  have htest : (system cnt).Reachable { s with
      avail := 0
      numConsumed := int (y + a)
      done := decide (int (y + a) ≥ s.totalRequired)
      main := .test } := by
    apply reach (l := .unlock) hdrained
    simp [system, step, unlockStep, hunlock]
  constructor
  · intro hle
    have hdone : decide (int (y + a) ≥ s.totalRequired) = true := by
      rw [htotal]
      exact decide_eq_true hle
    rw [hdone] at htest
    have hleft : (system cnt).Reachable { s with
        avail := 0
        numConsumed := int (y + a)
        done := true
        main := .left } := by
      apply reach (l := .test) htest
      simp [system, step, testStep]
    exact ⟨_, hleft, rfl, rfl⟩
  · intro hlt
    have hdone : decide (int (y + a) ≥ s.totalRequired) = false := by
      rw [htotal]
      exact decide_eq_false (Int.not_le.mpr hlt)
    rw [hdone] at htest
    have hpoll : (system cnt).Reachable { s with
        avail := 0
        numConsumed := int (y + a)
        done := false
        main := .lock } := by
      apply reach (l := .test) htest
      simp [system, step, testStep]
    exact ⟨_, hpoll, rfl, h.free, h.resting, h.produced, rfl, rfl⟩

end Rounds

section Stuck

structure Stuck (cnt : Fin n → ℤ) (s : State n) : Prop where
  returned : AllReturned s
  total : s.totalRequired = target cnt
  done : s.done = false
  main : s.main = .lock ∨ s.main = .drain ∨ s.main = .test
  short : s.avail ≤ 0 ∨ 0 ≤ s.numConsumed ∧ s.avail + s.numConsumed ≤ INT_MAX ∧
    s.avail + s.numConsumed < target cnt

lemma Stuck.step (h : Stuck cnt s) (he : (system cnt).step s l = some s') : Stuck cnt s' := by
  cases l with
  | create =>
    have hm := h.main
    rcases createStep_cases he with ⟨j, -, hj, -⟩ | ⟨j, -, hj, -⟩ <;> simp [hj] at hm
  | lock =>
    obtain ⟨-, m, -, rfl⟩ := lockStep_cases he
    exact ⟨h.returned, h.total, h.done, Or.inr (Or.inl rfl), h.short⟩
  | consume =>
    obtain ⟨hm, hpos, rfl⟩ := consumeStep_cases he
    obtain ⟨hconsumed, hroom, hlt⟩ := h.short.resolve_left (by omega)
    have hnext : int (s.numConsumed + 1) = s.numConsumed + 1 :=
      int_of_nonneg (by omega) (by omega)
    have hless : int (s.avail - 1) = s.avail - 1 := int_of_nonneg (by omega) (by omega)
    refine ⟨h.returned, h.total, ?_, h.main, Or.inr ?_⟩
    · simp only [hnext, h.total]
      exact decide_eq_false (by omega)
    · simp only [hnext, hless]
      omega
  | unlock =>
    obtain ⟨-, -, m, -, rfl⟩ := unlockStep_cases he
    exact ⟨h.returned, h.total, h.done, Or.inr (Or.inr rfl), h.short⟩
  | test =>
    obtain ⟨-, ⟨hdone, -⟩ | ⟨-, rfl⟩⟩ := testStep_cases he
    · cases h.done.symm.trans hdone
    · exact ⟨h.returned, h.total, h.done, Or.inl rfl, h.short⟩
  | producer i => exact absurd he h.returned.idle

lemma Stuck.not_leaves (h : Stuck cnt s) : ¬ Leaves cnt s := by
  intro hleaves
  obtain ⟨ls, t, hr, hleft⟩ := hleaves.left
  have ht : Stuck cnt t := by
    clear hleft hleaves
    induction hr with
    | nil => exact h
    | cons he _ ih => exact ih (h.step he)
  have hm := ht.main
  simp [hleft] at hm

lemma exists_stuck (h : Stand cnt (units cnt) a c s)
    (hshort : a ≤ 0 ∨ 0 ≤ c ∧ a + c ≤ INT_MAX ∧ a + c < target cnt) :
    ∃ s', (system cnt).Reachable s' ∧ AllReturned s' ∧ ¬ Leaves cnt s' := by
  obtain ⟨t, ht, hret⟩ := exists_returned h Finset.univ
  have hreturned : AllReturned t := fun i => hret i (Finset.mem_univ i)
  have hstuck : Stuck cnt t :=
    ⟨hreturned, ht.total, ht.ledger.polling ht.main, Or.inl ht.main, by
      rw [ht.avail, ht.consumed]
      exact hshort⟩
  exact ⟨t, ht.reachable, hreturned, hstuck.not_leaves⟩

end Stuck

section Verdicts

lemma early_exit (hmany : 1 < units cnt) (htarget : target cnt < units cnt) :
    ∃ s, (system cnt).Reachable s ∧ s.main = .left ∧ ¬ WorkDone cnt s := by
  have hmax : target cnt ≤ INT_MAX := int_range.2
  obtain ⟨m, hm⟩ : ∃ m : ℕ, (m : ℤ) = max 1 (target cnt) :=
    ⟨(max 1 (target cnt)).toNat, by omega⟩
  have hone : (1 : ℤ) ≤ INT_MAX := by decide
  obtain ⟨s, hs⟩ := exists_stand cnt
  obtain ⟨s', hs'⟩ := produce (x := 0) (q := m) hs (Nat.zero_le m) (by omega)
  have hint : int (0 + ((m : ℤ) - (0 : ℕ))) = m := by
    rw [int_of_nonneg (by omega) (by omega)]
    omega
  rw [hint] at hs'
  have hc : int (0 + (m : ℤ)) = m := by
    rw [int_of_nonneg (by omega) (by omega)]
    omega
  obtain ⟨t, ht, hleft, hconsumed⟩ := (round_cases (y := 0) hs' (by omega) (by omega)).1 (by omega)
  refine ⟨t, ht, hleft, fun h => ?_⟩
  have hall := h.consumed
  omega

theorem exits_done_iff (cnt : Fin n → ℤ) :
    (∀ s, (system cnt).Reachable s → s.main = .left → WorkDone cnt s) ↔
      units cnt ≤ 1 ∨ (units cnt : ℤ) ≤ target cnt := by
  constructor
  · intro h
    by_contra hcnt
    rw [not_or, Nat.not_le, Int.not_le] at hcnt
    obtain ⟨s, hs, hleft, hnot⟩ := early_exit hcnt.1 hcnt.2
    exact hnot (h s hs hleft)
  · intro hcnt s hs hleft
    have htarget : target cnt ≤ INT_MAX := int_range.2
    have hone : (1 : ℤ) ≤ INT_MAX := by decide
    have hfit : (units cnt : ℤ) ≤ INT_MAX := by omega
    obtain ⟨hl, hstock⟩ := (stock_inductive (Or.inl hfit)).reachable hs
    exact left_workDone hcnt hl hstock hleft

theorem exits_done_two :
    ∀ s, (system ![2, 1]).Reachable s → s.main = .left → WorkDone ![2, 1] s :=
  (exits_done_iff ![2, 1]).mpr (by decide)

theorem negative_count_exits_early :
    ∃ s, (system ![3, -2]).Reachable s ∧ s.main = .left ∧ ¬ WorkDone ![3, -2] s :=
  early_exit (by decide) (by decide)

/-- Main consumes one unit, then as many as make `numConsumed` wrap, and the units that are
left make `avail` wrap. -/
lemma wrapped_stand (hmany : INT_MAX < units cnt) (htarget : 1 < target cnt) :
    ∃ s c, Stand cnt (units cnt) (int (units cnt - 2 ^ 31)) c s := by
  simp only [INT_MAX] at hmany
  obtain ⟨s, hs⟩ := exists_stand cnt
  obtain ⟨s₁, h₁⟩ := produce (x := 0) (q := 1) hs (Nat.zero_le 1) (by omega)
  have ha₁ : int (0 + (((1 : ℕ) : ℤ) - (0 : ℕ))) = 1 := by decide
  rw [ha₁] at h₁
  have hc₁ : int (0 + 1) = 1 := by decide
  obtain ⟨s₂, h₂⟩ := (round_cases (y := 0) h₁ (by decide) (by decide)).2 (hc₁ ▸ htarget)
  rw [hc₁] at h₂
  obtain ⟨s₃, h₃⟩ := produce (x := 0) (q := 2 ^ 31) h₂ (by decide) (by omega)
  have ha₃ : int (0 + (((2 ^ 31 : ℕ) : ℤ) - (1 : ℕ))) = INT_MAX := by decide
  rw [ha₃] at h₃
  have hc₃ : int (1 + INT_MAX) = -2 ^ 31 := by decide
  have hround := (round_cases (y := 1) h₃ (by decide) le_rfl).2
  rw [hc₃] at hround
  obtain ⟨s₄, h₄⟩ := hround (by omega)
  obtain ⟨s₅, h₅⟩ := produce (x := 0) (q := units cnt) h₄ (by omega) le_rfl
  refine ⟨s₅, -2 ^ 31, ?_⟩
  have heq : (0 : ℤ) + (units cnt - (2 ^ 31 : ℕ)) = units cnt - 2 ^ 31 := by
    push_cast
    omega
  rwa [heq] at h₅

lemma outlasting (hcnt : ¬ Attainable cnt) :
    ∃ s, (system cnt).Reachable s ∧ AllReturned s ∧ ¬ Leaves cnt s := by
  have hrange := int_range (x := units cnt)
  by_cases hshort : int (units cnt) ≤ 0 ∨ int (units cnt) < target cnt
  · obtain ⟨s, hs⟩ := exists_stand cnt
    obtain ⟨s', hs'⟩ := produce (x := 0) (q := units cnt) hs (Nat.zero_le _) le_rfl
    have heq : (0 : ℤ) + (units cnt - (0 : ℕ)) = units cnt := by omega
    rw [heq] at hs'
    apply exists_stuck hs'
    omega
  · rw [not_or, Int.not_le, Int.not_lt] at hshort
    obtain ⟨hpos, hle⟩ := hshort
    have hwrap : ¬ (int (units cnt) = units cnt ∨ target cnt ≤ 1) := fun h => hcnt ⟨hpos, hle, h⟩
    rw [not_or, Int.not_le] at hwrap
    have hmany : INT_MAX < units cnt := by
      by_contra hfit
      exact hwrap.1 (int_of_nonneg (Int.natCast_nonneg _) (Int.not_lt.mp hfit))
    obtain ⟨s, c, hs⟩ := wrapped_stand hmany hwrap.2
    exact exists_stuck hs (Or.inl (int_halfway hpos))

/-- Main leaves its loop after all producers have returned, with at most one more
iteration, for these arguments and no others. -/
theorem leaves_iff_attainable (cnt : Fin n → ℤ) :
    (∀ s, (system cnt).Reachable s → AllReturned s → Leaves cnt s) ↔ Attainable cnt := by
  constructor
  · intro h
    by_contra hcnt
    obtain ⟨s, hs, hret, hnot⟩ := outlasting hcnt
    exact hnot (h s hs hret)
  · intro hcnt s hs hret
    obtain ⟨hl, hstock⟩ := (stock_inductive hcnt.room).reachable hs
    exact spent_leaves hcnt ⟨hl, hstock, hret⟩

theorem leaves_two : ∀ s, (system ![2, 1]).Reachable s → AllReturned s → Leaves ![2, 1] s :=
  (leaves_iff_attainable ![2, 1]).mpr (by decide)

theorem no_arguments_spin :
    ∃ s, (system ![]).Reachable s ∧ AllReturned s ∧ ¬ Leaves ![] s :=
  outlasting (by decide)

end Verdicts

end UnixProgramming.Polling
