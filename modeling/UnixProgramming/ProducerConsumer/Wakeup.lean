import UnixProgramming.ProducerConsumer.Conservation

/-! The signals sent for `j % 10 == 0` reach a blocked consumer exactly when the
last unit is one of those that are signalled. -/

namespace UnixProgramming.ProducerConsumer

open Library Library.Transition

variable {N : ℕ} {s t : State}

def LostWakeup (N : ℕ) (s : State) : Prop :=
  s.producer = .returned ∧ .consumer ∈ s.mtx.blocked ∧ s.consumed < N

-- A blocked consumer still has units to come, or the signal for the last one.
def SignalDue (N : ℕ) (s : State) : Prop :=
  .consumer ∈ s.mtx.blocked →
    s.produced < N ∨ (s.producer = .unlock ∨ s.producer = .signal) ∧ s.j + 1 = N

lemma producerStep_signalDue (hN : N % 10 = 1) (h : Produced N s) (hs : SignalDue N s)
    (he : producerStep N s = some t) : SignalDue N t := by
  have hn := h.count
  cases hpc : s.producer with
  | unborn | returned => simp [producerStep, hpc] at he
  | test | next =>
    simp only [producerStep, hpc, Option.some.injEq] at he
    subst he
    intro hb
    exact Or.inl (by simpa [hpc] using hs hb)
  | lock =>
    simp only [producerStep, hpc, Option.map_eq_some_iff] at he
    obtain ⟨m, hlock, rfl⟩ := he
    obtain ⟨-, -, hb', -⟩ := Monitor.lock_eq_some.mp hlock
    intro hb
    exact Or.inl (by simpa [hpc] using hs (hb' ▸ hb))
  | increment =>
    simp only [producerStep, hpc, Option.some.injEq] at he
    subst he
    intro hb
    have hlt : s.produced < N := by simpa [hpc] using hs hb
    simp only [hpc, ProducerPc.ahead] at hn
    by_cases hlast : s.j + 1 = N
    · exact Or.inr ⟨Or.inl rfl, hlast⟩
    · left
      dsimp only
      omega
  | unlock =>
    simp only [producerStep, hpc, Option.map_eq_some_iff] at he
    obtain ⟨m, hunlock, rfl⟩ := he
    obtain ⟨-, -, hb', -⟩ := Monitor.unlock_eq_some.mp hunlock
    intro hb
    rcases hs (hb' ▸ hb) with hlt | ⟨-, hlast⟩
    · exact Or.inl hlt
    · exact Or.inr ⟨Or.inr rfl, hlast⟩
  | signal =>
    simp only [producerStep, hpc, Option.ite_none_left_eq_some, Option.some.injEq] at he
    obtain ⟨hj, rfl⟩ := he
    intro hb
    rcases hs hb with hlt | ⟨-, hlast⟩
    · exact Or.inl hlt
    · omega

lemma consumerStep_signalDue (hp : Produced N s) (hc : Consumed N s) (hs : SignalDue N s)
    (he : consumerStep N s = some t) : SignalDue N t := by
  obtain ⟨-, hpp, hj, hn⟩ := consumerStep_frame he
  cases hpc : s.consumer with
  | unborn | returned => simp [consumerStep, hpc] at he
  | check =>
    simp only [consumerStep, hpc] at he
    split_ifs at he with ha
    · -- the consumer blocks after it has consumed every unit produced so far
      intro _
      have hbal := hc.balance
      have hne : s.consumed ≠ N := hc.entering (by simp [hpc])
      have hle : s.produced ≤ N := hp.le
      simp only [hpc, ConsumerPc.taking] at hbal
      exact Or.inl (by omega)
    · obtain rfl := Option.some.inj he
      exact hs
  | lock | waiting | unlock =>
    simp only [consumerStep, hpc, Option.map_eq_some_iff] at he
    obtain ⟨m, hm, rfl⟩ := he
    have hb' : m.blocked = s.mtx.blocked := by simp_all
    intro hb
    exact hs (hb' ▸ hb)
  | test | drain | count | consume | take =>
    simp only [consumerStep, hpc, Option.some.injEq] at he
    subst he
    exact hs

lemma mainStep_signalDue (h : Conserved N s) (hs : SignalDue N s) (he : mainStep s = some t) :
    SignalDue N t := by
  cases hpc : s.main with
  | createProducer =>
    have hu : s.producer = .unborn := h.created.producer hpc
    simp only [mainStep, hpc, Option.some.injEq] at he
    subst he
    intro hb
    exact Or.inl (by simpa [hu] using hs hb)
  | createConsumer =>
    simp only [mainStep, hpc, Option.some.injEq] at he
    subst he
    exact hs
  | joinProducer | joinConsumer =>
    simp only [mainStep, hpc, Option.ite_none_right_eq_some, Option.some.injEq] at he
    obtain ⟨-, rfl⟩ := he
    exact hs
  | returned => simp [mainStep, hpc] at he

lemma signalDue_inductive (hN : N % 10 = 1) :
    (system N).Inductive fun s => Conserved N s ∧ SignalDue N s := by
  refine (conserved_inductive N).and ?_ ?_
  · rintro _ rfl hb
    simp [start] at hb
  · intro s l t h _ hs he
    cases l with
    | main => exact mainStep_signalDue h hs he
    | producer => exact producerStep_signalDue hN h.produced hs he
    | signal woken =>
      obtain ⟨-, -, m, hm, rfl⟩ := signalStep_cases he
      exact fun hb => absurd hb (Monitor.signal_unblocks h.ownership.blocked hm)
    | consumer => exact consumerStep_signalDue h.produced h.consumed hs he
    | spurious u =>
      obtain ⟨m, hm, rfl⟩ := Option.map_eq_some_iff.mp he
      obtain ⟨-, -, hb', -⟩ := Monitor.wake_eq_some.mp hm
      intro hb
      rw [hb'] at hb
      exact hs (Finset.mem_of_mem_erase hb)

lemma no_lost_wakeup (hN : N % 10 = 1) (h : (system N).Reachable s) : ¬ LostWakeup N s := by
  rintro ⟨hr, hb, -⟩
  obtain ⟨hc, hs⟩ := (signalDue_inductive hN).reachable h
  have hn : s.produced = N := by
    rw [hc.produced.count, hr, hc.produced.returned hr]
    rfl
  rcases hs hb with hlt | ⟨hpc | hpc, -⟩
  · omega
  · rw [hr] at hpc
    cases hpc
  · rw [hr] at hpc
    cases hpc

section LostRun

-- One round of the producer's loop in which the signal wakes nobody.
lemma produce_unit (hpc : s.producer = .test) (hj : s.j < N) (ho : s.mtx.owner = none)
    (hb : .producer ∉ s.mtx.blocked) (hw : .producer ∉ s.mtx.woken)
    (hs : s.j % 10 = 0 → s.mtx.blocked = ∅) :
    (system N).Reaches s
      { s with j := s.j + 1, available := s.available + 1, produced := s.produced + 1 } := by
  obtain ⟨m, hlock, -, hunlock⟩ := Monitor.lock_unlock ho hb hw
  let final := { s with j := s.j + 1, available := s.available + 1, produced := s.produced + 1 }
  let signalling := { final with j := s.j, producer := .signal }
  have hfirst : (system N).exec s [.producer, .producer, .producer, .producer] =
      some signalling := by
    simp [System.exec, system, step, producerStep, hpc, hj, hlock, hunlock, signalling, final]
  refine (System.Reaches.exec hfirst).trans ?_
  by_cases hz : s.j % 10 = 0
  · have hlast : (system N).exec signalling [.signal none, .producer] = some final := by
      simp [System.exec, system, step, signalStep, producerStep, Monitor.signal, hz, hs hz,
        signalling, final, hpc]
    exact .exec hlast
  · have hlast : (system N).exec signalling [.producer, .producer] = some final := by
      simp [System.exec, system, step, producerStep, hz, signalling, final, hpc]
    exact .exec hlast

lemma produce_units (n : ℕ) (hpc : s.producer = .test) (hj : s.j + n ≤ N)
    (ho : s.mtx.owner = none) (hb : .producer ∉ s.mtx.blocked) (hw : .producer ∉ s.mtx.woken)
    (hs : ∀ i < n, (s.j + i) % 10 = 0 → s.mtx.blocked = ∅) :
    (system N).Reaches s
      { s with j := s.j + n, available := s.available + n, produced := s.produced + n } := by
  induction n generalizing s with
  | zero => simpa using System.Reaches.refl
  | succ n ih =>
    let rest := { s with
      j := s.j + 1, available := s.available + 1, produced := s.produced + 1 }
    have hr : (system N).Reaches s rest :=
      produce_unit hpc (by omega) ho hb hw (fun hz => hs 0 (by omega) hz)
    have hj' : rest.j + n ≤ N := by
      simp only [rest]
      omega
    have hs' : ∀ i < n, (rest.j + i) % 10 = 0 → rest.mtx.blocked = ∅ := by
      intro i hi hz
      refine hs (i + 1) (by omega) ?_
      rwa [← add_assoc, add_right_comm]
    convert hr.trans (@ih rest hpc hj' ho hb hw hs') using 2
    · simp only [rest]
      omega
    · simp only [rest]
      ring
    · simp only [rest]
      omega

lemma drain_units (n : ℕ) (hpc : s.consumer = .drain) (ha : s.available = n) :
    (system N).Reaches s { s with
      i := s.i + n, consumed := s.consumed + n, available := 0, consumer := .unlock } := by
  induction n generalizing s with
  | zero =>
    have hlast : (system N).exec s [.consumer] =
        some { s with consumer := .unlock, available := 0 } := by
      simp [System.exec, system, step, consumerStep, hpc, ha]
    simpa using System.Reaches.exec hlast
  | succ n ih =>
    let rest := { s with
      i := s.i + 1, consumed := s.consumed + 1, available := s.available - 1, consumer := .drain }
    have hfirst : (system N).exec s [.consumer, .consumer, .consumer, .consumer] = some rest := by
      have hpos : 0 < s.available := by omega
      simp [System.exec, system, step, consumerStep, hpc, hpos, rest]
    have hr := @ih rest rfl (by simp [rest, ha])
    convert (System.Reaches.exec hfirst).trans hr using 2
    · simp only [rest]
      push_cast
      ring
    · simp only [rest]
      push_cast
      ring

lemma consume_round (k : ℕ) (hpc : s.consumer = .test) (hne : s.consumed ≠ N)
    (ha : s.available = k) (hk : 0 < k) (ho : s.mtx.owner = none)
    (hb : .consumer ∉ s.mtx.blocked) (hw : .consumer ∉ s.mtx.woken) :
    (system N).Reaches s
      { s with i := s.i + k, consumed := s.consumed + k, available := 0 } := by
  obtain ⟨m, hlock, -, hunlock⟩ := Monitor.lock_unlock ho hb hw
  let draining := { s with mtx := m, consumer := .drain }
  have hfirst : (system N).exec s [.consumer, .consumer, .consumer] = some draining := by
    have hz : ¬ s.available = 0 := by omega
    simp [System.exec, system, step, consumerStep, hpc, hne, hlock, hz, draining]
  have hr := @drain_units N draining k rfl ha
  refine (System.Reaches.exec hfirst).trans (hr.trans ?_)
  have hlast : (system N).exec { draining with
      i := s.i + k, consumed := s.consumed + k, available := 0, consumer := .unlock } [.consumer] =
      some { s with i := s.i + k, consumed := s.consumed + k, available := 0 } := by
    simp [System.exec, system, step, consumerStep, draining, hunlock, hpc]
  exact .exec hlast

lemma block_round (hpc : s.consumer = .test) (hne : s.consumed ≠ N) (ha : s.available = 0)
    (ho : s.mtx.owner = none) (hb : .consumer ∉ s.mtx.blocked) (hw : .consumer ∉ s.mtx.woken) :
    ∃ m, (system N).Reaches s { s with mtx := m, consumer := .waiting } ∧ m.owner = none ∧
      m.blocked = insert .consumer s.mtx.blocked ∧ m.woken = s.mtx.woken := by
  obtain ⟨m, hlock, hown, -⟩ := Monitor.lock_unlock ho hb hw
  obtain ⟨m', hwait⟩ := Monitor.exists_wait hown
  obtain ⟨-, -, hb₁, hw₁⟩ := Monitor.lock_eq_some.mp hlock
  obtain ⟨-, ho₂, hb₂, hw₂⟩ := Monitor.wait_eq_some.mp hwait
  have hrun : (system N).exec s [.consumer, .consumer, .consumer] =
      some { s with mtx := m', consumer := .waiting } := by
    simp [System.exec, system, step, consumerStep, hpc, hne, ha, hlock, hwait]
  exact ⟨m', .exec hrun, ho₂, by rw [hb₂, hb₁], by rw [hw₂, hw₁]⟩

/-- The producer runs up to its last signal, the consumer takes everything and
blocks, and the producer adds the remaining units without a signal. -/
lemma lost_wakeup_reachable (hN : 1 ≤ N) (hmod : N % 10 ≠ 1) :
    ∃ s, (system N).Reachable s ∧ LostWakeup N s := by
  obtain ⟨k, r, hk, hr, hpos, hkr⟩ : ∃ k r, k % 10 = 1 ∧ r < 10 ∧ 0 < r ∧ k + r = N :=
    ⟨(N - 1) / 10 * 10 + 1, (N - 1) % 10, by omega, by omega, by omega, by omega⟩
  let born := { start with main := .joinProducer, producer := .test, consumer := .test }
  have h₁ : (system N).exec start [.main, .main] = some born := by
    simp [System.exec, system, step, mainStep, start, born]
  let signalled := { born with j := k, available := k, produced := k }
  have h₂ : (system N).Reaches born signalled := by
    have hj : born.j + k ≤ N := by
      simp only [born, start]
      omega
    have hr := produce_units k rfl hj rfl (by simp [born, start]) (by simp [born, start])
      (fun _ _ _ => rfl)
    simpa [signalled, born, start] using hr
  let drained := { signalled with i := k, consumed := k, available := 0 }
  have hne : (k : ℤ) ≠ N := by omega
  have h₃ : (system N).Reaches signalled drained := by
    have hne₀ : signalled.consumed ≠ N := by
      simp only [signalled, born, start]
      omega
    have hr := consume_round k rfl hne₀ rfl (by omega) rfl (by simp [signalled, born, start])
      (by simp [signalled, born, start])
    simpa [drained, signalled, born, start] using hr
  obtain ⟨m, h₄, ho, hb, hw⟩ := @block_round N drained rfl hne rfl rfl
    (by simp [drained, signalled, born, start]) (by simp [drained, signalled, born, start])
  let blocked := { drained with mtx := m, consumer := .waiting }
  let finished := { blocked with j := k + r, available := r, produced := k + r }
  have h₅ : (system N).Reaches blocked finished := by
    have hs : ∀ i < r, (blocked.j + i) % 10 = 0 → blocked.mtx.blocked = ∅ := by
      intro i hi hz
      simp only [blocked, drained, signalled] at hz
      omega
    have hr := produce_units r rfl hkr.le ho
      (by simp [blocked, hb, drained, signalled, born, start])
      (by simp [blocked, hw, drained, signalled, born, start]) hs
    simpa [finished, blocked, drained, signalled] using hr
  let lost := { finished with producer := .returned }
  have h₆ : (system N).exec finished [.producer] = some lost := by
    simp [System.exec, system, step, producerStep, lost, finished, blocked, drained, signalled,
      born, hkr]
  refine ⟨lost, ⟨start, rfl, ?_⟩, rfl, ?_, ?_⟩
  · exact (System.Reaches.exec h₁).trans (h₂.trans (h₃.trans (h₄.trans (h₅.trans (.exec h₆)))))
  · simp [lost, finished, blocked, hb]
  · simp only [lost, finished, blocked, drained]
    omega

end LostRun

theorem no_lost_wakeup_iff (N : ℕ) (hN : 1 ≤ N) :
    (∀ s, (system N).Reachable s → ¬ LostWakeup N s) ↔ N % 10 = 1 := by
  constructor
  · intro h
    by_contra hmod
    obtain ⟨s, hs, hl⟩ := lost_wakeup_reachable hN hmod
    exact h s hs hl
  · intro hmod s hs
    exact no_lost_wakeup hmod hs

theorem no_lost_wakeup_iff_one :
    (∀ s, (system 1).Reachable s → ¬ LostWakeup 1 s) ↔ 1 % 10 = 1 :=
  no_lost_wakeup_iff 1 le_rfl

theorem lost_wakeup_total_count :
    ¬ ∀ s, (system 20000).Reachable s → ¬ LostWakeup 20000 s := by
  intro h
  obtain ⟨s, hs, hl⟩ := @lost_wakeup_reachable 20000 (by decide) (by decide)
  exact h s hs hl

end UnixProgramming.ProducerConsumer
