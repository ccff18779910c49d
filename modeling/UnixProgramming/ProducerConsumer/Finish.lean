import UnixProgramming.ProducerConsumer.Plain
import UnixProgramming.ProducerConsumer.Progress

/-! Without the condition variable nothing is ever stuck, and with it nothing but the lost
wakeup is. -/

namespace UnixProgramming.ProducerConsumer

open Library Library.Transition

variable {N : ℕ} {s t : State} {m : Monitor Thread}

lemma left_producer {pc : ProducerPc} (hb : .consumer ∈ m.blocked → .consumer ∈ s.mtx.blocked)
    (hlt : pc.left < s.producer.left) : left N { s with mtx := m, producer := pc } < left N s := by
  simp only [left]
  by_cases h : .consumer ∈ m.blocked
  · simp only [h, hb h, if_true]
    omega
  · simp only [h, if_false]
    omega

lemma left_consumer {pc : ConsumerPc} (hb : m.blocked = s.mtx.blocked)
    (hlt : pc.left s.available.toNat < s.consumer.left s.available.toNat) :
    left N { s with mtx := m, consumer := pc } < left N s := by
  simp only [left, hb]
  omega

lemma exists_unlock (h : Conserved N s) (hpc : s.producer = .unlock) :
    ∃ m, s.mtx.unlock .producer = some m ∧ m.blocked = s.mtx.blocked := by
  have ho : s.mtx.owner = some .producer := h.ownership.producer.mpr (by simp [hpc])
  obtain ⟨m, hm⟩ : ∃ m, s.mtx.unlock .producer = some m := by simp [Monitor.unlock, ho]
  exact ⟨m, hm, (Monitor.unlock_eq_some.mp hm).2.2.1⟩

lemma exists_lock (h : Conserved N s) (hpc : s.consumer = .lock) (ho : s.mtx.owner = none) :
    ∃ m, s.mtx.lock .consumer = some m ∧ m.blocked = s.mtx.blocked := by
  have hawake : ¬ (.consumer ∈ s.mtx.blocked ∨ .consumer ∈ s.mtx.woken) := by
    rw [h.ownership.waiting, hpc]
    simp
  rw [not_or] at hawake
  obtain ⟨m, hm, -⟩ := Monitor.lock_unlock ho hawake.1 hawake.2
  exact ⟨m, hm, (Monitor.lock_eq_some.mp hm).2.2.1⟩

namespace Plain

/-- No thread comes to the parts of the loops that are left out. -/
structure Unsignalled (s : State) : Prop where
  producer : s.producer ≠ .signal
  consumer : s.consumer ≠ .check ∧ s.consumer ≠ .waiting

def Sound (N : ℕ) (s : State) : Prop :=
  Conserved N s ∧ Lively s ∧ Unsignalled s

lemma step_lively {l : Label} (hc : Conserved N s) (h : Lively s) (he : step N s l = some t) :
    Lively t := by
  cases l with
  | main => exact mainStep_lively h he
  | producer =>
    rcases producerStep_cases he with ⟨-, he⟩ | ⟨-, m, hm, rfl⟩
    · exact producerStep_lively hc h he
    · have hw : m.woken = s.mtx.woken := (Monitor.unlock_eq_some.mp hm).2.2.2
      have hnext : Lively { s with mtx := m, producer := .next } := h.producer_turn (by simp) hw
      exact hnext
  | consumer =>
    rcases consumerStep_cases he with ⟨-, he⟩ | ⟨hpc, m, hm, rfl⟩
    · exact consumerStep_lively h he
    · have hj : s.main ≠ .returned := by
        intro hr
        simp [h.joined hr] at hpc
      exact h.consumer_turn hj (by simp) (Monitor.lock_eq_some.mp hm).2.2.2.subset (by simp)
  | signal u | spurious u => cases he

lemma mainStep_unsignalled (h : Unsignalled s) (he : mainStep s = some t) : Unsignalled t := by
  cases hpc : s.main with
  | createProducer =>
    simp only [mainStep, hpc, Option.some.injEq] at he
    subst he
    exact ⟨by simp, h.consumer⟩
  | createConsumer =>
    simp only [mainStep, hpc, Option.some.injEq] at he
    subst he
    exact ⟨h.producer, by simp⟩
  | joinProducer | joinConsumer =>
    simp only [mainStep, hpc, Option.ite_none_right_eq_some, Option.some.injEq] at he
    obtain ⟨-, rfl⟩ := he
    exact ⟨h.producer, h.consumer⟩
  | returned => simp [mainStep, hpc] at he

lemma producerStep_unsignalled (h : Unsignalled s) (he : producerStep N s = some t) :
    Unsignalled t := by
  rcases producerStep_cases he with ⟨hu, he⟩ | ⟨-, m, -, rfl⟩
  · obtain ⟨-, hcons, -⟩ := producerStep_frame he
    have hkept : t.consumer ≠ .check ∧ t.consumer ≠ .waiting := by
      rw [hcons]
      exact h.consumer
    refine ⟨?_, hkept⟩
    cases hpc : s.producer with
    | unborn | returned => simp [ProducerConsumer.producerStep, hpc] at he
    | unlock => exact absurd hpc hu
    | signal => exact absurd hpc h.producer
    | test =>
      simp only [ProducerConsumer.producerStep, hpc, Option.some.injEq] at he
      subst he
      by_cases hj : s.j < N <;> simp [hj]
    | lock =>
      simp only [ProducerConsumer.producerStep, hpc, Option.map_eq_some_iff] at he
      obtain ⟨m, -, rfl⟩ := he
      simp
    | increment | next =>
      simp only [ProducerConsumer.producerStep, hpc, Option.some.injEq] at he
      subst he
      simp
  · exact ⟨by simp, h.consumer⟩

lemma consumerStep_unsignalled (h : Unsignalled s) (he : consumerStep N s = some t) :
    Unsignalled t := by
  rcases consumerStep_cases he with ⟨hl, he⟩ | ⟨-, m, -, rfl⟩
  · obtain ⟨-, hprod, -⟩ := consumerStep_frame he
    have hkept : t.producer ≠ .signal := by
      rw [hprod]
      exact h.producer
    refine ⟨hkept, ?_⟩
    cases hpc : s.consumer with
    | unborn | returned => simp [ProducerConsumer.consumerStep, hpc] at he
    | lock => exact absurd hpc hl
    | check => exact absurd hpc h.consumer.1
    | waiting => exact absurd hpc h.consumer.2
    | test =>
      simp only [ProducerConsumer.consumerStep, hpc, Option.some.injEq] at he
      subst he
      by_cases hN : s.consumed = N <;> simp [hN]
    | drain =>
      simp only [ProducerConsumer.consumerStep, hpc, Option.some.injEq] at he
      subst he
      by_cases ha : s.available > 0 <;> simp [ha]
    | count | consume | take =>
      simp only [ProducerConsumer.consumerStep, hpc, Option.some.injEq] at he
      subst he
      simp
    | unlock =>
      simp only [ProducerConsumer.consumerStep, hpc, Option.map_eq_some_iff] at he
      obtain ⟨m, -, rfl⟩ := he
      simp
  · exact ⟨h.producer, by simp⟩

lemma sound_inductive (N : ℕ) : (system N).Inductive (Sound N) where
  initial := by
    rintro _ rfl
    exact ⟨start_conserved, start_lively, by simp [start], by simp [start]⟩
  step := by
    rintro s l t ⟨hc, hl, hu⟩ he
    refine ⟨step_conserved hc he, step_lively hc hl he, ?_⟩
    cases l with
    | main => exact mainStep_unsignalled hu he
    | producer => exact producerStep_unsignalled hu he
    | consumer => exact consumerStep_unsignalled hu he
    | signal u | spurious u => cases he

lemma moves (N : ℕ) : Moves N (system N) (Sound N) where
  build := build N
  conserved s h := h.1
  lively s h := h.2.1
  unlock s h hpc := by
    obtain ⟨m, hm, hb⟩ := exists_unlock h.1 hpc
    refine ⟨.producer, { s with mtx := m, producer := .next }, by simp, ?_, ?_⟩
    · simp [system, step, producerStep, hpc, hm]
    · exact left_producer (by simp [hb]) (by simp [hpc, ProducerPc.left])
  signal s h hpc := absurd hpc h.2.2.producer
  lock s h hpc ho _ := by
    obtain ⟨m, hm, hb⟩ := exists_lock h.1 hpc ho
    refine ⟨.consumer, { s with mtx := m, consumer := .drain }, by simp, ?_, ?_⟩
    · simp [system, step, consumerStep, hpc, hm]
    · exact left_consumer hb (by simp [hpc, ConsumerPc.left])
  resume s h hw _ _ := absurd (h.1.ownership.waiting.mp (Or.inr hw)) h.2.2.consumer.2

lemma sound_advances (h : Sound N s) (hm : s.main ≠ .returned) : Advances N (system N) s := by
  rcases (moves N).advances h hm with ha | ⟨-, hlost⟩
  · exact ha
  · exact absurd (h.1.ownership.waiting.mp (Or.inl hlost.2.1)) h.2.2.consumer.2

/-- Unless `pthread_create` fails, some step is always possible, and from every state of every
run the program can come to its end. At its end everything has been produced and consumed. -/
theorem always_finishes (N : ℕ) (s : State) (h : (program N).Reachable (some s)) :
    (s.main ≠ .returned → ∃ l t, (program N).step (some s) (some l) = some (some t)) ∧
    (∃ t, (program N).Reaches (some s) (some t) ∧ t.main = .returned) ∧
    (s.main = .returned → s.produced = N ∧ s.consumed = N ∧ s.available = 0) := by
  have hs : Sound N s := (sound_inductive N).stopping.reachable h s rfl
  refine ⟨fun hm => ?_, ?_, fun hm => ?_⟩
  · obtain ⟨l, t, -, ht, -⟩ := sound_advances hs hm
    exact ⟨l, t, System.stopping_step.mpr ⟨t, ht, rfl⟩⟩
  · have hcloser : ∀ u, Sound N u → u.main ≠ .returned →
        ∃ l t, (system N).step u l = some t ∧ left N t < left N u := by
      intro u hu hm
      obtain ⟨l, t, -, ht, hlt⟩ := sound_advances hu hm
      exact ⟨l, t, ht, hlt⟩
    obtain ⟨t, ht, hm⟩ := (sound_inductive N).comes hcloser hs
    exact ⟨t, ht.stopping, hm⟩
  · have hr : s.consumer = .returned := hs.2.1.joined hm
    have hd : s.consumed = N := hs.1.consumed.returned hr
    have hb : s.available + s.consumed = s.produced := by simpa [hr] using hs.1.consumed.balance
    have ha : 0 ≤ s.available := hs.1.consumed.available
    have hle : s.produced ≤ N := hs.1.produced.le
    exact ⟨by omega, hd, by omega⟩

/-- One unit, for which the consumer has looked in vain once. -/
theorem always_finishes_one : ∃ s, (program 1).Reachable (some s) ∧
    (∃ l t, (program 1).step (some s) (some l) = some (some t)) ∧
    ∃ t, (program 1).Reaches (some s) (some t) ∧ t.main = .returned := by
  let ls : List Label := .main :: .main :: List.replicate 4 .consumer ++ List.replicate 3 .producer
  have hrun : ((system 1).exec start ls).map (fun s => (s.main, s.available)) =
      some (.joinProducer, 1) := by decide
  obtain ⟨s, hs, hobs⟩ := System.Reachable.observe rfl hrun
  obtain ⟨hmain, -⟩ : s.main = .joinProducer ∧ s.available = 1 := by
    simpa only [Prod.mk.injEq] using hobs
  have hm : s.main ≠ .returned := by simp [hmain]
  obtain ⟨hstep, hend, -⟩ := always_finishes 1 s hs.stopping
  exact ⟨s, hs.stopping, hstep hm, hend⟩

end Plain

def Sound (N : ℕ) (s : State) : Prop :=
  Conserved N s ∧ Lively s

lemma sound_inductive (N : ℕ) : (system N).Inductive (Sound N) where
  initial := by
    rintro _ rfl
    exact ⟨start_conserved, start_lively⟩
  step := by
    rintro s l t ⟨hc, hl⟩ he
    refine ⟨(conserved_inductive N).step s l t hc he, ?_⟩
    cases l with
    | main => exact mainStep_lively hl he
    | producer => exact producerStep_lively hc hl he
    | signal u => exact signalStep_lively hc hl he
    | consumer => exact consumerStep_lively hl he
    | spurious u =>
      obtain ⟨m, hm, rfl⟩ := Option.map_eq_some_iff.mp he
      exact wake_lively hc hl hm

lemma signal_advances (h : Conserved N s) (hpc : s.producer = .signal) :
    Advances N (system N) s := by
  by_cases hj : s.j % 10 = 0
  · by_cases hb : .consumer ∈ s.mtx.blocked
    · obtain ⟨m, hm⟩ : ∃ m, s.mtx.wake .consumer = some m := by simp [Monitor.wake, hb]
      have hawake : .consumer ∉ m.blocked := by simp [(Monitor.wake_eq_some.mp hm).2.2.1]
      refine ⟨.signal (some .consumer), { s with mtx := m, producer := .next }, by simp, ?_, ?_⟩
      · simp [system, step, signalStep, hpc, hj, hm]
      · exact left_producer (fun hm => absurd hm hawake) (by simp [hpc, ProducerPc.left])
    · have hnone : s.mtx.blocked = ∅ := by
        apply Finset.eq_empty_of_forall_notMem
        intro u hu
        exact hb (h.ownership.blocked u hu ▸ hu)
      refine ⟨.signal none, { s with producer := .next }, by simp, ?_, ?_⟩
      · simp [system, step, signalStep, Monitor.signal, hpc, hj, hnone]
      · exact left_producer id (by simp [hpc, ProducerPc.left])
  · refine ⟨.producer, { s with producer := .next }, by simp, ?_, ?_⟩
    · simp [system, step, producerStep, hpc, hj]
    · exact left_producer id (by simp [hpc, ProducerPc.left])

lemma moves (N : ℕ) : Moves N (system N) (Sound N) where
  build := build N
  conserved s h := h.1
  lively s h := h.2
  unlock s h hpc := by
    obtain ⟨m, hm, hb⟩ := exists_unlock h.1 hpc
    refine ⟨.producer, { s with mtx := m, producer := .signal }, by simp, ?_, ?_⟩
    · simp [system, step, producerStep, hpc, hm]
    · exact left_producer (by simp [hb]) (by simp [hpc, ProducerPc.left])
  signal s h hpc := signal_advances h.1 hpc
  lock s h hpc ho ha := by
    obtain ⟨m, hm, hb⟩ := exists_lock h.1 hpc ho
    have hsome : ¬ s.available ≤ 0 := not_le.mpr ha
    refine ⟨.consumer, { s with mtx := m, consumer := .check }, by simp, ?_, ?_⟩
    · simp [system, step, consumerStep, hpc, hm]
    · exact left_consumer hb (by simp [hpc, ConsumerPc.left, hsome])
  resume s h hw ho ha := by
    have hpc : s.consumer = .waiting := h.1.ownership.waiting.mp (Or.inr hw)
    obtain ⟨m, hm⟩ : ∃ m, s.mtx.resume .consumer = some m := by simp [Monitor.resume, hw, ho]
    have hsome : ¬ s.available ≤ 0 := not_le.mpr ha
    refine ⟨.consumer, { s with mtx := m, consumer := .check }, by simp, ?_, ?_⟩
    · simp [system, step, consumerStep, hpc, hm]
    · exact left_consumer (Monitor.resume_eq_some.mp hm).2.2.1
        (by simp [hpc, ConsumerPc.left, hsome])

lemma LostWakeup.wakes (h : LostWakeup N s) :
    ∃ t, (system N).step s (.spurious .consumer) = some t ∧ left N t < left N s := by
  obtain ⟨m, hm⟩ : ∃ m, s.mtx.wake .consumer = some m := by simp [Monitor.wake, h.2.1]
  have hawake : .consumer ∉ m.blocked := by simp [(Monitor.wake_eq_some.mp hm).2.2.1]
  refine ⟨{ s with mtx := m }, by simp [system, step, hm], ?_⟩
  simp [left, hawake, h.2.1]

lemma LostWakeup.stuck {l : Label} (h : LostWakeup N s) (hc : Conserved N s)
    (hm : s.main = .joinConsumer) (he : (system N).step s l = some t) : ∃ u, l = .spurious u := by
  have hwait : s.consumer = .waiting := hc.ownership.waiting.mp (Or.inl h.2.1)
  have hasleep : .consumer ∉ s.mtx.woken := s.mtx.disjoint _ h.2.1
  cases l with
  | spurious u => exact ⟨u, rfl⟩
  | main => simp [system, step, mainStep, hm, hwait] at he
  | producer => simp [system, step, producerStep, h.1] at he
  | signal u => simp [system, step, signalStep, h.1] at he
  | consumer => simp [system, step, consumerStep, hwait, Monitor.resume, hasleep] at he

lemma LostWakeup.stopped {l : Option Label} {r : Option State} (h : LostWakeup N s)
    (hc : Conserved N s) (hm : s.main = .joinConsumer)
    (he : (program N).step (some s) l = some r) : ∃ u, l = some (.spurious u) := by
  cases l with
  | none => simp [program, System.stopping, creating, hm] at he
  | some l =>
    obtain ⟨t, ht, -⟩ := System.stopping_step.mp he
    obtain ⟨u, rfl⟩ := h.stuck hc hm ht
    exact ⟨u, rfl⟩

/-- Unless `pthread_create` fails, the program can come to its end from every state, if need be
by a spurious wakeup. It depends on one exactly when the consumer has missed its signal and
`main` waits for it. -/
theorem stuck_iff_lost_wakeup (N : ℕ) (s : State) (h : (program N).Reachable (some s)) :
    (∃ t, (program N).Reaches (some s) (some t) ∧ t.main = .returned) ∧
    (s.main ≠ .returned ∧
        (∀ l r, (program N).step (some s) l = some r → ∃ u, l = some (.spurious u)) ↔
      s.main = .joinConsumer ∧ LostWakeup N s) := by
  have hs : Sound N s := (sound_inductive N).stopping.reachable h s rfl
  refine ⟨?_, ?_, ?_⟩
  · have hcloser : ∀ u, Sound N u → u.main ≠ .returned →
        ∃ l t, (system N).step u l = some t ∧ left N t < left N u := by
      intro u hu hm
      rcases (moves N).advances hu hm with ⟨l, t, -, ht, hlt⟩ | ⟨-, hlost⟩
      · exact ⟨l, t, ht, hlt⟩
      · exact ⟨.spurious .consumer, hlost.wakes⟩
    obtain ⟨t, ht, hm⟩ := (sound_inductive N).comes hcloser hs
    exact ⟨t, ht.stopping, hm⟩
  · rintro ⟨hm, hstuck⟩
    rcases (moves N).advances hs hm with ⟨l, t, hl, ht, -⟩ | hlost
    · obtain ⟨u, hu⟩ := hstuck (some l) (some t) (System.stopping_step.mpr ⟨t, ht, rfl⟩)
      exact absurd (Option.some.inj hu) (hl u)
    · exact hlost
  · rintro ⟨hm, hlost⟩
    exact ⟨by simp [hm], fun l r he => hlost.stopped hs.1 hm he⟩

/-- The consumer blocks after the first of two units, and the second one is not signalled. -/
theorem stuck_iff_lost_wakeup_two : ∃ s, (program 2).Reachable (some s) ∧
    (∀ l r, (program 2).step (some s) l = some r → ∃ u, l = some (.spurious u)) ∧
    ∃ t, (program 2).Reaches (some s) (some t) ∧ t.main = .returned := by
  let first : List Label :=
    [.main, .main, .producer, .producer, .producer, .producer, .signal none, .producer]
  let last : List Label := List.replicate 7 .producer
  let ls : List Label := first ++ List.replicate 12 .consumer ++ last ++ [.main]
  have hrun : ((system 2).exec start ls).map
      (fun s => ((s.main, s.producer), decide (.consumer ∈ s.mtx.blocked), s.consumed)) =
      some ((.joinConsumer, .returned), true, 1) := by decide
  obtain ⟨s, hs, hobs⟩ := System.Reachable.observe rfl hrun
  obtain ⟨⟨hm, hp⟩, hb, hcons⟩ : (s.main = .joinConsumer ∧ s.producer = .returned) ∧
      decide (.consumer ∈ s.mtx.blocked) = true ∧ s.consumed = 1 := by
    simpa only [Prod.mk.injEq] using hobs
  have hlost : LostWakeup 2 s := by
    refine ⟨hp, of_decide_eq_true hb, ?_⟩
    rw [hcons]
    decide
  obtain ⟨hend, hstuck⟩ := stuck_iff_lost_wakeup 2 s hs.stopping
  exact ⟨s, hs.stopping, (hstuck.mpr ⟨hm, hlost⟩).2, hend⟩

end UnixProgramming.ProducerConsumer
