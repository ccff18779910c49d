import UnixProgramming.ProducerConsumer.Model
import Mathlib.Tactic

/-! Every unit is produced once and consumed once, whatever the interleaving. -/

namespace UnixProgramming.ProducerConsumer

open Library Library.Transition

variable {N : ℕ} {s t : State}

@[simp] def ProducerPc.holds : ProducerPc → Bool
  | .increment | .unlock => true
  | _ => false

@[simp] def ConsumerPc.holds : ConsumerPc → Bool
  | .check | .drain | .count | .consume | .take | .unlock => true
  | _ => false

structure Ownership (s : State) : Prop where
  producer : s.mtx.owner = some .producer ↔ s.producer.holds = true
  consumer : s.mtx.owner = some .consumer ↔ s.consumer.holds = true
  main : s.mtx.owner ≠ some .main
  waiting : .consumer ∈ s.mtx.blocked ∨ .consumer ∈ s.mtx.woken ↔ s.consumer = .waiting
  blocked : ∀ u ∈ s.mtx.blocked, u = .consumer

-- The units that the producer has added beyond its loop counter.
@[simp] def ProducerPc.ahead : ProducerPc → ℕ
  | .unlock | .signal | .next => 1
  | _ => 0

@[simp] def ProducerPc.inLoop : ProducerPc → Bool
  | .lock | .increment | .unlock | .signal | .next => true
  | _ => false

structure Produced (N : ℕ) (s : State) : Prop where
  count : s.produced = s.j + s.producer.ahead
  bound : s.j ≤ N
  inLoop : s.producer.inLoop = true → s.j < N
  returned : s.producer = .returned → s.j = N

-- The unit that is counted as consumed but not yet taken from `available`.
@[simp] def ConsumerPc.taking : ConsumerPc → ℤ
  | .take => 1
  | _ => 0

@[simp] def ConsumerPc.draining : ConsumerPc → Bool
  | .count | .consume | .take => true
  | _ => false

@[simp] def ConsumerPc.entering : ConsumerPc → Bool
  | .lock | .check | .waiting => true
  | _ => false

structure Consumed (N : ℕ) (s : State) : Prop where
  balance : s.available + s.consumed = s.produced + s.consumer.taking
  available : 0 ≤ s.available
  draining : s.consumer.draining = true → 0 < s.available
  consumed : s.consumer.taking ≤ s.consumed
  entering : s.consumer.entering = true → s.consumed ≠ N
  returned : s.consumer = .returned → s.consumed = N

structure Created (s : State) : Prop where
  producer : s.main = .createProducer → s.producer = .unborn
  consumer : s.main = .createProducer ∨ s.main = .createConsumer → s.consumer = .unborn

structure Conserved (N : ℕ) (s : State) : Prop where
  created : Created s
  ownership : Ownership s
  produced : Produced N s
  consumed : Consumed N s

lemma start_conserved : Conserved N start where
  created := ⟨fun _ => rfl, fun _ => rfl⟩
  ownership := by constructor <;> simp [start]
  produced := by constructor <;> simp [start]
  consumed := by constructor <;> simp [start]

lemma Ownership.producer_turn (h : Ownership s) {m : Monitor Thread} {pc : ProducerPc}
    (hfree : s.consumer.holds = false)
    (ho : m.owner = if pc.holds = true then some .producer else none)
    (hb : m.blocked = s.mtx.blocked) (hw : m.woken = s.mtx.woken) :
    Ownership { s with mtx := m, producer := pc } where
  producer := by
    change m.owner = _ ↔ pc.holds = true
    rw [ho]
    cases pc.holds <;> simp
  consumer := by
    change m.owner = _ ↔ s.consumer.holds = true
    rw [ho, hfree]
    cases pc.holds <;> simp
  main := by
    change m.owner ≠ _
    rw [ho]
    cases pc.holds <;> simp
  waiting := by
    change _ ∈ m.blocked ∨ _ ∈ m.woken ↔ _
    rw [hb, hw]
    exact h.waiting
  blocked := by
    change ∀ u ∈ m.blocked, _
    rw [hb]
    exact h.blocked

lemma consumer_turn {m : Monitor Thread} {pc : ConsumerPc} (hfree : s.producer.holds = false)
    (ho : m.owner = if pc.holds = true then some .consumer else none)
    (hwait : .consumer ∈ m.blocked ∨ .consumer ∈ m.woken ↔ pc = .waiting)
    (hb : ∀ u ∈ m.blocked, u = .consumer) : Ownership { s with mtx := m, consumer := pc } where
  producer := by
    change m.owner = _ ↔ s.producer.holds = true
    rw [ho, hfree]
    cases pc.holds <;> simp
  consumer := by
    change m.owner = _ ↔ pc.holds = true
    rw [ho]
    cases pc.holds <;> simp
  main := by
    change m.owner ≠ _
    rw [ho]
    cases pc.holds <;> simp
  waiting := hwait
  blocked := hb

lemma producerStep_ownership (h : Ownership s) (he : producerStep N s = some t) : Ownership t := by
  have ⟨hp, hc, hm, hw, hb⟩ := h
  cases hpc : s.producer with
  | unborn | returned => simp [producerStep, hpc] at he
  | test =>
    simp only [producerStep, hpc, Option.some.injEq] at he
    subst he
    refine ⟨?_, hc, hm, hw, hb⟩
    by_cases hj : s.j < N <;> simpa [hj, hpc] using hp
  | lock =>
    simp only [producerStep, hpc, Option.map_eq_some_iff] at he
    obtain ⟨m, hlock, rfl⟩ := he
    obtain ⟨⟨ho, -, -⟩, ho', hb', hw'⟩ := Monitor.lock_eq_some.mp hlock
    have hfree : s.consumer.holds = false := by simpa [ho] using hc
    exact h.producer_turn hfree ho' hb' hw'
  | unlock =>
    simp only [producerStep, hpc, Option.map_eq_some_iff] at he
    obtain ⟨m, hunlock, rfl⟩ := he
    obtain ⟨ho, ho', hb', hw'⟩ := Monitor.unlock_eq_some.mp hunlock
    have hfree : s.consumer.holds = false := by simpa [ho] using hc
    exact h.producer_turn hfree ho' hb' hw'
  | increment | next =>
    simp only [producerStep, hpc, Option.some.injEq] at he
    subst he
    exact ⟨by simpa [hpc] using hp, hc, hm, hw, hb⟩
  | signal =>
    simp only [producerStep, hpc, Option.ite_none_left_eq_some, Option.some.injEq] at he
    obtain ⟨-, rfl⟩ := he
    exact ⟨by simpa [hpc] using hp, hc, hm, hw, hb⟩

lemma signalStep_cases {woken : Option Thread} (he : signalStep s woken = some t) :
    s.producer = .signal ∧ s.j % 10 = 0 ∧
      ∃ m, s.mtx.signal woken = some m ∧ t = { s with mtx := m, producer := .next } := by
  simp only [signalStep, Option.ite_none_right_eq_some, Option.map_eq_some_iff] at he
  obtain ⟨⟨hpc, hj⟩, m, hm, rfl⟩ := he
  exact ⟨hpc, hj, m, hm, rfl⟩

lemma wake_ownership {u : Thread} {m : Monitor Thread} (h : Ownership s)
    (hm : s.mtx.wake u = some m) : Ownership { s with mtx := m } := by
  obtain ⟨hp, hc, hmain, hw, hb⟩ := h
  obtain ⟨hu, ho', hb', hw'⟩ := Monitor.wake_eq_some.mp hm
  obtain rfl := hb u hu
  refine ⟨by rwa [ho'], by rwa [ho'], by rwa [ho'], ?_, ?_⟩
  · have hwait : s.consumer = .waiting := hw.mp (Or.inl hu)
    simp [hb', hw', hwait]
  · intro v hv
    rw [hb'] at hv
    exact hb v (Finset.mem_of_mem_erase hv)

lemma signal_ownership {woken : Option Thread} {m : Monitor Thread} (h : Ownership s)
    (hm : s.mtx.signal woken = some m) : Ownership { s with mtx := m } := by
  cases woken with
  | none =>
    obtain ⟨_, rfl⟩ := Monitor.signal_none.mp hm
    exact h
  | some u => exact wake_ownership h hm

lemma consumerStep_ownership (h : Ownership s) (he : consumerStep N s = some t) : Ownership t := by
  obtain ⟨hp, hc, hm, hw, hb⟩ := h
  cases hpc : s.consumer with
  | unborn | returned => simp [consumerStep, hpc] at he
  | test =>
    simp only [consumerStep, hpc, Option.some.injEq] at he
    subst he
    refine ⟨hp, ?_, hm, ?_, hb⟩
    · by_cases hd : s.consumed = N <;> simpa [hd, hpc] using hc
    · by_cases hd : s.consumed = N <;> simpa [hd, hpc] using hw
  | lock =>
    simp only [consumerStep, hpc, Option.map_eq_some_iff] at he
    obtain ⟨m, hlock, rfl⟩ := he
    obtain ⟨⟨ho, hnb, hnw⟩, ho', hb', hw'⟩ := Monitor.lock_eq_some.mp hlock
    have hfree : s.producer.holds = false := by simpa [ho] using hp
    exact consumer_turn hfree ho' (by simp [hb', hw', hnb, hnw]) (by rwa [hb'])
  | check =>
    simp only [consumerStep, hpc] at he
    split_ifs at he with ha
    · obtain ⟨m, hwait, rfl⟩ := Option.map_eq_some_iff.mp he
      obtain ⟨ho, ho', hb', hw'⟩ := Monitor.wait_eq_some.mp hwait
      have hfree : s.producer.holds = false := by simpa [ho] using hp
      exact consumer_turn hfree ho' (by simp [hb']) (by simpa [hb'] using hb)
    · obtain rfl := Option.some.inj he
      exact ⟨hp, by simpa [hpc] using hc, hm, by simpa [hpc] using hw, hb⟩
  | waiting =>
    simp only [consumerStep, hpc, Option.map_eq_some_iff] at he
    obtain ⟨m, hresume, rfl⟩ := he
    obtain ⟨⟨hwok, ho⟩, ho', hb', hw'⟩ := Monitor.resume_eq_some.mp hresume
    have hnb : Thread.consumer ∉ s.mtx.blocked := fun hh => s.mtx.disjoint _ hh hwok
    have hfree : s.producer.holds = false := by simpa [ho] using hp
    exact consumer_turn hfree ho' (by simp [hb', hw', hnb]) (by rwa [hb'])
  | drain =>
    simp only [consumerStep, hpc, Option.some.injEq] at he
    subst he
    refine ⟨hp, ?_, hm, ?_, hb⟩
    · by_cases ha : s.available > 0 <;> simpa [ha, hpc] using hc
    · by_cases ha : s.available > 0 <;> simpa [ha, hpc] using hw
  | count | consume | take =>
    simp only [consumerStep, hpc, Option.some.injEq] at he
    subst he
    exact ⟨hp, by simpa [hpc] using hc, hm, by simpa [hpc] using hw, hb⟩
  | unlock =>
    simp only [consumerStep, hpc, Option.map_eq_some_iff] at he
    obtain ⟨m, hunlock, rfl⟩ := he
    obtain ⟨ho, ho', hb', hw'⟩ := Monitor.unlock_eq_some.mp hunlock
    have hfree : s.producer.holds = false := by simpa [ho] using hp
    have hawake := s.mtx.awake _ ho
    exact consumer_turn hfree ho' (by simp [hb', hw', hawake]) (by rwa [hb'])

lemma Produced.move (h : Produced N s) {m : Monitor Thread} {pc : ProducerPc}
    (ha : pc.ahead = s.producer.ahead) (hl : pc.inLoop = true → s.j < N)
    (hr : pc = .returned → s.j = N) : Produced N { s with mtx := m, producer := pc } where
  count := by
    dsimp only
    rw [ha]
    exact h.count
  bound := h.bound
  inLoop := hl
  returned := hr

lemma producerStep_produced (h : Produced N s) (he : producerStep N s = some t) : Produced N t := by
  have hloop : s.producer.inLoop = true → s.j < N := h.inLoop
  have hcount := h.count
  cases hpc : s.producer with
  | unborn | returned => simp [producerStep, hpc] at he
  | test =>
    simp only [producerStep, hpc, Option.some.injEq] at he
    subst he
    by_cases hj : s.j < N
    · rw [if_pos hj]
      exact h.move (by simp [hpc]) (fun _ => hj) (by simp)
    · rw [if_neg hj]
      exact h.move (by simp [hpc]) (by simp) fun _ => le_antisymm h.bound (not_lt.mp hj)
  | lock =>
    simp only [producerStep, hpc, Option.map_eq_some_iff] at he
    obtain ⟨m, -, rfl⟩ := he
    exact h.move (by simp [hpc]) (fun _ => hloop (by simp [hpc])) (by simp)
  | increment =>
    simp only [producerStep, hpc, Option.some.injEq] at he
    subst he
    refine ⟨?_, h.bound, fun _ => hloop (by simp [hpc]), by simp⟩
    simpa [hpc] using hcount
  | unlock =>
    simp only [producerStep, hpc, Option.map_eq_some_iff] at he
    obtain ⟨m, -, rfl⟩ := he
    exact h.move (by simp [hpc]) (fun _ => hloop (by simp [hpc])) (by simp)
  | signal =>
    simp only [producerStep, hpc, Option.ite_none_left_eq_some, Option.some.injEq] at he
    obtain ⟨-, rfl⟩ := he
    exact h.move (by simp [hpc]) (fun _ => hloop (by simp [hpc])) (by simp)
  | next =>
    have hj : s.j < N := hloop (by simp [hpc])
    simp only [producerStep, hpc, Option.some.injEq] at he
    subst he
    refine ⟨?_, hj, by simp, by simp⟩
    simpa [hpc] using hcount

lemma signal_produced {m : Monitor Thread} (h : Produced N s) (hpc : s.producer = .signal) :
    Produced N { s with mtx := m, producer := .next } := by
  apply h.move
  · simp [hpc]
  · exact fun _ => h.inLoop (by simp [hpc])
  · simp

lemma Consumed.move (h : Consumed N s) {m : Monitor Thread} {i : ℤ} {pc : ConsumerPc}
    (ht : pc.taking = s.consumer.taking) (hd : pc.draining = true → 0 < s.available)
    (hn : pc.entering = true → s.consumed ≠ N) (hr : pc = .returned → s.consumed = N) :
    Consumed N { s with mtx := m, i := i, consumer := pc } where
  balance := by
    dsimp only
    rw [ht]
    exact h.balance
  available := h.available
  draining := hd
  consumed := by
    dsimp only
    rw [ht]
    exact h.consumed
  entering := hn
  returned := hr

lemma consumerStep_consumed (h : Consumed N s) (he : consumerStep N s = some t) : Consumed N t := by
  have henter : s.consumer.entering = true → s.consumed ≠ N := h.entering
  have hdrain : s.consumer.draining = true → 0 < s.available := h.draining
  have hb := h.balance
  have hc := h.consumed
  cases hpc : s.consumer with
  | unborn | returned => simp [consumerStep, hpc] at he
  | test =>
    simp only [consumerStep, hpc, Option.some.injEq] at he
    subst he
    by_cases hN : s.consumed = N
    · rw [if_neg (not_not.mpr hN)]
      exact h.move (by simp [hpc]) (by simp) (by simp) fun _ => hN
    · rw [if_pos hN]
      exact h.move (by simp [hpc]) (by simp) (fun _ => hN) (by simp)
  | lock | waiting =>
    simp only [consumerStep, hpc, Option.map_eq_some_iff] at he
    obtain ⟨m, -, rfl⟩ := he
    exact h.move (by simp [hpc]) (by simp) (fun _ => henter (by simp [hpc])) (by simp)
  | check =>
    simp only [consumerStep, hpc] at he
    split_ifs at he with hz
    · obtain ⟨m, -, rfl⟩ := Option.map_eq_some_iff.mp he
      exact h.move (by simp [hpc]) (by simp) (fun _ => henter (by simp [hpc])) (by simp)
    · obtain rfl := Option.some.inj he
      exact h.move (by simp [hpc]) (by simp) (by simp) (by simp)
  | drain =>
    simp only [consumerStep, hpc, Option.some.injEq] at he
    subst he
    by_cases hpos : s.available > 0
    · rw [if_pos hpos]
      exact h.move (by simp [hpc]) (fun _ => hpos) (by simp) (by simp)
    · rw [if_neg hpos]
      exact h.move (by simp [hpc]) (by simp) (by simp) (by simp)
  | count =>
    simp only [consumerStep, hpc, Option.some.injEq] at he
    subst he
    exact h.move (by simp [hpc]) (fun _ => hdrain (by simp [hpc])) (by simp) (by simp)
  | consume =>
    simp only [consumerStep, hpc, Option.some.injEq] at he
    subst he
    refine ⟨?_, h.available, fun _ => hdrain (by simp [hpc]), ?_, by simp, by simp⟩
    · simp only [hpc, ConsumerPc.taking] at hb ⊢
      omega
    · simp only [hpc, ConsumerPc.taking] at hc ⊢
      omega
  | take =>
    have hpos : 0 < s.available := hdrain (by simp [hpc])
    simp only [consumerStep, hpc, Option.some.injEq] at he
    subst he
    refine ⟨?_, ?_, by simp, ?_, by simp, by simp⟩
    · simp only [hpc, ConsumerPc.taking] at hb ⊢
      omega
    · dsimp only
      omega
    · simp only [hpc, ConsumerPc.taking] at hc ⊢
      omega
  | unlock =>
    simp only [consumerStep, hpc, Option.map_eq_some_iff] at he
    obtain ⟨m, -, rfl⟩ := he
    exact h.move (by simp [hpc]) (by simp) (by simp) (by simp)

lemma producerStep_frame (he : producerStep N s = some t) :
    t.main = s.main ∧ t.consumer = s.consumer ∧ t.consumed = s.consumed ∧
      s.available ≤ t.available ∧ t.available - t.produced = s.available - s.produced := by
  cases hpc : s.producer with
  | unborn | returned => simp [producerStep, hpc] at he
  | test | next =>
    simp only [producerStep, hpc, Option.some.injEq] at he
    subst he
    exact ⟨rfl, rfl, rfl, le_rfl, rfl⟩
  | lock | unlock =>
    simp only [producerStep, hpc, Option.map_eq_some_iff] at he
    obtain ⟨m, -, rfl⟩ := he
    exact ⟨rfl, rfl, rfl, le_rfl, rfl⟩
  | increment =>
    simp only [producerStep, hpc, Option.some.injEq] at he
    subst he
    exact ⟨rfl, rfl, rfl, by simp, by simp⟩
  | signal =>
    simp only [producerStep, hpc, Option.ite_none_left_eq_some, Option.some.injEq] at he
    obtain ⟨-, rfl⟩ := he
    exact ⟨rfl, rfl, rfl, le_rfl, rfl⟩

lemma consumerStep_frame (he : consumerStep N s = some t) :
    t.main = s.main ∧ t.producer = s.producer ∧ t.j = s.j ∧ t.produced = s.produced := by
  cases hpc : s.consumer with
  | unborn | returned => simp [consumerStep, hpc] at he
  | check =>
    simp only [consumerStep, hpc] at he
    split_ifs at he
    · obtain ⟨m, -, rfl⟩ := Option.map_eq_some_iff.mp he
      exact ⟨rfl, rfl, rfl, rfl⟩
    · obtain rfl := Option.some.inj he
      exact ⟨rfl, rfl, rfl, rfl⟩
  | lock | waiting | unlock =>
    simp only [consumerStep, hpc, Option.map_eq_some_iff] at he
    obtain ⟨m, -, rfl⟩ := he
    exact ⟨rfl, rfl, rfl, rfl⟩
  | test | drain | count | consume | take =>
    simp only [consumerStep, hpc, Option.some.injEq] at he
    subst he
    exact ⟨rfl, rfl, rfl, rfl⟩

lemma Produced.congr (h : Produced N s) (hp : t.producer = s.producer) (hj : t.j = s.j)
    (hn : t.produced = s.produced) : Produced N t := by
  obtain ⟨h₁, h₂, h₃, h₄⟩ := h
  exact ⟨by rw [hn, hj, hp, h₁], by rwa [hj], by rwa [hp, hj], by rwa [hp, hj]⟩

lemma Consumed.produce (h : Consumed N s) (hc : t.consumer = s.consumer)
    (hd : t.consumed = s.consumed) (ha : s.available ≤ t.available)
    (hn : t.available - t.produced = s.available - s.produced) : Consumed N t := by
  obtain ⟨h₁, h₂, h₃, h₄, h₅, h₆⟩ := h
  refine ⟨?_, h₂.trans ha, ?_, by rwa [hc, hd], by rwa [hc, hd], by rwa [hc, hd]⟩
  · rw [hc, hd]
    omega
  · rw [hc]
    exact fun hd => (h₃ hd).trans_le ha

lemma mainStep_conserved (h : Conserved N s) (he : mainStep s = some t) : Conserved N t := by
  obtain ⟨⟨hbp, hbc⟩, ⟨hp, hc, hm, hw, hb⟩, hprod, hcons⟩ := h
  cases hpc : s.main with
  | createProducer =>
    have hu : s.producer = .unborn := hbp hpc
    have hp' : Produced N { s with producer := .test } :=
      hprod.move (by simp [hu]) (by simp) (by simp)
    simp only [mainStep, hpc, Option.some.injEq] at he
    subst he
    exact ⟨⟨by simp, fun _ => hbc (Or.inl hpc)⟩, ⟨by simpa [hu] using hp, hc, hm, hw, hb⟩,
      hp'.congr rfl rfl rfl, hcons.produce rfl rfl le_rfl rfl⟩
  | createConsumer =>
    have hu : s.consumer = .unborn := hbc (Or.inr hpc)
    have hc' : Consumed N { s with consumer := .test } :=
      hcons.move (by simp [hu]) (by simp) (by simp) (by simp)
    simp only [mainStep, hpc, Option.some.injEq] at he
    subst he
    exact ⟨⟨by simp, by simp⟩, ⟨hp, by simpa [hu] using hc, hm, by simpa [hu] using hw, hb⟩,
      hprod.congr rfl rfl rfl, hc'.produce rfl rfl le_rfl rfl⟩
  | joinProducer | joinConsumer =>
    simp only [mainStep, hpc, Option.ite_none_right_eq_some, Option.some.injEq] at he
    obtain ⟨-, rfl⟩ := he
    exact ⟨⟨by simp, by simp⟩, ⟨hp, hc, hm, hw, hb⟩, hprod.congr rfl rfl rfl,
      hcons.produce rfl rfl le_rfl rfl⟩
  | returned => simp [mainStep, hpc] at he

lemma producerStep_conserved (h : Conserved N s) (he : producerStep N s = some t) :
    Conserved N t := by
  obtain ⟨hm, hc, hd, ha, hn⟩ := producerStep_frame he
  refine ⟨⟨fun h₀ => ?_, fun h₀ => ?_⟩, producerStep_ownership h.ownership he,
    producerStep_produced h.produced he, h.consumed.produce hc hd ha hn⟩
  · have hu : s.producer = .unborn := h.created.producer (hm ▸ h₀)
    simp [producerStep, hu] at he
  · exact hc.trans (h.created.consumer (hm ▸ h₀))

lemma signalStep_conserved {woken : Option Thread} (h : Conserved N s)
    (he : signalStep s woken = some t) : Conserved N t := by
  obtain ⟨hpc, -, m, hm, rfl⟩ := signalStep_cases he
  obtain ⟨hp, hc, hmain, hw, hb⟩ := signal_ownership h.ownership hm
  refine ⟨⟨fun h₀ => ?_, h.created.consumer⟩, ⟨by simpa [hpc] using hp, hc, hmain, hw, hb⟩,
    signal_produced h.produced hpc, h.consumed.produce rfl rfl le_rfl rfl⟩
  rw [h.created.producer h₀] at hpc
  cases hpc

lemma consumerStep_conserved (h : Conserved N s) (he : consumerStep N s = some t) :
    Conserved N t := by
  obtain ⟨hm, hp, hj, hn⟩ := consumerStep_frame he
  refine ⟨⟨fun h₀ => ?_, fun h₀ => ?_⟩, consumerStep_ownership h.ownership he,
    h.produced.congr hp hj hn, consumerStep_consumed h.consumed he⟩
  · exact hp.trans (h.created.producer (hm ▸ h₀))
  · have hu : s.consumer = .unborn := h.created.consumer (hm ▸ h₀)
    simp [consumerStep, hu] at he

lemma spurious_conserved {u : Thread} {m : Monitor Thread} (h : Conserved N s)
    (hm : s.mtx.wake u = some m) : Conserved N { s with mtx := m } := by
  obtain ⟨⟨hbp, hbc⟩, ho, hp, hc⟩ := h
  exact ⟨⟨hbp, hbc⟩, wake_ownership ho hm, hp.congr rfl rfl rfl, hc.produce rfl rfl le_rfl rfl⟩

lemma conserved_inductive (N : ℕ) : (system N).Inductive (Conserved N) where
  initial := by
    rintro _ rfl
    exact start_conserved
  step s l t h he := by
    cases l with
    | main => exact mainStep_conserved h he
    | producer => exact producerStep_conserved h he
    | signal woken => exact signalStep_conserved h he
    | consumer => exact consumerStep_conserved h he
    | spurious u =>
      obtain ⟨m, hm, rfl⟩ := Option.map_eq_some_iff.mp he
      exact spurious_conserved h hm

lemma Produced.le (h : Produced N s) : s.produced ≤ N := by
  have hn := h.count
  have hb := h.bound
  have hl := h.inLoop
  cases hpc : s.producer <;> simp [hpc] at hn hl <;> omega

-- With `N ≤ INT_MAX` none of the source's int counters overflows.
theorem counters_bounded (h : (system N).Reachable s) :
    (0 ≤ s.available ∧ s.available ≤ N) ∧ 0 ≤ s.consumed ∧ s.consumed ≤ N := by
  obtain ⟨-, -, hp, hb, ha, hd, hc, -, -⟩ := (conserved_inductive N).reachable h
  have hle : s.produced ≤ N := hp.le
  cases hpc : s.consumer with
  | take =>
    have hpos : 0 < s.available := hd (by simp [hpc])
    simp only [hpc, ConsumerPc.taking] at hb hc
    omega
  | _ =>
    simp only [hpc, ConsumerPc.taking] at hb hc
    omega

theorem conservation_and_exit (N : ℕ) (s : State) (h : (system N).Reachable s) :
    (s.mtx.owner = none →
      0 ≤ s.available ∧ s.available + s.consumed = s.produced ∧ s.produced ≤ N) ∧
    (s.consumer = .returned → s.produced = N ∧ s.consumed = N ∧ s.available = 0) := by
  obtain ⟨-, ho, hp, hc⟩ := (conserved_inductive N).reachable h
  have hle : s.produced ≤ N := hp.le
  constructor
  · intro hm
    have ht : s.consumer.taking = 0 := by
      have hh := ho.consumer
      cases hpc : s.consumer <;> simp [hm, hpc] at hh ⊢
    have hb := hc.balance
    rw [ht, add_zero] at hb
    exact ⟨hc.available, hb, hle⟩
  · intro hr
    have hd : s.consumed = N := hc.returned hr
    have ha : 0 ≤ s.available := hc.available
    have hb : s.available + s.consumed = s.produced := by simpa [hr] using hc.balance
    exact ⟨by omega, hd, by omega⟩

theorem conservation_and_exit_one : ∃ s, (system 1).Reachable s ∧ s.consumer = .returned ∧
    s.produced = (1 : ℕ) ∧ s.consumed = (1 : ℕ) ∧ s.available = 0 := by
  have hrun : ((system 1).exec start
      ([.main, .main] ++ List.replicate 4 .producer ++ [.signal none, .producer, .producer] ++
        List.replicate 10 .consumer)).map State.consumer = some .returned := by decide
  obtain ⟨s, hs, hc⟩ := System.Reachable.observe rfl hrun
  exact ⟨s, hs, hc, (conservation_and_exit 1 s hs).2 hc⟩

end UnixProgramming.ProducerConsumer
