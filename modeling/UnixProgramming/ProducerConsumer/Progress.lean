import UnixProgramming.ProducerConsumer.Builds
import UnixProgramming.ProducerConsumer.Wakeup

/-! What brings a build to its end. As long as a unit is to come or the consumer is awake, some
thread has a step that is closer to it. -/

namespace UnixProgramming.ProducerConsumer

open Library Library.Transition

variable {N : ℕ} {s t : State} {m : Monitor Thread} {M : System State Label} {P : State → Prop}

def MainPc.left : MainPc → ℕ
  | .createProducer => 4
  | .createConsumer => 3
  | .joinProducer => 2
  | .joinConsumer => 1
  | .returned => 0

def ProducerPc.left : ProducerPc → ℕ
  | .unborn => 7
  | .test => 6
  | .lock => 5
  | .increment => 4
  | .unlock => 3
  | .signal => 2
  | .next => 1
  | .returned => 0

-- The last way through the loops of the consumer, with `available` units to take.
def ConsumerPc.left (available : ℕ) : ConsumerPc → ℕ
  | .unborn => 4 * available + 9
  | .test => if available = 0 then 1 else 4 * available + 8
  | .lock | .waiting => 4 * available + 7
  | .check => if available = 0 then 9 else 4 * available + 6
  | .drain => 4 * available + 5
  | .count | .unlock => 4 * available + 4
  | .consume => 4 * available + 3
  | .take => 4 * available + 2
  | .returned => 0

lemma ConsumerPc.left_succ (pc : ConsumerPc) (a : ℕ) : pc.left (a + 1) ≤ pc.left a + 11 := by
  cases pc with
  | test | check =>
    simp only [ConsumerPc.left]
    split_ifs <;> omega
  | unborn | lock | waiting | drain | count | consume | take | unlock | returned =>
    simp only [ConsumerPc.left]
    omega

-- A unit that is added costs less than the round of the producer that adds it.
def left (N : ℕ) (s : State) : ℕ :=
  16 * (8 * (N - s.j) + s.producer.left) + s.consumer.left s.available.toNat +
    (if .consumer ∈ s.mtx.blocked then 1 else 0) + s.main.left

/-- A thread has a step that is closer to the end, and needs no spurious wakeup for it. -/
def Advances (N : ℕ) (M : System State Label) (s : State) : Prop :=
  ∃ l t, (∀ u, l ≠ .spurious u) ∧ M.step s l = some t ∧ left N t < left N s

structure Lively (s : State) : Prop where
  producer : s.main ≠ .createProducer → s.producer ≠ .unborn
  consumer : s.main ≠ .createProducer → s.main ≠ .createConsumer → s.consumer ≠ .unborn
  woken : ∀ u ∈ s.mtx.woken, u = .consumer
  drained : s.consumer = .unlock → s.available ≤ 0
  joined : s.main = .returned → s.consumer = .returned

section Kept

lemma start_lively : Lively start where
  producer h := absurd rfl h
  consumer h := absurd rfl h
  woken := by simp [start]
  drained h := by cases h
  joined h := by cases h

lemma mainStep_lively (h : Lively s) (he : mainStep s = some t) : Lively t := by
  obtain ⟨hp, hc, hw, hd, -⟩ := h
  cases hpc : s.main with
  | createProducer =>
    simp only [mainStep, hpc, Option.some.injEq] at he
    subst he
    exact ⟨fun _ => by simp, fun _ h => absurd rfl h, hw, hd, by simp⟩
  | createConsumer =>
    simp only [mainStep, hpc, Option.some.injEq] at he
    subst he
    exact ⟨fun _ => hp (by simp [hpc]), fun _ _ => by simp, hw, by simp, by simp⟩
  | joinProducer =>
    simp only [mainStep, hpc, Option.ite_none_right_eq_some, Option.some.injEq] at he
    obtain ⟨-, rfl⟩ := he
    exact ⟨fun _ => hp (by simp [hpc]), fun _ _ => hc (by simp [hpc]) (by simp [hpc]), hw, hd,
      by simp⟩
  | joinConsumer =>
    simp only [mainStep, hpc, Option.ite_none_right_eq_some, Option.some.injEq] at he
    obtain ⟨hr, rfl⟩ := he
    exact ⟨fun _ => hp (by simp [hpc]), fun _ _ => hc (by simp [hpc]) (by simp [hpc]), hw, hd,
      fun _ => hr⟩
  | returned => simp [mainStep, hpc] at he

lemma Lively.producer_turn (h : Lively s) {pc : ProducerPc} {j : ℕ} (hpc : pc ≠ .unborn)
    (hw : m.woken = s.mtx.woken) : Lively { s with mtx := m, producer := pc, j := j } where
  producer _ := hpc
  consumer := h.consumer
  woken u hu := h.woken u (hw ▸ hu)
  drained := h.drained
  joined := h.joined

lemma producerStep_lively (hc : Conserved N s) (h : Lively s) (he : producerStep N s = some t) :
    Lively t := by
  cases hpc : s.producer with
  | unborn | returned => simp [producerStep, hpc] at he
  | test =>
    simp only [producerStep, hpc, Option.some.injEq] at he
    subst he
    by_cases hj : s.j < N
    · exact h.producer_turn (by simp [hj]) rfl
    · exact h.producer_turn (by simp [hj]) rfl
  | lock =>
    simp only [producerStep, hpc, Option.map_eq_some_iff] at he
    obtain ⟨m, hm, rfl⟩ := he
    exact h.producer_turn (by simp) (Monitor.lock_eq_some.mp hm).2.2.2
  | increment =>
    have howner : s.mtx.owner = some .producer := hc.ownership.producer.mpr (by simp [hpc])
    have hfree : s.consumer.holds = false := by
      have hh := hc.ownership.consumer
      simpa [howner] using hh
    simp only [producerStep, hpc, Option.some.injEq] at he
    subst he
    refine ⟨fun _ => by simp, h.consumer, h.woken, fun hu => ?_, h.joined⟩
    have hu' : s.consumer = .unlock := hu
    simp [hu'] at hfree
  | unlock =>
    simp only [producerStep, hpc, Option.map_eq_some_iff] at he
    obtain ⟨m, hm, rfl⟩ := he
    exact h.producer_turn (by simp) (Monitor.unlock_eq_some.mp hm).2.2.2
  | signal =>
    simp only [producerStep, hpc, Option.ite_none_left_eq_some, Option.some.injEq] at he
    obtain ⟨-, rfl⟩ := he
    exact h.producer_turn (by simp) rfl
  | next =>
    simp only [producerStep, hpc, Option.some.injEq] at he
    subst he
    exact h.producer_turn (by simp) rfl

lemma wake_lively {u : Thread} (hc : Conserved N s) (h : Lively s) (hm : s.mtx.wake u = some m) :
    Lively { s with mtx := m } := by
  obtain ⟨hu, -, -, hw⟩ := Monitor.wake_eq_some.mp hm
  obtain rfl := hc.ownership.blocked u hu
  refine ⟨h.producer, h.consumer, fun v hv => ?_, h.drained, h.joined⟩
  rcases Finset.mem_insert.mp (hw ▸ hv) with rfl | hv
  · rfl
  · exact h.woken v hv

lemma signalStep_lively {u : Option Thread} (hc : Conserved N s) (h : Lively s)
    (he : signalStep s u = some t) : Lively t := by
  obtain ⟨-, -, m, hm, rfl⟩ := signalStep_cases he
  have hl : Lively { s with mtx := m } := by
    cases u with
    | none =>
      obtain ⟨-, rfl⟩ := Monitor.signal_none.mp hm
      exact h
    | some u => exact wake_lively hc h hm
  have hnext : Lively { s with mtx := m, producer := .next } := hl.producer_turn (by simp) rfl
  exact hnext

lemma Lively.consumer_turn (h : Lively s) {pc : ConsumerPc} (hj : s.main ≠ .returned)
    (hpc : pc ≠ .unborn) (hw : m.woken ⊆ s.mtx.woken) (hd : pc = .unlock → s.available ≤ 0) :
    Lively { s with mtx := m, consumer := pc } where
  producer := h.producer
  consumer _ _ := hpc
  woken u hu := h.woken u (hw hu)
  drained := hd
  joined hr := absurd hr hj

lemma consumerStep_lively (h : Lively s) (he : consumerStep N s = some t) : Lively t := by
  have hj : s.main ≠ .returned := by
    intro hr
    simp [consumerStep, h.joined hr] at he
  cases hpc : s.consumer with
  | unborn | returned => simp [consumerStep, hpc] at he
  | test =>
    simp only [consumerStep, hpc, Option.some.injEq] at he
    subst he
    by_cases hN : s.consumed ≠ N
    · exact h.consumer_turn hj (by simp [hN]) subset_rfl (by simp [hN])
    · exact h.consumer_turn hj (by simp [hN]) subset_rfl (by simp [hN])
  | lock =>
    simp only [consumerStep, hpc, Option.map_eq_some_iff] at he
    obtain ⟨m, hm, rfl⟩ := he
    exact h.consumer_turn hj (by simp) (Monitor.lock_eq_some.mp hm).2.2.2.subset (by simp)
  | check =>
    simp only [consumerStep, hpc] at he
    split_ifs at he
    · obtain ⟨m, hm, rfl⟩ := Option.map_eq_some_iff.mp he
      exact h.consumer_turn hj (by simp) (Monitor.wait_eq_some.mp hm).2.2.2.subset (by simp)
    · obtain rfl := Option.some.inj he
      exact h.consumer_turn hj (by simp) subset_rfl (by simp)
  | waiting =>
    simp only [consumerStep, hpc, Option.map_eq_some_iff] at he
    obtain ⟨m, hm, rfl⟩ := he
    have hw : m.woken ⊆ s.mtx.woken := by
      rw [(Monitor.resume_eq_some.mp hm).2.2.2]
      exact Finset.erase_subset _ _
    exact h.consumer_turn hj (by simp) hw (by simp)
  | drain =>
    simp only [consumerStep, hpc, Option.some.injEq] at he
    subst he
    by_cases ha : s.available > 0
    · exact h.consumer_turn hj (by simp [ha]) subset_rfl (by simp [ha])
    · exact h.consumer_turn hj (by simp [ha]) subset_rfl fun _ => not_lt.mp ha
  | count | consume | take =>
    simp only [consumerStep, hpc, Option.some.injEq] at he
    subst he
    exact ⟨h.producer, fun _ _ => by simp, h.woken, by simp, fun hr => absurd hr hj⟩
  | unlock =>
    simp only [consumerStep, hpc, Option.map_eq_some_iff] at he
    obtain ⟨m, hm, rfl⟩ := he
    exact h.consumer_turn hj (by simp) (Monitor.unlock_eq_some.mp hm).2.2.2.subset (by simp)

end Kept

section Advancing

/-- How the threads of a build get on where it synchronises them, in the states of an
invariant `P`. -/
structure Moves (N : ℕ) (M : System State Label) (P : State → Prop) : Prop where
  build : Build N M
  conserved : ∀ s, P s → Conserved N s
  lively : ∀ s, P s → Lively s
  unlock : ∀ s, P s → s.producer = .unlock → Advances N M s
  signal : ∀ s, P s → s.producer = .signal → Advances N M s
  lock : ∀ s, P s → s.consumer = .lock → s.mtx.owner = none → 0 < s.available → Advances N M s
  resume : ∀ s, P s → .consumer ∈ s.mtx.woken → s.mtx.owner = none → 0 < s.available →
    Advances N M s

lemma Build.main_advances (h : Build N M) (he : mainStep s = some t)
    (hlt : left N t < left N s) : Advances N M s :=
  ⟨.main, t, by simp, h.main s t he, hlt⟩

lemma Build.producer_advances (h : Build N M) (hpc : s.producer ≠ .unlock)
    (he : producerStep N s = some t) (hlt : left N t < left N s) : Advances N M s :=
  ⟨.producer, t, by simp, h.producer s t hpc he, hlt⟩

lemma Build.consumer_advances (h : Build N M) (hpc : s.consumer ≠ .lock)
    (he : consumerStep N s = some t) (hlt : left N t < left N s) : Advances N M s :=
  ⟨.consumer, t, by simp, h.consumer s t hpc he, hlt⟩

lemma Moves.consumer_inside (h : Moves N M P) (hs : P s) (hh : s.consumer.holds = true) :
    Advances N M s := by
  have hc := h.conserved s hs
  have howner : s.mtx.owner = some .consumer := hc.ownership.consumer.mpr hh
  have hawake : .consumer ∉ s.mtx.blocked := (s.mtx.awake _ howner).1
  have hnonneg := hc.consumed.available
  have hstep : ∀ t, consumerStep N s = some t → left N t < left N s → Advances N M s :=
    fun t he hlt => h.build.consumer_advances (by rintro hl; simp [hl] at hh) he hlt
  cases hpc : s.consumer with
  | unborn | test | lock | waiting | returned => simp [hpc] at hh
  | check =>
    by_cases ha : s.available = 0
    · obtain ⟨m, hm⟩ := Monitor.exists_wait howner
      obtain ⟨-, -, hb, -⟩ := Monitor.wait_eq_some.mp hm
      refine hstep { s with mtx := m, consumer := .waiting } ?_ ?_
      · simp [consumerStep, hpc, ha, hm]
      · simp [left, hpc, ha, hb, hawake, ConsumerPc.left]
    · have hsome : ¬ s.available ≤ 0 := by omega
      refine hstep { s with consumer := .drain } ?_ ?_
      · simp [consumerStep, hpc, ha]
      · simp [left, hpc, hsome, ConsumerPc.left]
  | drain =>
    refine hstep _ (by simp only [consumerStep, hpc]; rfl) ?_
    by_cases ha : s.available > 0
    · simp [left, hpc, ha, ConsumerPc.left]
    · simp [left, hpc, ha, ConsumerPc.left]
  | count | consume =>
    refine hstep _ (by simp only [consumerStep, hpc]; rfl) ?_
    simp [left, hpc, ConsumerPc.left]
  | take =>
    have hpos : 0 < s.available := hc.consumed.draining (by simp [hpc])
    refine hstep _ (by simp only [consumerStep, hpc]; rfl) ?_
    simp only [left, hpc, ConsumerPc.left]
    omega
  | unlock =>
    obtain ⟨m, hm⟩ : ∃ m, s.mtx.unlock .consumer = some m := by
      simp [Monitor.unlock, howner]
    obtain ⟨-, -, hb, -⟩ := Monitor.unlock_eq_some.mp hm
    have hzero : s.available ≤ 0 := (h.lively s hs).drained hpc
    refine hstep { s with mtx := m, consumer := .test } ?_ ?_
    · simp [consumerStep, hpc, hm]
    · simp [left, hpc, hb, hzero, ConsumerPc.left]

lemma Moves.producer_inside (h : Moves N M P) (hs : P s) (hh : s.consumer.holds = false)
    (hp : s.producer ≠ .unborn ∧ s.producer ≠ .returned) : Advances N M s := by
  have hc := h.conserved s hs
  have hloop := hc.produced.inLoop
  have hstep : s.producer ≠ .unlock → ∀ t, producerStep N s = some t → left N t < left N s →
      Advances N M s := fun hpc t he hlt => h.build.producer_advances hpc he hlt
  cases hpc : s.producer with
  | unborn => exact absurd hpc hp.1
  | returned => exact absurd hpc hp.2
  | unlock => exact h.unlock s hs hpc
  | signal => exact h.signal s hs hpc
  | test =>
    refine hstep (by simp [hpc]) _ (by simp only [producerStep, hpc]; rfl) ?_
    by_cases hj : s.j < N
    · simp [left, hpc, hj, ProducerPc.left]
    · simp [left, hpc, hj, ProducerPc.left]
  | lock =>
    have ho : s.mtx.owner = none := hc.ownership.free (by simp [hpc]) hh
    have hnb : .producer ∉ s.mtx.blocked := fun hb => by
      simpa using hc.ownership.blocked _ hb
    have hnw : .producer ∉ s.mtx.woken := fun hw => by
      simpa using (h.lively s hs).woken _ hw
    obtain ⟨m, hm, -⟩ := Monitor.lock_unlock ho hnb hnw
    obtain ⟨-, -, hb, -⟩ := Monitor.lock_eq_some.mp hm
    refine hstep (by simp [hpc]) { s with mtx := m, producer := .increment } ?_ ?_
    · simp [producerStep, hpc, hm]
    · simp [left, hpc, hb, ProducerPc.left]
  | increment =>
    refine hstep (by simp [hpc]) _ (by simp only [producerStep, hpc]; rfl) ?_
    have hnonneg := hc.consumed.available
    have hnat : (s.available + 1).toNat = s.available.toNat + 1 := by omega
    have hgrow := s.consumer.left_succ s.available.toNat
    simp only [left, hpc, ProducerPc.left, hnat]
    omega
  | next =>
    have hj : s.j < N := hloop (by simp [hpc])
    refine hstep (by simp [hpc]) _ (by simp only [producerStep, hpc]; rfl) ?_
    simp only [left, hpc, ProducerPc.left]
    omega

/-- When all units have been added, the consumer finds the ones that it has not taken, unless
it is blocked. -/
lemma Moves.consumer_last (h : Moves N M P) (hs : P s) (hh : s.consumer.holds = false)
    (hp : s.producer = .returned) (hpc : s.consumer ≠ .unborn ∧ s.consumer ≠ .returned)
    (hb : .consumer ∉ s.mtx.blocked) : Advances N M s := by
  have hc := h.conserved s hs
  have ho : s.mtx.owner = none := hc.ownership.free (by simp [hp]) hh
  have hbal := hc.settled hh
  have hall : s.produced = N := by
    have hcount := hc.produced.count
    rw [hc.produced.returned hp, hp] at hcount
    simpa using hcount
  have hle : s.consumed ≤ N := by
    have hnonneg := hc.consumed.available
    omega
  have hsome : s.consumed ≠ N → 0 < s.available := by omega
  cases hs' : s.consumer with
  | unborn => exact absurd hs' hpc.1
  | returned => exact absurd hs' hpc.2
  | check | drain | count | consume | take | unlock => simp [hs'] at hh
  | waiting =>
    have hwoken : .consumer ∈ s.mtx.woken := (hc.ownership.waiting.mpr hs').resolve_left hb
    exact h.resume s hs hwoken ho (hsome (hc.consumed.entering (by simp [hs'])))
  | lock => exact h.lock s hs hs' ho (hsome (hc.consumed.entering (by simp [hs'])))
  | test =>
    by_cases hN : s.consumed = N
    · refine h.build.consumer_advances (by simp [hs']) (t := { s with consumer := .returned }) ?_ ?_
      · simp [consumerStep, hs', hN]
      · simp only [left, hs', ConsumerPc.left]
        split_ifs <;> omega
    · have hne : ¬ s.available ≤ 0 := not_le.mpr (hsome hN)
      refine h.build.consumer_advances (by simp [hs']) (t := { s with consumer := .lock }) ?_ ?_
      · simp [consumerStep, hs', hN]
      · simp [left, hs', ConsumerPc.left, hne]

lemma Moves.main_turn (h : Moves N M P) (hs : P s) (hm : s.main ≠ .returned)
    (hp : s.main = .joinProducer → s.producer = .returned)
    (hcons : s.main = .joinConsumer → s.consumer = .returned) : Advances N M s := by
  have hc := h.conserved s hs
  cases hpc : s.main with
  | returned => exact absurd hpc hm
  | createProducer =>
    have hu : s.producer = .unborn := hc.created.producer hpc
    refine h.build.main_advances (by simp only [mainStep, hpc]; rfl) ?_
    simp only [left, hpc, hu, ProducerPc.left, MainPc.left]
    omega
  | createConsumer =>
    have hu : s.consumer = .unborn := hc.created.consumer (Or.inr hpc)
    refine h.build.main_advances (by simp only [mainStep, hpc]; rfl) ?_
    simp only [left, hpc, hu, ConsumerPc.left, MainPc.left]
    split_ifs <;> omega
  | joinProducer =>
    refine h.build.main_advances (by simp only [mainStep, hpc, hp hpc, if_true]; rfl) ?_
    simp [left, hpc, hp hpc, MainPc.left]
  | joinConsumer =>
    refine h.build.main_advances (by simp only [mainStep, hpc, hcons hpc, if_true]; rfl) ?_
    simp [left, hpc, hcons hpc, MainPc.left]

/-- Only the lost wakeup holds a build up. -/
lemma Moves.advances (h : Moves N M P) (hs : P s) (hm : s.main ≠ .returned) :
    Advances N M s ∨ s.main = .joinConsumer ∧ LostWakeup N s := by
  have hc := h.conserved s hs
  have hl := h.lively s hs
  by_cases hcreate : s.main = .createProducer ∨ s.main = .createConsumer
  · left
    apply h.main_turn hs hm
    · rintro hj
      simp [hj] at hcreate
    · rintro hj
      simp [hj] at hcreate
  · rw [not_or] at hcreate
    have hborn := hl.producer hcreate.1
    have hborn' := hl.consumer hcreate.1 hcreate.2
    cases hh : s.consumer.holds with
    | true => exact Or.inl (h.consumer_inside hs hh)
    | false =>
      by_cases hp : s.producer = .returned
      · by_cases hjoin : s.main = .joinConsumer
        · by_cases hr : s.consumer = .returned
          · exact Or.inl (h.main_turn hs hm (fun _ => hp) fun _ => hr)
          · by_cases hb : .consumer ∈ s.mtx.blocked
            · have hwait : s.consumer = .waiting := hc.ownership.waiting.mp (Or.inl hb)
              have hne : s.consumed ≠ N := hc.consumed.entering (by simp [hwait])
              have hbal := hc.settled hh
              have hnonneg := hc.consumed.available
              have hle := hc.produced.le
              exact Or.inr ⟨hjoin, hp, hb, by omega⟩
            · exact Or.inl (h.consumer_last hs hh hp ⟨hborn', hr⟩ hb)
        · exact Or.inl (h.main_turn hs hm (fun _ => hp) fun hj => absurd hj hjoin)
      · exact Or.inl (h.producer_inside hs hh ⟨hborn, hp⟩)

end Advancing

end UnixProgramming.ProducerConsumer
