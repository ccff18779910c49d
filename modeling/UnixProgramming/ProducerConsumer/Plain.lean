import UnixProgramming.ProducerConsumer.Builds

/-! The build without `USE_COND_VAR`, and the lines that both builds print. -/

namespace UnixProgramming.ProducerConsumer

open Library Library.Transition

namespace Plain

variable (TOTAL_COUNT : ℕ)

/-- No signal follows the unlock. -/
def producerStep (s : State) : Option State :=
  match s.producer with
  | .unlock => (s.mtx.unlock .producer).map fun m => { s with mtx := m, producer := .next }
  | _ => ProducerConsumer.producerStep TOTAL_COUNT s

/-- The inner loop follows the lock. -/
def consumerStep (s : State) : Option State :=
  match s.consumer with
  | .lock => (s.mtx.lock .consumer).map fun m => { s with mtx := m, consumer := .drain }
  | _ => ProducerConsumer.consumerStep TOTAL_COUNT s

def step (s : State) : Label → Option State
  | .main => mainStep s
  | .producer => producerStep TOTAL_COUNT s
  | .consumer => consumerStep TOTAL_COUNT s
  | .signal _ | .spurious _ => none

def system : System State Label where
  initial s := s = start
  step := step TOTAL_COUNT

def program : System (Option State) (Option Label) :=
  (system TOTAL_COUNT).stopping creating

end Plain

variable {N : ℕ} {s t : State}

namespace Plain

lemma producerStep_cases (he : producerStep N s = some t) :
    s.producer ≠ .unlock ∧ ProducerConsumer.producerStep N s = some t ∨
      s.producer = .unlock ∧ ∃ m, s.mtx.unlock .producer = some m ∧
        t = { s with mtx := m, producer := .next } := by
  cases hpc : s.producer with
  | unlock =>
    simp only [producerStep, hpc, Option.map_eq_some_iff] at he
    obtain ⟨m, hm, rfl⟩ := he
    exact Or.inr ⟨rfl, m, hm, rfl⟩
  | unborn | test | lock | increment | signal | next | returned =>
    simp only [producerStep, hpc] at he
    exact Or.inl ⟨by simp, he⟩

lemma consumerStep_cases (he : consumerStep N s = some t) :
    s.consumer ≠ .lock ∧ ProducerConsumer.consumerStep N s = some t ∨
      s.consumer = .lock ∧ ∃ m, s.mtx.lock .consumer = some m ∧
        t = { s with mtx := m, consumer := .drain } := by
  cases hpc : s.consumer with
  | lock =>
    simp only [consumerStep, hpc, Option.map_eq_some_iff] at he
    obtain ⟨m, hm, rfl⟩ := he
    exact Or.inr ⟨rfl, m, hm, rfl⟩
  | unborn | test | check | waiting | drain | count | consume | take | unlock | returned =>
    simp only [consumerStep, hpc] at he
    exact Or.inl ⟨by simp, he⟩

lemma unlock_conserved {m : Monitor Thread} (h : Conserved N s) (hpc : s.producer = .unlock)
    (hm : s.mtx.unlock .producer = some m) :
    Conserved N { s with mtx := m, producer := .next } := by
  obtain ⟨ho, ho', hb', hw'⟩ := Monitor.unlock_eq_some.mp hm
  have hfree : s.consumer.holds = false := by simpa [ho] using h.ownership.consumer
  refine ⟨⟨fun h₀ => ?_, h.created.consumer⟩, h.ownership.producer_turn hfree ho' hb' hw', ?_,
    h.consumed.produce rfl rfl le_rfl rfl⟩
  · rw [h.created.producer h₀] at hpc
    cases hpc
  · apply h.produced.move
    · simp [hpc]
    · exact fun _ => h.produced.inLoop (by simp [hpc])
    · simp

lemma lock_conserved {m : Monitor Thread} (h : Conserved N s) (hpc : s.consumer = .lock)
    (hm : s.mtx.lock .consumer = some m) :
    Conserved N { s with mtx := m, consumer := .drain } := by
  obtain ⟨⟨ho, hnb, hnw⟩, ho', hb', hw'⟩ := Monitor.lock_eq_some.mp hm
  have hfree : s.producer.holds = false := by simpa [ho] using h.ownership.producer
  refine ⟨⟨h.created.producer, fun h₀ => ?_⟩, ?_, h.produced.congr rfl rfl rfl, ?_⟩
  · rw [h.created.consumer h₀] at hpc
    cases hpc
  · apply consumer_turn hfree ho'
    · simp [hb', hw', hnb, hnw]
    · rw [hb']
      exact h.ownership.blocked
  · apply h.consumed.move
    · simp [hpc]
    · simp
    · simp
    · simp

lemma step_conserved {l : Label} (h : Conserved N s) (he : step N s l = some t) :
    Conserved N t := by
  cases l with
  | main => exact mainStep_conserved h he
  | producer =>
    rcases producerStep_cases he with ⟨-, he⟩ | ⟨hpc, m, hm, rfl⟩
    · exact producerStep_conserved h he
    · exact unlock_conserved h hpc hm
  | consumer =>
    rcases consumerStep_cases he with ⟨-, he⟩ | ⟨hpc, m, hm, rfl⟩
    · exact consumerStep_conserved h he
    · exact lock_conserved h hpc hm
  | signal u | spurious u => cases he

lemma build (N : ℕ) : Build N (system N) where
  initial s := Iff.rfl
  conserved :=
    { initial := by
        rintro _ rfl
        exact start_conserved
      step := fun s l t h he => step_conserved h he }
  step s l t h he := by
    cases l with
    | main => exact Or.inl ⟨quiet_main h he, rfl⟩
    | producer =>
      rcases producerStep_cases he with ⟨-, he⟩ | ⟨hpc, m, -, rfl⟩
      · by_cases hpc : s.producer = .increment
        · exact Or.inr (Or.inl ⟨rfl, hpc, he⟩)
        · exact Or.inl ⟨quiet_producer hpc he, if_neg hpc⟩
      · exact Or.inl ⟨⟨rfl, rfl, rfl, rfl, rfl, id⟩, if_neg (by simp [hpc])⟩
    | consumer =>
      rcases consumerStep_cases he with ⟨-, he⟩ | ⟨hpc, m, -, rfl⟩
      · by_cases hb : s.consumer.busy = true
        · exact Or.inr (Or.inr ⟨rfl, hb, he⟩)
        · refine Or.inl ⟨quiet_consumer (by simpa using hb) he, if_neg fun ht => hb ?_⟩
          rw [ht]
          rfl
      · refine Or.inl ⟨quiet_turn ?_ (by simp [hpc]) rfl rfl, if_neg (by simp [hpc])⟩
        simp [hpc, ConsumerPc.busy]
    | signal u | spurious u => cases he
  main s t he := he
  producer s t hpc he := by
    have hstep : producerStep N s = ProducerConsumer.producerStep N s := by
      cases hs : s.producer <;> simp [producerStep, hs] at hpc ⊢
    exact hstep.trans he
  consumer s t hpc he := by
    have hstep : consumerStep N s = ProducerConsumer.consumerStep N s := by
      cases hs : s.consumer <;> simp [consumerStep, hs] at hpc ⊢
    exact hstep.trans he
  unlock s m lines hpc _ hm := by
    apply System.journal_silent (l := .producer)
    · simp [system, step, producerStep, hpc, hm]
    · simp [printed, hpc]
  lock s m lines hpc _ hm := by
    apply System.journal_silent (l := .consumer)
    · simp [system, step, consumerStep, hpc, hm]
    · simp [printed, hpc]

end Plain

lemma signal_build {m : Monitor Thread} {lines : List Line} (hpc : s.producer = .unlock)
    (hb : s.mtx.blocked = ∅) (hm : s.mtx.unlock .producer = some m) :
    ((system N).journal printed).Reaches (s, lines)
      ({ s with mtx := m, producer := .next }, lines) := by
  have hmb : m.blocked = ∅ := (Monitor.unlock_eq_some.mp hm).2.2.1.trans hb
  let s₁ : State := { s with mtx := m, producer := .signal }
  have h₁ : (system N).step s .producer = some s₁ := by
    simp [system, step, producerStep, hpc, hm, s₁]
  refine (System.journal_silent h₁ (by simp [printed, hpc])).trans ?_
  by_cases hj : s.j % 10 = 0
  · apply System.journal_silent (l := .signal none)
    · simp [system, step, signalStep, Monitor.signal, hj, hmb, s₁]
    · rfl
  · apply System.journal_silent (l := .producer)
    · simp [system, step, producerStep, hj, s₁]
    · simp [printed, s₁]

lemma build (N : ℕ) : Build N (system N) where
  initial s := Iff.rfl
  conserved := conserved_inductive N
  step s l t h he := by
    cases l with
    | main => exact Or.inl ⟨quiet_main h he, rfl⟩
    | producer =>
      by_cases hpc : s.producer = .increment
      · exact Or.inr (Or.inl ⟨rfl, hpc, he⟩)
      · exact Or.inl ⟨quiet_producer hpc he, if_neg hpc⟩
    | signal woken =>
      obtain ⟨-, -, m, -, rfl⟩ := signalStep_cases he
      exact Or.inl ⟨⟨rfl, rfl, rfl, rfl, rfl, id⟩, rfl⟩
    | consumer =>
      by_cases hb : s.consumer.busy = true
      · exact Or.inr (Or.inr ⟨rfl, hb, he⟩)
      · refine Or.inl ⟨quiet_consumer (by simpa using hb) he, if_neg fun ht => hb ?_⟩
        rw [ht]
        rfl
    | spurious u =>
      obtain ⟨m, -, rfl⟩ := Option.map_eq_some_iff.mp he
      exact Or.inl ⟨⟨rfl, rfl, rfl, rfl, rfl, id⟩, rfl⟩
  main s t he := he
  producer s t _ he := he
  consumer s t _ he := he
  unlock s m lines hpc hb hm := signal_build hpc hb hm
  lock s m lines hpc ha hm := by
    let s₁ : State := { s with mtx := m, consumer := .check }
    have h₁ : (system N).step s .consumer = some s₁ := by
      simp [system, step, consumerStep, hpc, hm, s₁]
    refine (System.journal_silent h₁ (by simp [printed, hpc])).trans ?_
    apply System.journal_silent (l := .consumer)
    · simp [system, step, consumerStep, s₁]
      omega
    · simp [printed, s₁]

/-- The condition variable changes nothing in what the two loops can print. Both builds print
the lines of the ledgers. -/
theorem builds_print_alike (N : ℕ) (lines : List Line) :
    ((∃ s, ((system N).journal printed).Reachable (s, lines)) ↔
      ∃ b, (Ledger.journal N).Reachable (b, lines)) ∧
    ((∃ s, ((Plain.system N).journal printed).Reachable (s, lines)) ↔
      ∃ b, (Ledger.journal N).Reachable (b, lines)) :=
  ⟨(build N).prints_iff, (Plain.build N).prints_iff⟩

end UnixProgramming.ProducerConsumer
