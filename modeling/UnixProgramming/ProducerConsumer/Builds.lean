import UnixProgramming.ProducerConsumer.Ledger

/-! What the builds with and without condition variable have in common: their lines are the
lines of a ledger, and they print those of every ledger. -/

namespace UnixProgramming.ProducerConsumer

open Library Library.Transition

variable {N : ℕ} {s t : State} {b b' : Ledger} {l : Label} {lines : List Line}
  {M : System State Label}

/-- A build synchronises its threads in its own way, and keeps the account as the source
does. The fields `unlock` and `lock` are about a run in which no thread waits. -/
structure Build (N : ℕ) (M : System State Label) : Prop where
  initial : ∀ s, M.initial s ↔ s = start
  conserved : M.Inductive (Conserved N)
  step : ∀ s l t, Conserved N s → M.step s l = some t →
    Quiet s t ∧ printed s l = none ∨
      l = .producer ∧ s.producer = .increment ∧ producerStep N s = some t ∨
      l = .consumer ∧ s.consumer.busy = true ∧ consumerStep N s = some t
  main : ∀ s t, mainStep s = some t → M.step s .main = some t
  producer : ∀ s t, s.producer ≠ .unlock → producerStep N s = some t → M.step s .producer = some t
  consumer : ∀ s t, s.consumer ≠ .lock → consumerStep N s = some t → M.step s .consumer = some t
  unlock : ∀ s m lines, s.producer = .unlock → s.mtx.blocked = ∅ →
    s.mtx.unlock .producer = some m → (M.journal printed).Reaches (s, lines)
      ({ s with mtx := m, producer := .next }, lines)
  lock : ∀ s m lines, s.consumer = .lock → 0 < s.available → s.mtx.lock .consumer = some m →
    (M.journal printed).Reaches (s, lines) ({ s with mtx := m, consumer := .drain }, lines)

section Shown

lemma Conserved.settled (h : Conserved N s) (hs : s.consumer.holds = false) :
    s.available + s.consumed = s.produced := by
  have ht : s.consumer.taking = 0 := by
    cases hpc : s.consumer <;> simp [hpc] at hs ⊢
  have hb := h.consumed.balance
  rw [ht, add_zero] at hb
  exact hb

lemma produce_books (h : Conserved N s) (hb : Books s b) (hpc : s.producer = .increment)
    (he : producerStep N s = some t) : ∃ b', b.enter N .produce = some b' ∧
      printed s .producer = some (b.line .produce) ∧ Books t b' := by
  have howner : s.mtx.owner = some .producer := h.ownership.producer.mpr (by simp [hpc])
  have hfree : s.consumer.holds = false := by
    have hc := h.ownership.consumer
    simpa [howner] using hc
  have hidle : b.draining = false := by
    by_contra hd
    have hbusy := (hb.draining (by simpa using hd)).1
    cases hs : s.consumer <;> simp [hs, ConsumerPc.busy] at hbusy hfree
  have hj : s.j < N := h.produced.inLoop (by simp [hpc])
  have hcount : s.produced = s.j := by simpa [hpc] using h.produced.count
  have hbal := h.settled hfree
  have htaking : s.consumer.taking = 0 := by
    cases hs : s.consumer <;> simp [hs] at hfree ⊢
  have hcons : (b.consumed : ℤ) = s.consumed := by
    have hc := hb.consumed
    rwa [htaking, add_zero] at hc
  have hlt : b.produced < N := by
    rw [hb.produced, hcount]
    exact hj
  simp only [producerStep, hpc, Option.some.injEq] at he
  subst he
  refine ⟨{ b with produced := b.produced + 1 }, if_pos ⟨hidle, hlt⟩, ?_, ?_⟩
  · have hline : s.available + 1 = b.produced + 1 - b.consumed := by
      rw [hb.produced]
      omega
    have hjp : s.j = b.produced := by rw [hb.produced, hcount]
    simp only [printed, hpc, if_true, Ledger.line, hcons, hline, hjp]
  · refine ⟨?_, hb.consumed, hb.count, fun hd => ?_⟩
    · dsimp only
      rw [hb.produced]
    · rw [hidle] at hd
      cases hd

lemma take_books (h : Conserved N s) (hb : Books s b) (hpc : s.consumer = .take)
    (he : consumerStep N s = some t) : ∃ b', b.enter N .consume = some b' ∧
      printed s .consumer = some (b.line .consume) ∧ Books t b' := by
  have hcons : (b.consumed : ℤ) + 1 = s.consumed := by simpa [hpc] using hb.consumed
  have hcount : (b.consumed : ℤ) + 1 = s.i := by
    simpa [hpc, ConsumerPc.counted] using hb.count
  have hbal : s.available + s.consumed = s.produced + 1 := by
    simpa [hpc] using h.consumed.balance
  have hpos : 0 < s.available := h.consumed.draining (by simp [hpc])
  have hprod := hb.produced
  have hlt : b.consumed < b.produced := by omega
  simp only [consumerStep, hpc, Option.some.injEq] at he
  subst he
  refine ⟨_, if_pos hlt, ?_, ?_⟩
  · have hline : s.available - 1 = b.produced - (b.consumed + 1) := by omega
    have hi : s.i = s.consumed := hcount.symm.trans hcons
    simp only [printed, hpc, if_true, Ledger.line, hcons, hi, hline]
  · refine ⟨hb.produced, ?_, ?_, fun hd => ⟨rfl, by simpa using hd⟩⟩
    · push_cast
      simpa using hcons
    · push_cast
      simpa [ConsumerPc.counted] using hcount

lemma busy_books (h : Conserved N s) (hb : Books s b) (hpc : s.consumer.busy = true)
    (hne : s.consumer ≠ .take) (he : consumerStep N s = some t) :
    printed s .consumer = none ∧ Books t b := by
  refine ⟨if_neg hne, ?_⟩
  have hc := hb.consumed
  have hi := hb.count
  cases hs : s.consumer with
  | take => exact absurd hs hne
  | drain =>
    have hbal : s.available + s.consumed = s.produced := by simpa [hs] using h.consumed.balance
    have hprod := hb.produced
    simp only [consumerStep, hs, Option.some.injEq] at he
    simp only [hs, ConsumerPc.taking, ConsumerPc.counted] at hc hi
    subst he
    by_cases ha : s.available > 0
    · rw [if_pos ha]
      exact ⟨hb.produced, hc, hi, fun hd => ⟨rfl, (hb.draining hd).2⟩⟩
    · rw [if_neg ha]
      refine ⟨hb.produced, hc, hi, fun hd => ?_⟩
      have hlt := (hb.draining hd).2
      omega
  | count =>
    simp only [consumerStep, hs, Option.some.injEq] at he
    simp only [hs, ConsumerPc.taking, ConsumerPc.counted] at hc hi
    subst he
    refine ⟨hb.produced, hc, ?_, fun hd => ⟨rfl, (hb.draining hd).2⟩⟩
    simpa [ConsumerPc.counted] using hi
  | consume =>
    simp only [consumerStep, hs, Option.some.injEq] at he
    simp only [hs, ConsumerPc.taking, ConsumerPc.counted] at hc hi
    subst he
    refine ⟨hb.produced, ?_, hi, fun hd => ⟨rfl, (hb.draining hd).2⟩⟩
    simpa using hc
  | unborn | test | lock | check | waiting | unlock | returned => simp [hs, ConsumerPc.busy] at hpc

lemma Build.shown (h : Build N M) : System.Simulates M (Ledger.system N) printed
    (fun b a => some (b.line a)) fun s b => Conserved N s ∧ Books s b where
  initial s hs := by
    rw [(h.initial s).mp hs]
    exact ⟨.empty, rfl, start_conserved, start_books⟩
  step := by
    rintro s l t b ⟨hc, hb⟩ he
    have hc' : Conserved N t := h.conserved.step s l t hc he
    have hentry : ∀ {a b'}, b.enter N a = some b' → ∀ lines, (Ledger.journal N).Reaches
        (b, lines) (b', lines ++ [b.line a]) := fun ha lines => System.journal_reaches ha
    rcases h.step s l t hc he with ⟨hq, hnone⟩ | ⟨rfl, hpc, hp⟩ | ⟨rfl, hpc, hp⟩
    · refine ⟨b, ⟨hc', hb.quiet hq⟩, fun lines => ?_⟩
      rw [hnone]
      simpa using System.Reaches.refl
    · obtain ⟨b', hb', hline, hbooks⟩ := produce_books hc hb hpc hp
      refine ⟨b', ⟨hc', hbooks⟩, fun lines => ?_⟩
      rw [hline]
      exact hentry hb' lines
    · by_cases hne : s.consumer = .take
      · obtain ⟨b', hb', hline, hbooks⟩ := take_books hc hb hne hp
        refine ⟨b', ⟨hc', hbooks⟩, fun lines => ?_⟩
        rw [hline]
        exact hentry hb' lines
      · obtain ⟨hnone, hbooks⟩ := busy_books hc hb hpc hne hp
        refine ⟨b, ⟨hc', hbooks⟩, fun lines => ?_⟩
        rw [hnone]
        simpa using System.Reaches.refl

end Shown

section Realised

/-- Both loops run and no thread waits. The consumer is inside its critical section while the
ledger is being drained, and at its loop test otherwise. -/
structure Resting (N : ℕ) (s : State) (b : Ledger) : Prop where
  conserved : Conserved N s
  books : Books s b
  producer : s.producer = .test
  blocked : s.mtx.blocked = ∅
  woken : s.mtx.woken = ∅
  consumer : s.consumer = if b.draining = true then .drain else .test

/-- The run that creates the threads has been made, or it can be made in silence. -/
def Rests (N : ℕ) (M : System State Label) (b : Ledger) (s : State) : Prop :=
  ∃ s', Resting N s' b ∧ ∀ lines, (M.journal printed).Reaches (s, lines) (s', lines)

lemma Ownership.free (h : Ownership s) (hp : s.producer.holds = false)
    (hc : s.consumer.holds = false) : s.mtx.owner = none := by
  cases ho : s.mtx.owner with
  | none => rfl
  | some u =>
    cases u with
    | main => exact absurd ho h.main
    | producer => exact absurd (hp.symm.trans (h.producer.mp ho)) (by decide)
    | consumer => exact absurd (hc.symm.trans (h.consumer.mp ho)) (by decide)

lemma Build.silent (h : Build N M) (hp : s.producer ≠ .unlock) (hi : s.producer ≠ .increment)
    (he : producerStep N s = some t) (lines : List Line) :
    (M.journal printed).Reaches (s, lines) (t, lines) :=
  System.journal_silent (h.producer s t hp he) (if_neg hi)

lemma Build.quietly (h : Build N M) (hl : s.consumer ≠ .lock) (ht : s.consumer ≠ .take)
    (he : consumerStep N s = some t) (lines : List Line) :
    (M.journal printed).Reaches (s, lines) (t, lines) :=
  System.journal_silent (h.consumer s t hl he) (if_neg ht)

lemma Build.start_rests (h : Build N M) : Rests N M .empty start := by
  let s₁ : State := { start with producer := .test, main := .createConsumer }
  let s₂ : State := { s₁ with consumer := .test, main := .joinProducer }
  have h₁ : M.step start .main = some s₁ := h.main _ _ rfl
  have h₂ : M.step s₁ .main = some s₂ := h.main _ _ rfl
  have hc : Conserved N s₂ :=
    h.conserved.step _ _ _ (h.conserved.step _ _ _ start_conserved h₁) h₂
  refine ⟨s₂, ⟨hc, ⟨rfl, rfl, rfl, fun hd => by cases hd⟩, rfl, rfl, rfl, rfl⟩, fun lines => ?_⟩
  exact (System.journal_silent h₁ rfl).trans (System.journal_silent h₂ rfl)

lemma Build.produces (h : Build N M) (hr : Resting N s b) (he : b.enter N .produce = some b') :
    ∃ s', Resting N s' b' ∧ ∀ lines, (M.journal printed).Reaches (s, lines)
      (s', lines ++ [b.line .produce]) := by
  obtain ⟨⟨hidle, hlt⟩, hb'⟩ := Option.ite_none_right_eq_some.mp he
  obtain rfl := Option.some.inj hb'
  have hpc := hr.producer
  have hcpc : s.consumer = .test := by simpa [hidle] using hr.consumer
  have hcount : s.produced = s.j := by simpa [hpc] using hr.conserved.produced.count
  have hj : s.j < N := by
    rw [← hcount, ← hr.books.produced]
    exact hlt
  have ho : s.mtx.owner = none :=
    hr.conserved.ownership.free (by simp [hpc]) (by simp [hcpc])
  obtain ⟨m, hlock, -, hunlock⟩ := Monitor.lock_unlock (t := .producer) ho (by simp [hr.blocked])
    (by simp [hr.woken])
  have hmb : m.blocked = ∅ := (Monitor.lock_eq_some.mp hlock).2.2.1.trans hr.blocked
  let s₁ : State := { s with producer := .lock }
  let s₂ : State := { s with mtx := m, producer := .increment }
  let s₃ : State := { s₂ with
    available := s.available + 1, produced := s.produced + 1, producer := .unlock }
  let s₄ : State := { s₃ with mtx := s.mtx, producer := .next }
  let s₅ : State := { s₄ with j := s.j + 1, producer := .test }
  have h₁ : producerStep N s = some s₁ := by simp [producerStep, hpc, hj, s₁]
  have h₂ : producerStep N s₁ = some s₂ := by simp [producerStep, hlock, s₁, s₂]
  have h₃ : producerStep N s₂ = some s₃ := rfl
  have h₅ : producerStep N s₄ = some s₅ := rfl
  have hreach : ∀ lines, (M.journal printed).Reaches (s, lines) (s₂, lines) := fun lines =>
    (h.silent (by simp [hpc]) (by simp [hpc]) h₁ lines).trans
      (h.silent (by simp [s₁]) (by simp [s₁]) h₂ lines)
  have hc₂ : Conserved N s₂ :=
    h.conserved.reaches hr.conserved (System.reaches_of_journal (hreach []))
  obtain ⟨b₃, hb₃, hline, hbooks⟩ := produce_books hc₂
    (hr.books.quiet ⟨rfl, rfl, rfl, rfl, rfl, id⟩) rfl h₃
  cases he.symm.trans hb₃
  have h₃' : M.step s₂ .producer = some s₃ := h.producer _ _ (by simp [s₂]) h₃
  have hrun : ∀ lines, (M.journal printed).Reaches (s, lines)
      (s₅, lines ++ [b.line .produce]) := by
    intro lines
    have hprint : (M.journal printed).Reaches (s₂, lines)
        (s₃, lines ++ (printed s₂ .producer).toList) := System.journal_reaches h₃'
    rw [hline] at hprint
    exact (((hreach lines).trans hprint).trans (h.unlock s₃ s.mtx _ rfl hmb hunlock)).trans
      (h.silent (by simp [s₄]) (by simp [s₄]) h₅ _)
  refine ⟨s₅, ⟨?_, hbooks.quiet ⟨rfl, rfl, rfl, rfl, rfl, id⟩, rfl, hr.blocked, hr.woken, ?_⟩, hrun⟩
  · exact h.conserved.reaches hr.conserved (System.reaches_of_journal (hrun []))
  · exact hr.consumer

lemma Build.drains (h : Build N M) (hr : Resting N s b) (hlt : b.consumed < b.produced) :
    ∃ s', Conserved N s' ∧ Books s' b ∧ s'.producer = .test ∧ s'.consumer = .drain ∧
      s'.mtx.blocked = ∅ ∧ s'.mtx.woken = ∅ ∧
      ∀ lines, (M.journal printed).Reaches (s, lines) (s', lines) := by
  by_cases hd : b.draining = true
  · refine ⟨s, hr.conserved, hr.books, hr.producer, by simpa [hd] using hr.consumer, hr.blocked,
      hr.woken, fun lines => .refl⟩
  · have hcpc : s.consumer = .test := by simpa [hd] using hr.consumer
    have hcons : (b.consumed : ℤ) = s.consumed := by simpa [hcpc] using hr.books.consumed
    have hbal : s.available + s.consumed = s.produced := by
      simpa [hcpc] using hr.conserved.consumed.balance
    have hprod := hr.books.produced
    have hle : s.produced ≤ N := hr.conserved.produced.le
    have hne : s.consumed ≠ N := by omega
    have ho : s.mtx.owner = none :=
      hr.conserved.ownership.free (by simp [hr.producer]) (by simp [hcpc])
    obtain ⟨m, hlock, -, -⟩ := Monitor.lock_unlock (t := .consumer) ho (by simp [hr.blocked])
      (by simp [hr.woken])
    obtain ⟨-, -, hmb, hmw⟩ := Monitor.lock_eq_some.mp hlock
    let s₁ : State := { s with consumer := .lock }
    let s₂ : State := { s with mtx := m, consumer := .drain }
    have h₁ : consumerStep N s = some s₁ := by simp [consumerStep, hcpc, hne, s₁]
    have hreach : ∀ lines, (M.journal printed).Reaches (s, lines) (s₂, lines) := fun lines =>
      (h.quietly (by simp [hcpc]) (by simp [hcpc]) h₁ lines).trans
        (h.lock s₁ m lines rfl (by simp only [s₁]; omega) hlock)
    refine ⟨s₂, h.conserved.reaches hr.conserved (System.reaches_of_journal (hreach [])), ?_,
      hr.producer, rfl, hmb.trans hr.blocked, hmw.trans hr.woken, hreach⟩
    exact hr.books.quiet (quiet_turn (by simp [hcpc, ConsumerPc.busy]) (by simp [hcpc]) rfl rfl)

lemma Build.consumes (h : Build N M) (hr : Resting N s b) (he : b.enter N .consume = some b') :
    ∃ s', Resting N s' b' ∧ ∀ lines, (M.journal printed).Reaches (s, lines)
      (s', lines ++ [b.line .consume]) := by
  obtain ⟨hlt, hb'⟩ := Option.ite_none_right_eq_some.mp he
  obtain rfl := Option.some.inj hb'
  obtain ⟨s₀, hc₀, hb₀, hp₀, hd₀, hmb, hmw, hreach⟩ := h.drains hr hlt
  have hbal : s₀.available + s₀.consumed = s₀.produced := by
    simpa [hd₀] using hc₀.consumed.balance
  have hcons : (b.consumed : ℤ) = s₀.consumed := by simpa [hd₀] using hb₀.consumed
  have hprod := hb₀.produced
  have hpos : 0 < s₀.available := by omega
  let s₁ : State := { s₀ with consumer := .count }
  let s₂ : State := { s₀ with i := s₀.i + 1, consumer := .consume }
  let s₃ : State := { s₂ with consumed := s₀.consumed + 1, consumer := .take }
  let s₄ : State := { s₃ with available := s₀.available - 1, consumer := .drain }
  have h₁ : consumerStep N s₀ = some s₁ := by simp [consumerStep, hd₀, hpos, s₁]
  have h₂ : consumerStep N s₁ = some s₂ := rfl
  have h₃ : consumerStep N s₂ = some s₃ := rfl
  have h₄ : consumerStep N s₃ = some s₄ := rfl
  have htake : ∀ lines, (M.journal printed).Reaches (s, lines) (s₃, lines) := fun lines =>
    (((hreach lines).trans (h.quietly (by simp [hd₀]) (by simp [hd₀]) h₁ lines)).trans
      (h.quietly (by simp [s₁]) (by simp [s₁]) h₂ lines)).trans
      (h.quietly (by simp [s₂]) (by simp [s₂]) h₃ lines)
  have hc₃ : Conserved N s₃ :=
    h.conserved.reaches hr.conserved (System.reaches_of_journal (htake []))
  have hb₃ : Books s₃ b := by
    refine ⟨hb₀.produced, ?_, ?_, fun hd => ⟨rfl, hlt⟩⟩
    · simp only [s₃, ConsumerPc.taking, hcons]
    · have hi := hb₀.count
      simp only [hd₀, ConsumerPc.counted, add_zero] at hi
      simp only [s₃, s₂, ConsumerPc.counted, hi]
  obtain ⟨b₄, hb₄, hline, hbooks⟩ := take_books hc₃ hb₃ rfl h₄
  cases he.symm.trans hb₄
  have h₄' : M.step s₃ .consumer = some s₄ := h.consumer _ _ (by simp [s₃]) h₄
  have hrun : ∀ lines, (M.journal printed).Reaches (s, lines)
      (s₄, lines ++ [b.line .consume]) := by
    intro lines
    have hprint : (M.journal printed).Reaches (s₃, lines)
        (s₄, lines ++ (printed s₃ .consumer).toList) := System.journal_reaches h₄'
    rw [hline] at hprint
    exact (htake lines).trans hprint
  have hc₄ : Conserved N s₄ :=
    h.conserved.reaches hr.conserved (System.reaches_of_journal (hrun []))
  by_cases hmore : b.consumed + 1 < b.produced
  · exact ⟨s₄, ⟨hc₄, hbooks, hp₀, hmb, hmw, by simp [hmore, s₄]⟩, hrun⟩
  · have hzero : ¬ s₄.available > 0 := by
      simp only [s₄]
      omega
    have howner : s₄.mtx.owner = some .consumer :=
      hc₄.ownership.consumer.mpr (by simp [s₄])
    obtain ⟨m, hunlock⟩ : ∃ m, s₄.mtx.unlock .consumer = some m := by
      simp [Monitor.unlock, howner]
    obtain ⟨-, -, hmb', hmw'⟩ := Monitor.unlock_eq_some.mp hunlock
    let s₅ : State := { s₄ with consumer := .unlock }
    let s₆ : State := { s₄ with mtx := m, consumer := .test }
    have h₅ : consumerStep N s₄ = some s₅ := by simp [consumerStep, s₄, s₅]; omega
    have h₆ : consumerStep N s₅ = some s₆ := by simp [consumerStep, s₅, hunlock, s₆]
    have hrun' : ∀ lines, (M.journal printed).Reaches (s, lines)
        (s₆, lines ++ [b.line .consume]) := fun lines =>
      ((hrun lines).trans (h.quietly (by simp [s₄]) (by simp [s₄]) h₅ _)).trans
        (h.quietly (by simp [s₅]) (by simp [s₅]) h₆ _)
    refine ⟨s₆, ⟨?_, ⟨hbooks.produced, hbooks.consumed, hbooks.count, fun hd => ?_⟩, hp₀,
      hmb'.trans hmb, hmw'.trans hmw, by simp [hmore, s₆]⟩, hrun'⟩
    · exact h.conserved.reaches hr.conserved (System.reaches_of_journal (hrun' []))
    · simp [hmore] at hd

lemma Build.realised (h : Build N M) : System.Simulates (Ledger.system N) M
    (fun b a => some (b.line a)) printed (Rests N M) where
  initial b hb := by
    obtain rfl : b = .empty := hb
    exact ⟨start, (h.initial start).mpr rfl, h.start_rests⟩
  step := by
    rintro b a b' s ⟨s', hr, hreach⟩ he
    obtain ⟨t, ht, hrun⟩ : ∃ t, Resting N t b' ∧ ∀ lines,
        (M.journal printed).Reaches (s', lines) (t, lines ++ [b.line a]) := by
      cases a with
      | produce => exact h.produces hr he
      | consume => exact h.consumes hr he
    exact ⟨t, ⟨t, ht, fun lines => .refl⟩, fun lines => (hreach lines).trans (hrun lines)⟩

end Realised

/-- A build prints the lines of the ledgers and no others. -/
theorem Build.prints_iff (h : Build N M) : (∃ s, (M.journal printed).Reachable (s, lines)) ↔
    ∃ b, (Ledger.journal N).Reachable (b, lines) := by
  constructor
  · rintro ⟨s, hs⟩
    obtain ⟨b, hb, -⟩ := h.shown.observed hs
    exact ⟨b, hb⟩
  · rintro ⟨b, hb⟩
    obtain ⟨s, hs, -⟩ := h.realised.observed hb
    exact ⟨s, hs⟩

end UnixProgramming.ProducerConsumer
