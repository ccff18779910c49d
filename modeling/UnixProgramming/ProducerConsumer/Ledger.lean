import UnixProgramming.ProducerConsumer.Conservation
import UnixProgramming.Library.Refinement

/-! The lines that the two threads print, as the entries of one account. -/

namespace UnixProgramming.ProducerConsumer

open Library Library.Transition

inductive Line
  | producer (j : ℕ) (available consumed : ℤ)
  | consumer (i available consumed : ℤ)
  deriving DecidableEq, Repr

/-- The line of a critical section, which is printed before the mutex is given back. -/
def printed (s : State) : Label → Option Line
  | .producer =>
    if s.producer = .increment then some (.producer s.j (s.available + 1) s.consumed) else none
  | .consumer =>
    if s.consumer = .take then some (.consumer s.i (s.available - 1) s.consumed) else none
  | .main | .signal _ | .spurious _ => none

-- `draining` from the first unit that is taken until none is left.
structure Ledger where
  produced : ℕ
  consumed : ℕ
  draining : Bool
  deriving DecidableEq, Repr

inductive Entry
  | produce
  | consume
  deriving DecidableEq, Repr

namespace Ledger

def empty : Ledger := ⟨0, 0, false⟩

def enter (N : ℕ) (b : Ledger) : Entry → Option Ledger
  | .produce =>
    if b.draining = false ∧ b.produced < N then some { b with produced := b.produced + 1 } else none
  | .consume =>
    if b.consumed < b.produced then
      some { b with consumed := b.consumed + 1, draining := b.consumed + 1 < b.produced }
    else none

def line (b : Ledger) : Entry → Line
  | .produce => .producer b.produced (b.produced + 1 - b.consumed) b.consumed
  | .consume => .consumer (b.consumed + 1) (b.produced - (b.consumed + 1)) (b.consumed + 1)

def system (N : ℕ) : System Ledger Entry where
  initial b := b = empty
  step := enter N

def journal (N : ℕ) : System (Ledger × List Line) Entry :=
  (system N).journal fun b a => some (b.line a)

end Ledger

namespace ConsumerPc

def counted : ConsumerPc → ℤ
  | .consume | .take => 1
  | _ => 0

def busy : ConsumerPc → Bool
  | .drain | .count | .consume | .take => true
  | _ => false

end ConsumerPc

structure Books (s : State) (b : Ledger) : Prop where
  produced : b.produced = s.produced
  consumed : b.consumed + s.consumer.taking = s.consumed
  count : b.consumed + s.consumer.counted = s.i
  draining : b.draining = true → s.consumer.busy = true ∧ b.consumed < b.produced

structure Quiet (s t : State) : Prop where
  produced : t.produced = s.produced
  consumed : t.consumed = s.consumed
  count : t.i = s.i
  taking : t.consumer.taking = s.consumer.taking
  counted : t.consumer.counted = s.consumer.counted
  busy : s.consumer.busy = true → t.consumer.busy = true

variable {N : ℕ} {s t : State} {b : Ledger} {m : Monitor Thread} {pc : ProducerPc} {qc : ConsumerPc}

lemma start_books : Books start .empty where
  produced := rfl
  consumed := rfl
  count := rfl
  draining h := by cases h

lemma Books.quiet (hb : Books s b) (h : Quiet s t) : Books t b where
  produced := hb.produced.trans h.produced.symm
  consumed := by
    rw [h.taking, h.consumed]
    exact hb.consumed
  count := by
    rw [h.counted, h.count]
    exact hb.count
  draining hd := ⟨h.busy (hb.draining hd).1, (hb.draining hd).2⟩

lemma quiet_main (h : Conserved N s) (he : mainStep s = some t) : Quiet s t := by
  cases hpc : s.main with
  | createConsumer =>
    have hu : s.consumer = .unborn := h.created.consumer (Or.inr hpc)
    simp only [mainStep, hpc, Option.some.injEq] at he
    subst he
    exact ⟨rfl, rfl, rfl, by simp [hu], by simp [hu, ConsumerPc.counted],
      by simp [hu, ConsumerPc.busy]⟩
  | createProducer =>
    simp only [mainStep, hpc, Option.some.injEq] at he
    subst he
    exact ⟨rfl, rfl, rfl, rfl, rfl, id⟩
  | joinProducer | joinConsumer =>
    simp only [mainStep, hpc, Option.ite_none_right_eq_some, Option.some.injEq] at he
    obtain ⟨-, rfl⟩ := he
    exact ⟨rfl, rfl, rfl, rfl, rfl, id⟩
  | returned => simp [mainStep, hpc] at he

lemma quiet_producer (hpc : s.producer ≠ .increment) (he : producerStep N s = some t) :
    Quiet s t := by
  cases hs : s.producer with
  | unborn | returned => simp [producerStep, hs] at he
  | increment => exact absurd hs hpc
  | test | next =>
    simp only [producerStep, hs, Option.some.injEq] at he
    subst he
    exact ⟨rfl, rfl, rfl, rfl, rfl, id⟩
  | lock | unlock =>
    simp only [producerStep, hs, Option.map_eq_some_iff] at he
    obtain ⟨m, -, rfl⟩ := he
    exact ⟨rfl, rfl, rfl, rfl, rfl, id⟩
  | signal =>
    simp only [producerStep, hs, Option.ite_none_left_eq_some, Option.some.injEq] at he
    obtain ⟨-, rfl⟩ := he
    exact ⟨rfl, rfl, rfl, rfl, rfl, id⟩

lemma quiet_turn (h : s.consumer.busy = false) (ht : s.consumer.taking = 0)
    (hq : qc.taking = 0) (hc : qc.counted = 0) :
    Quiet s { s with mtx := m, consumer := qc } := by
  refine ⟨rfl, rfl, rfl, hq.trans ht.symm, ?_, fun hb => ?_⟩
  · cases hs : s.consumer <;> simp [hs, ConsumerPc.busy, ConsumerPc.counted] at h hc ⊢ <;> exact hc
  · rw [h] at hb
    cases hb

lemma quiet_consumer (hpc : s.consumer.busy = false) (he : consumerStep N s = some t) :
    Quiet s t := by
  cases hs : s.consumer with
  | unborn | returned => simp [consumerStep, hs] at he
  | drain | count | consume | take => simp [hs, ConsumerPc.busy] at hpc
  | test =>
    simp only [consumerStep, hs, Option.some.injEq] at he
    subst he
    by_cases hN : s.consumed ≠ N
    · simpa only [if_pos hN] using quiet_turn hpc (by simp [hs]) rfl rfl
    · simpa only [if_neg hN] using quiet_turn hpc (by simp [hs]) rfl rfl
  | check =>
    simp only [consumerStep, hs] at he
    split_ifs at he
    · obtain ⟨m, -, rfl⟩ := Option.map_eq_some_iff.mp he
      exact quiet_turn hpc (by simp [hs]) rfl rfl
    · obtain rfl := Option.some.inj he
      exact quiet_turn hpc (by simp [hs]) rfl rfl
  | lock | waiting | unlock =>
    simp only [consumerStep, hs, Option.map_eq_some_iff] at he
    obtain ⟨m, -, rfl⟩ := he
    exact quiet_turn hpc (by simp [hs]) rfl rfl

end UnixProgramming.ProducerConsumer
