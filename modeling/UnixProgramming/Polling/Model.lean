import UnixProgramming.Library.Transition
import UnixProgramming.Library.Monitor
import UnixProgramming.Library.Machine
import Mathlib.Tactic

/-! `prod_no_condvar.c`: any number of producers and a main thread that polls. The `n`
arguments are what `atoi` makes of them. -/

namespace UnixProgramming.Polling

open Library Library.Transition

variable {n : ℕ}

/-- Main is `none`. -/
abbrev Thread (n : ℕ) := Option (Fin n)

inductive ProducerPc
  | absent
  | test
  | lock
  | add
  | unlock
  | returned
  deriving DecidableEq, Repr

structure Producer where
  pc : ProducerPc
  j : ℕ
  deriving DecidableEq, Repr

/-- How often the thread has executed `avail++`. -/
def Producer.performed (p : Producer) : ℕ :=
  if p.pc = .unlock then p.j + 1 else p.j

inductive MainPc
  | create (j : ℕ)
  | lock
  | drain
  | test
  | left
  deriving DecidableEq, Repr

structure State (n : ℕ) where
  mtx : Monitor (Thread n)
  avail : ℤ
  numConsumed : ℤ
  totalRequired : ℤ
  done : Bool
  main : MainPc
  producer : Fin n → Producer

def start (n : ℕ) : State n where
  mtx := .free
  avail := 0
  numConsumed := 0
  totalRequired := 0
  done := false
  main := .create 0
  producer _ := ⟨.absent, 0⟩

inductive Label (n : ℕ)
  | create
  | lock
  | consume
  | unlock
  | test
  | producer (i : Fin n)
  deriving DecidableEq, Repr

variable (cnt : Fin n → ℤ)

def createStep (s : State n) : Option (State n) :=
  match s.main with
  | .create j =>
    if h : j < n then
      some { s with
        totalRequired := int (s.totalRequired + cnt ⟨j, h⟩)
        producer := Function.update s.producer ⟨j, h⟩ ⟨.test, 0⟩
        main := .create (j + 1) }
    else some { s with main := .lock }
  | _ => none

def lockStep (s : State n) : Option (State n) :=
  if s.main = .lock then (s.mtx.lock none).map fun m => { s with mtx := m, main := .drain }
  else none

def consumeStep (s : State n) : Option (State n) :=
  if s.main = .drain ∧ s.avail > 0 then
    some { s with
      numConsumed := int (s.numConsumed + 1)
      avail := int (s.avail - 1)
      done := int (s.numConsumed + 1) ≥ s.totalRequired }
  else none

def unlockStep (s : State n) : Option (State n) :=
  if s.main = .drain ∧ ¬ s.avail > 0 then
    (s.mtx.unlock none).map fun m => { s with mtx := m, main := .test }
  else none

def testStep (s : State n) : Option (State n) :=
  if s.main = .test then some { s with main := if s.done then .left else .lock } else none

def producerStep (s : State n) (i : Fin n) : Option (State n) :=
  match s.producer i with
  | ⟨.test, j⟩ =>
    some { s with
      producer := Function.update s.producer i
        ⟨if (j : ℤ) < cnt i then .lock else .returned, j⟩ }
  | ⟨.lock, j⟩ =>
    (s.mtx.lock (some i)).map fun m =>
      { s with mtx := m, producer := Function.update s.producer i ⟨.add, j⟩ }
  | ⟨.add, j⟩ =>
    some { s with
      avail := int (s.avail + 1)
      producer := Function.update s.producer i ⟨.unlock, j⟩ }
  | ⟨.unlock, j⟩ =>
    (s.mtx.unlock (some i)).map fun m =>
      { s with mtx := m, producer := Function.update s.producer i ⟨.test, j + 1⟩ }
  | ⟨.absent, _⟩ | ⟨.returned, _⟩ => none

def step (s : State n) : Label n → Option (State n)
  | .create => createStep cnt s
  | .lock => lockStep s
  | .consume => consumeStep s
  | .unlock => unlockStep s
  | .test => testStep s
  -- The process ends when main leaves its loop.
  | .producer i => if s.main = .left then none else producerStep cnt s i

def system : System (State n) (Label n) where
  initial s := s = start n
  step := step cnt

def units : ℕ :=
  ∑ i, (cnt i).toNat

def target : ℤ :=
  int (∑ i, cnt i)

end UnixProgramming.Polling
