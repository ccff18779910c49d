import UnixProgramming.Library.Transition
import UnixProgramming.Library.Monitor

/-! `producer_consumer_model.c`: the three threads with one atomic step per
statement. The count of units `TOTAL_COUNT` is a parameter. -/

namespace UnixProgramming.ProducerConsumer

open Library Library.Transition

inductive Thread
  | main
  | producer
  | consumer
  deriving DecidableEq, Repr

inductive ProducerPc
  | unborn
  | test
  | lock
  | increment
  | unlock
  | signal
  | next
  | returned
  deriving DecidableEq, Repr

inductive ConsumerPc
  | unborn
  | test
  | lock
  | check
  | waiting
  | drain
  | count
  | consume
  | take
  | unlock
  | returned
  deriving DecidableEq, Repr

inductive MainPc
  | createProducer
  | createConsumer
  | joinProducer
  | joinConsumer
  | returned
  deriving DecidableEq, Repr

structure State where
  mtx : Monitor Thread
  consumed : ℤ
  available : ℤ
  i : ℤ
  j : ℕ
  produced : ℕ
  main : MainPc
  producer : ProducerPc
  consumer : ConsumerPc

def start : State where
  mtx := .free
  consumed := 0
  available := 0
  i := 0
  j := 0
  produced := 0
  main := .createProducer
  producer := .unborn
  consumer := .unborn

/-- One step of a thread. The signal names the thread that it wakes. -/
inductive Label
  | main
  | producer
  | signal (woken : Option Thread)
  | consumer
  | spurious (t : Thread)
  deriving DecidableEq, Repr

variable (TOTAL_COUNT : ℕ)

def mainStep (s : State) : Option State :=
  match s.main with
  | .createProducer => some { s with producer := .test, main := .createConsumer }
  | .createConsumer => some { s with consumer := .test, main := .joinProducer }
  | .joinProducer => if s.producer = .returned then some { s with main := .joinConsumer } else none
  | .joinConsumer => if s.consumer = .returned then some { s with main := .returned } else none
  | .returned => none

def producerStep (s : State) : Option State :=
  match s.producer with
  | .unborn => none
  | .test => some { s with producer := if s.j < TOTAL_COUNT then .lock else .returned }
  | .lock => (s.mtx.lock .producer).map fun m => { s with mtx := m, producer := .increment }
  | .increment =>
    some { s with available := s.available + 1, produced := s.produced + 1, producer := .unlock }
  | .unlock => (s.mtx.unlock .producer).map fun m => { s with mtx := m, producer := .signal }
  | .signal => if s.j % 10 = 0 then none else some { s with producer := .next }
  | .next => some { s with j := s.j + 1, producer := .test }
  | .returned => none

def signalStep (s : State) (woken : Option Thread) : Option State :=
  if s.producer = .signal ∧ s.j % 10 = 0 then
    (s.mtx.signal woken).map fun m => { s with mtx := m, producer := .next }
  else none

def consumerStep (s : State) : Option State :=
  match s.consumer with
  | .unborn => none
  | .test => some { s with consumer := if s.consumed ≠ TOTAL_COUNT then .lock else .returned }
  | .lock => (s.mtx.lock .consumer).map fun m => { s with mtx := m, consumer := .check }
  | .check =>
    if s.available = 0 then
      (s.mtx.wait .consumer).map fun m => { s with mtx := m, consumer := .waiting }
    else some { s with consumer := .drain }
  | .waiting => (s.mtx.resume .consumer).map fun m => { s with mtx := m, consumer := .check }
  | .drain => some { s with consumer := if s.available > 0 then .count else .unlock }
  | .count => some { s with i := s.i + 1, consumer := .consume }
  | .consume => some { s with consumed := s.consumed + 1, consumer := .take }
  | .take => some { s with available := s.available - 1, consumer := .drain }
  | .unlock => (s.mtx.unlock .consumer).map fun m => { s with mtx := m, consumer := .test }
  | .returned => none

def step (s : State) : Label → Option State
  | .main => mainStep s
  | .producer => producerStep TOTAL_COUNT s
  | .signal woken => signalStep s woken
  | .consumer => consumerStep TOTAL_COUNT s
  | .spurious t => (s.mtx.wake t).map fun m => { s with mtx := m }

def system : System State Label where
  initial s := s = start
  step := step TOTAL_COUNT

def creating (s : State) : Bool :=
  s.main = .createProducer || s.main = .createConsumer

/-- A call of `pthread_create` that fails ends the process with `EXIT_FAILURE`. -/
def program : System (Option State) (Option Label) :=
  (system TOTAL_COUNT).stopping creating

end UnixProgramming.ProducerConsumer
