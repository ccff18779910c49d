import UnixProgramming.Library.Transition
import UnixProgramming.Library.Monitor

/-! `t_thread_cleanup.c`: `main`, the thread that it cancels or lets end, and the cleanup
handler. With one argument `main` cancels the thread. -/

namespace UnixProgramming.ThreadCleanup

open Library Library.Transition

inductive Thread
  | main
  | thr
  deriving DecidableEq, Repr

inductive MainPc
  | create
  | sleep
  | cancel
  | signal
  | setGlob
  | join
  | exited
  deriving DecidableEq, Repr

-- The pairs `freeing`, `free` and `unlocking`, `unlock` are the handler's statements.
inductive ThreadPc
  | unborn
  | malloc
  | allocated
  | lock
  | push
  | test
  | wait
  | waiting
  | completed
  | pop
  | freeing
  | free
  | unlocking
  | unlock
  | returned
  | cancelled
  deriving DecidableEq, Repr

/-- The thread's part is its stack of at most one handler, whether it acts on the request
to cancel it, and what it has done with its block. -/
structure State where
  mtx : Monitor Thread
  glob : ℤ
  main : MainPc
  thread : ThreadPc
  requested : Bool
  handler : Bool
  exiting : Bool
  allocations : ℕ
  frees : ℕ

def start : State where
  mtx := .free
  glob := 0
  main := .create
  thread := .unborn
  requested := false
  handler := false
  exiting := false
  allocations := 0
  frees := 0

inductive Label
  | main
  | createFails
  | signal (woken : Option Thread)
  | thread
  | spurious
  | cancelled
  deriving DecidableEq, Repr

def ThreadPc.ended : ThreadPc → Bool
  | .returned | .cancelled => true
  | _ => false

def mainStep (argc : ℤ) (s : State) : Option State :=
  match s.main with
  | .create => some { s with thread := .malloc, main := .sleep }
  | .sleep => some { s with main := if argc = 1 then .cancel else .signal }
  | .cancel => some { s with requested := true, main := .join }
  | .setGlob => some { s with glob := 1, main := .join }
  | .join => if s.thread.ended then some { s with main := .exited } else none
  | .signal | .exited => none

def createFails (s : State) : Option State :=
  if s.main = .create then some { s with main := .exited } else none

def signalStep (s : State) (woken : Option Thread) : Option State :=
  if s.main = .signal then
    (s.mtx.signal woken).map fun m => { s with mtx := m, main := .setGlob }
  else none

def threadStep (s : State) : Option State :=
  match s.thread with
  | .malloc => some { s with allocations := s.allocations + 1, thread := .allocated }
  | .allocated => some { s with thread := .lock }
  | .lock => (s.mtx.lock .thr).map fun m => { s with mtx := m, thread := .push }
  | .push => some { s with handler := true, thread := .test }
  | .test => some { s with thread := if s.glob = 0 then .wait else .completed }
  | .wait => (s.mtx.wait .thr).map fun m => { s with mtx := m, thread := .waiting }
  | .waiting => (s.mtx.resume .thr).map fun m => { s with mtx := m, thread := .test }
  | .completed => some { s with thread := .pop }
  | .pop => some { s with handler := false, thread := .freeing }
  | .freeing => some { s with thread := .free }
  | .free => some { s with frees := s.frees + 1, thread := .unlocking }
  | .unlocking => some { s with thread := .unlock }
  | .unlock =>
    (s.mtx.unlock .thr).map fun m =>
      { s with mtx := m, thread := if s.exiting then .cancelled else .returned }
  | .unborn | .returned | .cancelled => none

/-- The handler that is still on the stack runs before the thread ends. -/
def exit (s : State) : State :=
  { s with
    exiting := true
    handler := false
    thread := if s.handler then .freeing else .cancelled }

/-- A request is acted on at a cancellation point, each `printf` being one, and in
`pthread_cond_wait` once the mutex is owned again. -/
def cancelledStep (s : State) : Option State :=
  if s.requested ∧ ¬ s.exiting then
    match s.thread with
    | .allocated | .wait | .completed | .freeing | .unlocking => some (exit s)
    | .waiting => (s.mtx.resume .thr).map fun m => exit { s with mtx := m }
    | _ => none
  else none

def step (argc : ℤ) (s : State) (l : Label) : Option State :=
  if s.main = .exited then none
  else match l with
    | .main => mainStep argc s
    | .createFails => createFails s
    | .signal woken => signalStep s woken
    | .thread => threadStep s
    | .spurious => (s.mtx.wake .thr).map fun m => { s with mtx := m }
    | .cancelled => cancelledStep s

def system (argc : ℤ) : System State Label where
  initial s := s = start
  step := step argc

end UnixProgramming.ThreadCleanup
