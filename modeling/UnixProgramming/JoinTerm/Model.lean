import UnixProgramming.Library.Transition
import UnixProgramming.Library.Roster

/-! `thread_joinTerm.c`: the joiner is created before the threads that it joins.
`THREADNUM` is the parameter `n`. -/

namespace UnixProgramming.JoinTerm

open Library Library.Transition

variable {n : ℕ}

inductive JoinerPc (n : ℕ)
  | unborn
  | test
  | lock
  | guard
  | waiting
  | sweep (idx : ℕ)
  | join (idx : Fin n)
  | mark (idx : Fin n)
  | unlock
  | returned
  deriving DecidableEq, Repr

inductive MainPc
  | createJoiner
  | create (idx : ℕ)
  | exited
  | failed
  deriving DecidableEq, Repr

-- The roster holds `threads[].status`, `termNum`, `mtx` and `sigTerm`.
structure State (n : ℕ) where
  roster : Roster (Fin n)
  tid : Fin n → Option (Fin n)
  joinedNum : ℤ
  count : ℤ
  joiner : JoinerPc n
  main : MainPc
  joins : Fin n → ℕ

def start (n : ℕ) : State n where
  roster := ⟨fun _ => .unborn, fun _ => .alive, 0, .free⟩
  tid _ := none
  joinedNum := 0
  count := 1
  joiner := .unborn
  main := .createJoiner
  joins _ := 0

inductive Label (n : ℕ)
  | main
  | createFails
  | joiner
  | resume
  | spurious
  | simulation (idx : Fin n) (a : Roster.Act (Fin n))
  deriving DecidableEq, Repr

/-- `pthread_create` stores the thread's identifier before the thread runs. -/
def createStep (s : State n) (i : Fin n) : Option (State n) :=
  (s.roster.create i .start).map fun r =>
    { s with roster := r, tid := Function.update s.tid i (some i), main := .create (i + 1) }

def mainStep (s : State n) : Option (State n) :=
  match s.main with
  | .createJoiner => some { s with joiner := .test, main := .create 0 }
  | .create idx =>
    if h : idx < n then createStep s ⟨idx, h⟩
    else if s.joiner = .returned then some { s with main := .exited }
    else none
  | .exited | .failed => none

def createFails (s : State n) : Option (State n) :=
  match s.main with
  | .createJoiner => some { s with main := .failed }
  | .create idx => if idx < n then some { s with main := .failed } else none
  | .exited | .failed => none

def sweepPc (s : State n) (idx : ℕ) : JoinerPc n :=
  if h : idx < n then
    if s.roster.status ⟨idx, h⟩ = .terminated then .join ⟨idx, h⟩ else .sweep (idx + 1)
  else .unlock

def joinStep (s : State n) (i : Fin n) : Option (State n) :=
  (s.tid i).bind fun j =>
    if s.roster.phase j = .returned then
      some { s with joins := Function.update s.joins j (s.joins j + 1), joiner := .mark i }
    else none

def markStep (s : State n) (i : Fin n) : State n :=
  { s with
    roster := s.roster.retire i
    joinedNum := s.joinedNum + 1
    count := s.count + 1
    joiner := .sweep (i + 1) }

def joinerStep (s : State n) : Option (State n) :=
  match s.joiner with
  | .test => some { s with joiner := if s.joinedNum ≠ n then .lock else .returned }
  | .lock =>
    (s.roster.monitor.lock none).map fun m =>
      { s with roster := s.roster.setMonitor m, joiner := .guard }
  | .guard =>
    if s.roster.unjoined = 0 then
      (s.roster.monitor.wait none).map fun m =>
        { s with roster := s.roster.setMonitor m, joiner := .waiting }
    else some { s with joiner := .sweep 0 }
  | .sweep idx => some { s with joiner := sweepPc s idx }
  | .join i => joinStep s i
  | .mark i => some (markStep s i)
  | .unlock =>
    (s.roster.monitor.unlock none).map fun m =>
      { s with roster := s.roster.setMonitor m, joiner := .test }
  | .unborn | .waiting | .returned => none

def resumeStep (s : State n) : Option (State n) :=
  if s.joiner = .waiting then
    (s.roster.monitor.resume none).map fun m =>
      { s with roster := s.roster.setMonitor m, joiner := .guard }
  else none

def step (s : State n) (l : Label n) : Option (State n) :=
  if s.main = .exited ∨ s.main = .failed then none
  else match l with
    | .main => mainStep s
    | .createFails => createFails s
    | .joiner => joinerStep s
    | .resume => resumeStep s
    | .spurious =>
      (s.roster.monitor.wake none).map fun m => { s with roster := s.roster.setMonitor m }
    | .simulation i a => (s.roster.act i a).map fun r => { s with roster := r }

def system (n : ℕ) : System (State n) (Label n) where
  initial s := s = start n
  step := step

end UnixProgramming.JoinTerm
