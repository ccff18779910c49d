import UnixProgramming.Library.Transition
import UnixProgramming.Library.Roster

/-! `thread_multijoin.c`: `main` creates `argc - 1` threads, here `n`, and joins the
ones that terminate in sweeps over the whole table. -/

namespace UnixProgramming.MultiJoin

open Library Library.Transition

variable {n : ℕ}

inductive MainPc (n : ℕ)
  | init (idx : ℕ)
  | create (idx : Fin n)
  | total
  | test
  | lock
  | guard
  | waiting
  | sweep (idx : ℕ)
  | join (idx : Fin n)
  | mark (idx : Fin n)
  | unlock
  | exited
  | failed
  deriving DecidableEq, Repr

/-- The roster holds `thread[].state`, `numUnjoined`, the mutex and the condition
variable. The returns of `pthread_join` are counted for each thread. -/
structure State (n : ℕ) where
  roster : Roster (Fin n)
  tid : Fin n → Option (Fin n)
  sleepTime : Fin n → ℤ
  numLive : ℤ
  main : MainPc n
  joins : Fin n → ℕ

def start (n : ℕ) : State n where
  roster := ⟨fun _ => .unborn, fun _ => .alive, 0, .free⟩
  tid _ := none
  sleepTime _ := 0
  numLive := 0
  main := .init 0
  joins _ := 0

inductive Label (n : ℕ)
  | main
  | create
  | createFails
  | resume
  | spurious
  | threadFunc (idx : Fin n) (a : Roster.Act (Fin n))
  deriving DecidableEq, Repr

def initStep (args : Fin n → ℤ) (s : State n) (idx : ℕ) : State n :=
  if h : idx < n then
    { s with
      sleepTime :=
        Function.update s.sleepTime ⟨idx, h⟩ (if args ⟨idx, h⟩ > 0 then args ⟨idx, h⟩ else 5)
      roster := s.roster.setStatus ⟨idx, h⟩ .alive
      main := .create ⟨idx, h⟩ }
  else { s with main := .total }

def createStep (s : State n) : Option (State n) :=
  match s.main with
  | .create i =>
    (s.roster.create i .asleep).map fun r =>
      { s with roster := r, tid := Function.update s.tid i (some i), main := .init (i + 1) }
  | _ => none

def createFails (s : State n) : Option (State n) :=
  match s.main with
  | .create _ => some { s with main := .failed }
  | _ => none

def sweepPc (s : State n) (idx : ℕ) : MainPc n :=
  if h : idx < n then
    if s.roster.status ⟨idx, h⟩ = .terminated then .join ⟨idx, h⟩ else .mark ⟨idx, h⟩
  else .unlock

def joinStep (s : State n) (i : Fin n) : Option (State n) :=
  (s.tid i).bind fun j =>
    if s.roster.phase j = .returned then
      some { s with joins := Function.update s.joins j (s.joins j + 1), main := .mark i }
    else none

def mainStep (args : Fin n → ℤ) (s : State n) : Option (State n) :=
  match s.main with
  | .init idx => some (initStep args s idx)
  | .total => some { s with numLive := n, main := .test }
  | .test => some { s with main := if s.numLive > 0 then .lock else .exited }
  | .lock =>
    (s.roster.monitor.lock none).map fun m =>
      { s with roster := s.roster.setMonitor m, main := .guard }
  | .guard =>
    if s.roster.unjoined = 0 then
      (s.roster.monitor.wait none).map fun m =>
        { s with roster := s.roster.setMonitor m, main := .waiting }
    else some { s with main := .sweep 0 }
  | .sweep idx => some { s with main := sweepPc s idx }
  | .join i => joinStep s i
  -- The three statements after the `if` stand outside it.
  | .mark i =>
    some { s with roster := s.roster.retire i, numLive := s.numLive - 1, main := .sweep (i + 1) }
  | .unlock =>
    (s.roster.monitor.unlock none).map fun m =>
      { s with roster := s.roster.setMonitor m, main := .test }
  | .create _ | .waiting | .exited | .failed => none

def resumeStep (s : State n) : Option (State n) :=
  if s.main = .waiting then
    (s.roster.monitor.resume none).map fun m =>
      { s with roster := s.roster.setMonitor m, main := .guard }
  else none

def step (args : Fin n → ℤ) (s : State n) (l : Label n) : Option (State n) :=
  if s.main = .exited ∨ s.main = .failed then none
  else match l with
    | .main => mainStep args s
    | .create => createStep s
    | .createFails => createFails s
    | .resume => resumeStep s
    | .spurious =>
      (s.roster.monitor.wake none).map fun m => { s with roster := s.roster.setMonitor m }
    | .threadFunc i a => (s.roster.act i a).map fun r => { s with roster := r }

def system (args : Fin n → ℤ) : System (State n) (Label n) where
  initial s := s = start n
  step := step args

end UnixProgramming.MultiJoin
