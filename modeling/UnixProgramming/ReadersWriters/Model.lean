import UnixProgramming.Library.Transition
import UnixProgramming.Library.RwLock
import UnixProgramming.Library.Scan

/-! `t_pthread_rdlock.c`: readers and writers of `beginnum`, here `n` threads of which the
first `r` are readers. -/

namespace UnixProgramming.ReadersWriters

open Library Library.Transition

variable {n : ℕ}

inductive Function
  | reader
  | writer
  deriving DecidableEq, Repr

inductive Point
  | unborn
  | lock
  | evaluate
  | printf
  | unlock
  | returned
  deriving DecidableEq, Repr

/-- The value is the last argument of `printf`, once it has been evaluated. -/
structure Thread where
  point : Point
  value : ℤ
  deriving DecidableEq, Repr

structure Line (n : ℕ) where
  function : Function
  self : Fin n
  beginnum : ℤ
  deriving DecidableEq, Repr

inductive MainPc
  | create (i : ℕ)
  | join (i : ℕ)
  | exited
  deriving DecidableEq, Repr

structure State (n : ℕ) where
  rwlock : RwLock (Fin n)
  beginnum : ℤ
  thread : Fin n → Thread
  main : MainPc
  out : List (Line n)

def start (n : ℕ) : State n where
  rwlock := .free
  beginnum := 1000
  thread _ := ⟨.unborn, 0⟩
  main := .create 0
  out := []

inductive Label (n : ℕ)
  | main
  | thread (i : Fin n)
  deriving DecidableEq, Repr

/-- The function that `main` creates its thread `i` with. -/
def function (r : ℕ) (i : Fin n) : Function :=
  if i.val < r then .reader else .writer

def State.set (s : State n) (i : Fin n) (t : Thread) : State n :=
  { s with thread := Function.update s.thread i t }

-- The source ignores the result of `pthread_create`: after one that fails, the thread's join
-- would use an unset `tid`. Each one succeeds here.
def mainStep (s : State n) : Option (State n) :=
  match s.main with
  | .create i =>
    if h : i < n then some { s.set ⟨i, h⟩ ⟨.lock, 0⟩ with main := .create (i + 1) }
    else some { s with main := .join 0 }
  | .join i =>
    if h : i < n then
      if (s.thread ⟨i, h⟩).point = .returned then some { s with main := .join (i + 1) } else none
    else some { s with main := .exited }
  | .exited => none

def lockStep (f : Function) (l : RwLock (Fin n)) (i : Fin n) : Option (RwLock (Fin n)) :=
  match f with
  | .reader => l.rdlock i
  | .writer => l.wrlock i

def evaluated (f : Function) (beginnum : ℤ) : ℤ :=
  match f with
  | .reader => beginnum
  | .writer => int (beginnum + 1)

-- `usleep` takes time only, and no iteration of `while(1)` is the last one.
def threadStep (f : Function) (s : State n) (i : Fin n) : Option (State n) :=
  let t := s.thread i
  match t.point with
  | .lock => (lockStep f s.rwlock i).map fun l => { s.set i ⟨.evaluate, t.value⟩ with rwlock := l }
  | .evaluate =>
    let v := evaluated f s.beginnum
    some { s.set i ⟨.printf, v⟩ with beginnum := v }
  | .printf => some { s.set i ⟨.unlock, t.value⟩ with out := s.out ++ [⟨f, i, t.value⟩] }
  | .unlock => (s.rwlock.unlock i).map fun l => { s.set i ⟨.lock, t.value⟩ with rwlock := l }
  | .unborn | .returned => none

def step (r : ℕ) (s : State n) (l : Label n) : Option (State n) :=
  if s.main = .exited then none
  else match l with
    | .main => mainStep s
    | .thread i => threadStep (function r i) s i

def system (n r : ℕ) : System (State n) (Label n) where
  initial s := s = start n
  step := step r

end UnixProgramming.ReadersWriters
