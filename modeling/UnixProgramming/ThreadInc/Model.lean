import UnixProgramming.Library.Transition
import UnixProgramming.Library.Scan

/-! `thread_inc.c` without `USE_LOCK`: two threads increment `glob`, each time by a load
and a store. -/

namespace UnixProgramming.ThreadInc

open Library Library.Transition

inductive Thread
  | thr1
  | thr2
  deriving DecidableEq, Repr

inductive ThreadPc
  | unborn
  | start
  | test
  | load
  | store
  | returned
  deriving DecidableEq, Repr

inductive MainPc
  | init
  | create (t : Thread)
  | join (t : Thread)
  | print
  | exited
  | failed
  deriving DecidableEq, Repr

/-- The variables of `threadFunc`, with the value that it has loaded from `glob`. -/
structure Local where
  pc : ThreadPc
  loops : ℤ
  i : ℕ
  loaded : ℤ
  deriving DecidableEq, Repr

structure State where
  glob : ℤ
  loops : ℤ
  thread : Thread → Local
  main : MainPc
  printed : Option ℤ

def start : State where
  glob := 0
  loops := 0
  thread _ := ⟨.unborn, 0, 0, 0⟩
  main := .init
  printed := none

inductive Label
  | main
  | create
  | createFails
  | threadFunc (t : Thread)
  deriving DecidableEq, Repr

/-- What `main` assigns to `loops`; `none` stands for `argc == 1`. -/
def loops : Option (List UInt8) → ℤ
  | none => 1000
  | some text => atoi text

def initStep (arg : Option (List UInt8)) (s : State) : State :=
  if arg.isSome ∧ loops arg ≤ 0 then { s with loops := loops arg, main := .failed }
  else { s with loops := loops arg, main := .create .thr1 }

def mainStep (arg : Option (List UInt8)) (s : State) : Option State :=
  match s.main with
  | .init => some (initStep arg s)
  | .join .thr1 =>
    if (s.thread .thr1).pc = .returned then some { s with main := .join .thr2 } else none
  | .join .thr2 =>
    if (s.thread .thr2).pc = .returned then some { s with main := .print } else none
  | .print => some { s with printed := some s.glob, main := .exited }
  | .create _ | .exited | .failed => none

def createStep (s : State) : Option State :=
  match s.main with
  | .create t =>
    some { s with
      thread := Function.update s.thread t { s.thread t with pc := .start }
      main := if t = .thr1 then .create .thr2 else .join .thr1 }
  | _ => none

def createFails (s : State) : Option State :=
  match s.main with
  | .create _ => some { s with main := .failed }
  | _ => none

def State.set (s : State) (t : Thread) (v : Local) : State :=
  { s with thread := Function.update s.thread t v }

def threadStep (s : State) (t : Thread) : Option State :=
  let v := s.thread t
  match v.pc with
  | .start => some (s.set t { v with pc := .test, loops := s.loops, i := 0 })
  | .test => some (s.set t { v with pc := if v.i < v.loops then .load else .returned })
  | .load => some (s.set t { v with pc := .store, loaded := s.glob })
  | .store =>
    some { s.set t { v with pc := .test, i := v.i + 1 } with glob := int (v.loaded + 1) }
  | .unborn | .returned => none

def step (arg : Option (List UInt8)) (s : State) (l : Label) : Option State :=
  if s.main = .exited ∨ s.main = .failed then none
  else match l with
    | .main => mainStep arg s
    | .create => createStep s
    | .createFails => createFails s
    | .threadFunc t => threadStep s t

def system (arg : Option (List UInt8)) : System State Label where
  initial s := s = start
  step := step arg

end UnixProgramming.ThreadInc
