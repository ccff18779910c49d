import UnixProgramming.Library.Transition
import UnixProgramming.Library.Descriptors
import Mathlib.Tactic.Simps.Basic

/-! `multi_thread_server.c`: `main`, the workers and the delivery of `SIGUSR1`,
with one atomic step per statement and sequentially consistent memory. -/

namespace UnixProgramming.ThreadServer

open Library Library.Transition

def THREAD_LIMIT : ℕ := 3

instance : @NeZero ℕ Zero.ofOfNat0 THREAD_LIMIT := ⟨Nat.succ_ne_zero 2⟩

abbrev Slot := Fin THREAD_LIMIT

structure SockInfo where
  on : ℤ
  tid : ℕ
  cfd : ℤ
  addr : ℕ
  deriving DecidableEq, Repr

inductive WorkerPc
  | start
  | read
  | failed
  | closing
  | reply
  | clear
  | raise
  | raised
  | exited
  | returned
  deriving DecidableEq, Repr

/-- A thread that `pthread_create` started, with the connection that its slot's
descriptor denoted then. -/
structure Worker where
  slot : Slot
  conn : Option File
  pc : WorkerPc
  deriving DecidableEq, Repr

inductive MainPc
  | scan (i : ℕ)
  | accept (i : Slot)
  | retry (i : Slot)
  | create (i : Slot)
  | assign (i : Slot)
  | detach (i : Slot)
  | busy
  | suspended
  deriving DecidableEq, Repr

inductive Thread
  | main
  | worker (t : ℕ)
  deriving DecidableEq, Repr

inductive Target
  | process
  | thread (t : Thread)
  deriving DecidableEq, Repr

structure State where
  socks : Slot → SockInfo
  threads : ℕ → Option Worker
  spawned : ℕ
  fds : Descriptors
  main : MainPc
  pending : Target → Bool
  alive : Bool

def start (lfd : ℤ) (inherited : Finset ℤ) : State where
  socks _ := ⟨0, 0, 0, 0⟩
  threads _ := none
  spawned := 0
  fds := .boot lfd inherited
  main := .scan 0
  pending _ := false
  alive := true

/-- What `read` leaves: an error, the end of the stream, or some bytes in front
of the part of `cont` that no read has written in this round. -/
inductive ReadResult
  | error
  | eof
  | data (bytes rest : List UInt8)
  deriving DecidableEq, Repr

def ReadResult.possible : ReadResult → Bool
  | .error | .eof => true
  | .data bytes _ => 0 < bytes.length && bytes.length ≤ 64

def stopPassword : List UInt8 :=
  "SERVER STOP PASSWORD".toList.map fun c => c.toNat.toUInt8

/-- `strcmp` against a literal finds equality when the array holds the literal's
characters and then a zero byte. -/
def strcmpEqual (literal cont : List UInt8) : Bool :=
  (literal ++ [0]).isPrefixOf cont

inductive Label
  | main
  | accept (ret : ℤ) (addr : ℕ)
  | create
  | createFails
  | detachFails
  | worker (t : ℕ)
  | read (t : ℕ) (r : ReadResult)
  | write (t : ℕ)
  | sigpipe (t : ℕ)
  | kill (target : Target)
  | deliver (t : Thread)
  deriving DecidableEq, Repr

namespace State

@[simps] def setSock (s : State) (i : Slot) (v : SockInfo) : State :=
  { s with socks := Function.update s.socks i v }

@[simps] def setWorker (s : State) (t : ℕ) (w : Worker) : State :=
  { s with threads := Function.update s.threads t (some w) }

@[simps] def setPending (s : State) (target : Target) (b : Bool) : State :=
  { s with pending := Function.update s.pending target b }

def setOn (s : State) (i : Slot) (v : ℤ) : State :=
  s.setSock i { s.socks i with on := v }

end State

def mainStep (s : State) : Option State :=
  match s.main with
  | .scan i =>
    if h : i < THREAD_LIMIT then
      some { s with main := if (s.socks ⟨i, h⟩).on = 0 then .accept ⟨i, h⟩ else .scan (i + 1) }
    else some { s with main := .busy }
  | .assign i => some { s.setOn i 1 with main := .detach i }
  | .detach _ => some { s with main := .scan 0 }
  | .busy => some { s with main := .suspended }
  | .accept _ | .retry _ | .create _ | .suspended => none

def acceptInto (s : State) (i : Slot) (ret : ℤ) (addr : ℕ) : Option State :=
  if ret = -1 then some (s.setSock i { s.socks i with cfd := ret })
  else (s.fds.accept ret).map fun fds =>
    { s.setSock i { s.socks i with cfd := ret, addr := addr } with fds := fds }

def acceptStep (s : State) (ret : ℤ) (addr : ℕ) : Option State :=
  match s.main with
  | .accept i =>
    (acceptInto s i ret addr).map fun t =>
      { t with main := if ret = -1 then .retry i else .create i }
  | .retry i => (acceptInto s i ret addr).map fun t => { t with main := .accept i }
  | _ => none

def createStep (s : State) : Option State :=
  match s.main with
  | .create i =>
    some { (s.setSock i { s.socks i with tid := s.spawned }).setWorker s.spawned
        { slot := i, conn := s.fds.file (s.socks i).cfd, pc := .start } with
      spawned := s.spawned + 1
      main := .assign i }
  | _ => none

/-- `raise` directs the signal to the thread that calls it. -/
def raiseTarget (t : ℕ) : Target :=
  .thread (.worker t)

def workerStep (s : State) (t : ℕ) (w : Worker) : Option State :=
  match w.pc with
  | .start => some (s.setWorker t { w with pc := .read })
  | .failed => some ((s.setOn w.slot 0).setWorker t { w with pc := .exited })
  | .closing =>
    some { s.setWorker t { w with pc := .clear } with fds := s.fds.close (s.socks w.slot).cfd }
  | .clear => some ((s.setOn w.slot 0).setWorker t { w with pc := .raise })
  | .raise => some ((s.setPending (raiseTarget t) true).setWorker t { w with pc := .raised })
  | .raised =>
    if s.pending (.thread (.worker t)) then none
    else some (s.setWorker t { w with pc := .returned })
  | .read | .reply | .exited | .returned => none

def readStep (s : State) (t : ℕ) (w : Worker) (r : ReadResult) : Option State :=
  if w.pc = .read ∧ r.possible then
    match r with
    | .error => some (s.setWorker t { w with pc := .failed })
    | .eof => some (s.setWorker t { w with pc := .closing })
    | .data bytes rest =>
      some (s.setWorker t
        { w with pc := if strcmpEqual stopPassword (bytes ++ rest) then .clear else .reply })
  else none

def writeStep (s : State) (t : ℕ) (w : Worker) : Option State :=
  if w.pc = .reply then some (s.setWorker t { w with pc := .read }) else none

def WorkerPc.ended : WorkerPc → Bool
  | .exited | .returned => true
  | _ => false

def takes (s : State) : Thread → Bool
  | .main => true
  | .worker t => (s.threads t).any fun w => !w.pc.ended

/-- A pending signal reaches the thread: its own one first, else that of the
process. `sigsuspend` returns in `main` once the handler has run. -/
def deliverStep (s : State) (t : Thread) : Option State :=
  let target := if s.pending (.thread t) then Target.thread t else .process
  if s.pending target ∧ takes s t then
    some { s.setPending target false with
      main := if t = .main ∧ s.main = .suspended then .scan 0 else s.main }
  else none

def step (s : State) (l : Label) : Option State :=
  if s.alive = false then none
  else match l with
    | .main => mainStep s
    | .accept ret addr => acceptStep s ret addr
    | .create => createStep s
    | .createFails => if ∃ i, s.main = .create i then some { s with alive := false } else none
    | .detachFails => if ∃ i, s.main = .detach i then some { s with alive := false } else none
    | .worker t => (s.threads t).bind fun w => workerStep s t w
    | .read t r => (s.threads t).bind fun w => readStep s t w r
    | .write t => (s.threads t).bind fun w => writeStep s t w
    | .sigpipe t =>
      (s.threads t).bind fun w => if w.pc = .reply then some { s with alive := false } else none
    | .kill target => some (s.setPending target true)
    | .deliver t => deliverStep s t

def system (lfd : ℤ) (inherited : Finset ℤ) : System State Label where
  initial s := s = start lfd inherited
  step := step

end UnixProgramming.ThreadServer
