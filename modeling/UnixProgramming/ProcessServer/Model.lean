import UnixProgramming.Library.Transition
import UnixProgramming.Library.Descriptors

/-! `multi_processor_server.c`: the tree of the processes that `main` forks, with
one atomic step per statement and a descriptor table for each process. -/

namespace UnixProgramming.ProcessServer

open Library Library.Transition

def EINTR : ℤ := 4
def EBADF : ℤ := 9
def ECHILD : ℤ := 10

def BUFFER_SIZE : ℕ := 1024

inductive Pc
  | top
  | accept
  | test (ret : ℤ)
  | fork
  | dispatch
  | closeListen
  | read
  | respond
  | closeCommunicate
  | closeParent
  | exited
  deriving DecidableEq, Repr

/-- The variables of `main` in one process. The open files before the loop's
`accept` and the first descriptor it returned are kept for the statements. -/
structure Proc where
  pc : Pc
  listenfd : ℤ
  communicatefd : ℤ
  errno : ℤ
  pid : ℤ
  buf : List UInt8
  fds : Descriptors
  before : ℤ → Option File
  accepted : Option ℤ

inductive ReadResult
  | error
  | eof
  | data (bytes : List UInt8)
  deriving DecidableEq, Repr

def ReadResult.possible : ReadResult → Bool
  | .error | .eof => true
  | .data bytes => 0 < bytes.length && bytes.length ≤ BUFFER_SIZE

def ReadResult.buf : ReadResult → List UInt8
  | .error | .eof => List.replicate BUFFER_SIZE 0
  | .data bytes => bytes ++ List.replicate (BUFFER_SIZE - bytes.length) 0

inductive Action
  | statement
  | accept (ret err : ℤ)
  | forkFails
  | read (r : ReadResult)
  | write
  | sigpipe
  | recycle (childless : Bool)
  deriving DecidableEq, Repr

/-- The assignment in the loop's condition takes the value of the conjunction. -/
def testStep (q : Proc) (ret : ℤ) : Proc :=
  if ret = -1 ∧ q.errno = EINTR then { q with communicatefd := 1, pc := .accept }
  else { q with communicatefd := 0, pc := .fork }

def statementStep (q : Proc) : Option Proc :=
  match q.pc with
  | .top => some { q with accepted := none, before := q.fds.file, pc := .accept }
  | .test ret => some (testStep q ret)
  | .dispatch =>
    some { q with
      pc := if q.pid = 0 then .closeListen else if 0 < q.pid then .closeParent else .exited }
  | .closeListen => some { q with fds := q.fds.close q.listenfd, pc := .read }
  | .closeCommunicate | .closeParent =>
    some { q with fds := q.fds.close q.communicatefd, pc := .top }
  | .accept | .fork | .read | .respond | .exited => none

-- `errno` is read only after an `accept` that failed, which has set it.
def acceptStep (q : Proc) (ret err : ℤ) : Option Proc :=
  if q.pc = .accept then
    if ret = -1 then
      if q.fds.file q.listenfd = some .listener ∨ err = EBADF then
        some { q with errno := err, pc := .test ret }
      else none
    else if q.fds.file q.listenfd = some .listener then
      (q.fds.accept ret).map fun fds =>
        { q with fds := fds, accepted := q.accepted <|> some ret, pc := .test ret }
    else none
  else none

def readStep (q : Proc) (r : ReadResult) : Option Proc :=
  if q.pc = .read ∧ r.possible then
    some { q with
      buf := r.buf
      pc := match r with
        | .error => .read
        | .eof => .closeCommunicate
        | .data _ => .respond }
  else none

/-- The handler of `SIGCHLD`: its last `waitpid` fails when no child is left. -/
def recycle (q : Proc) (childless : Bool) : Proc :=
  { q with errno := if childless then ECHILD else q.errno }

def actStep (q : Proc) : Action → Option Proc
  | .statement => statementStep q
  | .accept ret err => acceptStep q ret err
  | .forkFails => if q.pc = .fork then some { q with pc := .exited } else none
  | .read r => readStep q r
  | .write => if q.pc = .respond then some { q with pc := .read } else none
  | .sigpipe => if q.pc = .respond then some { q with pc := .exited } else none
  | .recycle childless => if q.pc = .exited then none else some (recycle q childless)

structure State where
  procs : ℕ → Option Proc
  forked : ℕ

inductive Label
  | act (p : ℕ) (a : Action)
  | fork (p : ℕ)
  deriving DecidableEq, Repr

def start (listenfd : ℤ) (inherited : Finset ℤ) : State where
  procs := Function.update (fun _ => none) 0 <| some {
    pc := .top
    listenfd := listenfd
    communicatefd := 0
    errno := 0
    pid := 0
    buf := []
    fds := .boot listenfd inherited
    before := fun _ => none
    accepted := none }
  forked := 0

def State.setProc (s : State) (p : ℕ) (q : Proc) : State :=
  { s with procs := Function.update s.procs p (some q) }

/-- The children are numbered from 1, and `fork` returns the child's number to
its parent. -/
def forkStep (s : State) (p : ℕ) (q : Proc) : Option State :=
  if q.pc = .fork then
    let child := s.forked + 1
    some { (s.setProc p { q with pid := child, pc := .dispatch }).setProc child
        { q with pid := 0, pc := .dispatch } with
      forked := child }
  else none

def step (s : State) : Label → Option State
  | .act p a => (s.procs p).bind fun q => (actStep q a).map (s.setProc p)
  | .fork p => (s.procs p).bind fun q => forkStep s p q

def system (listenfd : ℤ) (inherited : Finset ℤ) : System State Label where
  initial s := s = start listenfd inherited
  step := step

end UnixProgramming.ProcessServer
