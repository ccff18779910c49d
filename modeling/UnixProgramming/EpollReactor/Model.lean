import UnixProgramming.Library.Transition
import UnixProgramming.Library.Descriptors
import Mathlib.Tactic.Simps.Basic

/-! `myEpollReactor.c`: the table `Events`, the epoll set, the call-backs and the
event loop of `main`, which stops at one state between two call-backs. -/

namespace UnixProgramming.EpollReactor

open Library Library.Transition

def MAXEVENT : ℕ := 1024
def BUFSZ : ℕ := 1024

abbrev Slot := Fin (MAXEVENT + 1)

def listener : Slot := Fin.last MAXEVENT

abbrev Mask := BitVec 32

def EPOLLIN : Mask := 0x001
def EPOLLOUT : Mask := 0x004
def EPOLLERR : Mask := 0x008
def EPOLLHUP : Mask := 0x010

def has (mask bit : Mask) : Bool :=
  mask &&& bit != 0

inductive CallBack
  | acceptconnection
  | recvData
  | sendData
  deriving DecidableEq, Repr

structure Event where
  fd : ℤ
  events : Mask
  arg : Option Slot
  status : ℤ
  call_back : Option CallBack
  deriving DecidableEq, Repr

def Event.zero : Event := ⟨0, 0, none, 0, none⟩

inductive Action
  | accept (ret : ℤ)
  | recv (fd : ℤ)
  | send (fd : ℤ)
  | print (buf : List UInt8)
  | close (fd : ℤ)
  deriving DecidableEq, Repr

structure Reactor where
  Events : Slot → Event
  fds : Descriptors
  interest : ℤ → Option (Slot × Mask)
  log : List Action

namespace Reactor

@[simps] def put (r : Reactor) (i : Slot) (event : Event) : Reactor :=
  { r with Events := Function.update r.Events i event }

@[simps] def watch (r : Reactor) (fd : ℤ) (entry : Option (Slot × Mask)) : Reactor :=
  { r with interest := Function.update r.interest fd entry }

@[simps] def record (r : Reactor) (a : Action) : Reactor :=
  { r with log := r.log ++ [a] }

end Reactor

inductive CtlOp
  | EPOLL_CTL_ADD
  | EPOLL_CTL_MOD
  | EPOLL_CTL_DEL
  deriving DecidableEq, Repr

def epoll_ctl (r : Reactor) (op : CtlOp) (fd : ℤ) (event : Option (Slot × Mask)) : Option Reactor :=
  match op with
  | .EPOLL_CTL_ADD =>
    if (r.interest fd).isNone then event.map fun entry => r.watch fd (some entry) else none
  | .EPOLL_CTL_MOD =>
    if (r.interest fd).isSome then event.map fun entry => r.watch fd (some entry) else none
  | .EPOLL_CTL_DEL => if (r.interest fd).isSome then some (r.watch fd none) else none

/-- A closed descriptor leaves the epoll set. -/
def close (r : Reactor) (fd : ℤ) : Reactor :=
  { (r.watch fd none).record (.close fd) with fds := r.fds.close fd }

def accept (r : Reactor) (lfd ret : ℤ) : Option Reactor :=
  if ret < 0 then some r
  else if r.fds.file lfd = some .listener then
    (r.fds.accept ret).map fun fds => { r.record (.accept ret) with fds := fds }
  else none

def setevent (r : Reactor) (i : Slot) (fd : ℤ) (events : Mask) (arg : Option Slot) : Reactor :=
  r.put i { r.Events i with fd := fd, events := events, arg := arg, status := 0 }

def eventadd (r : Reactor) (i : Slot) : Except String Reactor :=
  let event := r.Events i
  let op := if event.status = 1 then CtlOp.EPOLL_CTL_MOD else .EPOLL_CTL_ADD
  let r := if event.status = 1 then r else r.put i { event with status := 1 }
  match epoll_ctl r op event.fd (some (i, event.events)) with
  | none => .error "eventadd(): epoll_ctl()"
  | some r => .ok r

def eventdel (r : Reactor) (i : Slot) : Except String Reactor :=
  let event := r.Events i
  let op := if event.status = 0 then CtlOp.EPOLL_CTL_MOD else .EPOLL_CTL_DEL
  let r := if event.status = 0 then r else r.put i { event with status := 0 }
  match epoll_ctl r op event.fd none with
  | none => .error "event_del() : epoll_ctl()"
  | some r => .ok r

def sendData (r : Reactor) (i : Slot) (len : ℤ) : Except String Reactor := do
  let r ← eventdel (r.record (.send (r.Events i).fd)) i
  if 0 < len then
    eventadd (r.put i { r.Events i with call_back := some .recvData, events := EPOLLIN }) i
  else
    let r ← eventdel r i
    .ok (close r (r.Events i).fd)

def received (bytes : List UInt8) : List UInt8 :=
  bytes ++ List.replicate (BUFSZ - bytes.length) 0

def recvData (r : Reactor) (i : Slot) (bytes : Option (List UInt8)) : Except String Reactor := do
  let r ← eventdel (r.record (.recv (r.Events i).fd)) i
  match bytes with
  | some (b :: bs) =>
    let r := r.record (.print (received (b :: bs)))
    eventadd (r.put i { r.Events i with call_back := some .sendData, events := EPOLLOUT }) i
  | some [] | none => .ok (close r (r.Events i).fd)

/-- The loop over `Events[i]` for the last `n` values of `i`. -/
def scan (Events : Slot → Event) : ℕ → Option Slot
  | 0 => none
  | n + 1 =>
    let i : Slot := ⟨MAXEVENT - (n + 1), by omega⟩
    if (Events i).status = 0 then some i else scan Events n

def freeSlot (Events : Slot → Event) : Option Slot :=
  scan Events MAXEVENT

def install (r : Reactor) (fd : ℤ) : Except String Reactor :=
  match freeSlot r.Events with
  | none => .ok r
  | some i => do
    let r ← eventadd (setevent r i fd EPOLLIN (some i)) i
    .ok (r.put i { r.Events i with call_back := some .recvData })

def acceptconnection (r : Reactor) (i : Slot) (ret : ℤ) : Option (Except String Reactor) :=
  (accept r (r.Events i).fd ret).map fun r =>
    if ret < 0 then .error "accept()" else install r ret

inductive Returned
  | accept (ret : ℤ)
  | recv (bytes : Option (List UInt8))
  | send (len : ℤ)
  deriving DecidableEq, Repr

def callBack (r : Reactor) (i : Slot) : CallBack → Returned → Option (Except String Reactor)
  | .acceptconnection, .accept ret => acceptconnection r i ret
  | .recvData, .recv bytes =>
    if bytes.all fun bs => bs.length ≤ BUFSZ then some (recvData r i bytes) else none
  | .sendData, .send len => if -1 ≤ len ∧ len ≤ 32 then some (sendData r i len) else none
  | _, _ => none

/-- An entry of `EpollEvents`, with the file that its descriptor denoted when
`epoll_wait` returned. -/
structure Reported where
  ptr : Slot
  events : Mask
  file : Option File
  deriving DecidableEq, Repr

structure Call where
  handler : CallBack
  slot : Slot
  file : Option File
  deriving DecidableEq, Repr

inductive Phase
  | wait
  | readable
  | writable
  | advance
  deriving DecidableEq, Repr

/-- `main` with the entries that it has not passed yet, and the calls it has made
for the first of them. -/
structure Process where
  reactor : Reactor
  phase : Phase
  queue : List Reported
  calls : List Call
  exit : Option String

def report (r : Reactor) (ready : ℤ × Mask) : Option Reported :=
  (r.interest ready.1).map fun entry => ⟨entry.1, ready.2, r.fds.file ready.1⟩

def reportable (r : Reactor) (ready : List (ℤ × Mask)) : Bool :=
  ready.length ≤ MAXEVENT + 1 && decide (ready.map Prod.fst).Nodup &&
    ready.all fun x => (r.interest x.1).any fun entry =>
      x.2 &&& ~~~(entry.2 ||| EPOLLERR ||| EPOLLHUP) == 0

def waitStep (p : Process) (ready : List (ℤ × Mask)) : Option Process :=
  if p.phase = .wait ∧ reportable p.reactor ready then
    some { p with
      queue := ready.filterMap (report p.reactor)
      calls := []
      phase := if ready = [] then .wait else .readable }
  else none

/-- One of the two tests of the loop's body. A null call-back ends the process. -/
def testEvent (p : Process) (e : Reported) (bit : Mask) (next : Phase) (ret : Option Returned) :
    Option Process :=
  let event := p.reactor.Events e.ptr
  if has event.events bit ∧ has e.events bit then
    match event.call_back, ret with
    | some handler, some ret =>
      let called : Call := ⟨handler, e.ptr, p.reactor.fds.file event.fd⟩
      (callBack p.reactor e.ptr handler ret).map fun result =>
        match result with
        | .ok r => { p with reactor := r, calls := p.calls ++ [called], phase := next }
        | .error message => { p with calls := p.calls ++ [called], exit := some message }
    | none, none => some { p with exit := some "SIGSEGV" }
    | _, _ => none
  else if ret = none then some { p with phase := next } else none

def testStep (p : Process) (bit : Mask) (next : Phase) (ret : Option Returned) : Option Process :=
  match p.queue with
  | [] => none
  | e :: _ => testEvent p e bit next ret

def advanceStep (p : Process) : Option Process :=
  if p.phase = .advance then
    some { p with
      queue := p.queue.tail
      calls := []
      phase := if p.queue.tail = [] then .wait else .readable }
  else none

inductive Label
  | wait (ready : List (ℤ × Mask))
  | waitFails
  | test (ret : Option Returned)
  | advance
  deriving DecidableEq, Repr

def step (p : Process) (l : Label) : Option Process :=
  if p.exit.isSome then none
  else match l with
    | .wait ready => waitStep p ready
    | .waitFails => if p.phase = .wait then some { p with exit := some "epoll_wait()" } else none
    | .test ret =>
      match p.phase with
      | .readable => testStep p EPOLLIN .writable ret
      | .writable => testStep p EPOLLOUT .advance ret
      | .wait | .advance => none
    | .advance => advanceStep p

def boot (lfd : ℤ) (inherited : Finset ℤ) : Reactor where
  Events := Function.update (fun _ => Event.zero) listener
    ⟨lfd, EPOLLIN, some listener, 1, some .acceptconnection⟩
  fds := .boot lfd inherited
  interest := Function.update (fun _ => none) lfd (some (listener, EPOLLIN))
  log := []

def start (lfd : ℤ) (inherited : Finset ℤ) : Process where
  reactor := boot lfd inherited
  phase := .wait
  queue := []
  calls := []
  exit := none

def system (lfd : ℤ) (inherited : Finset ℤ) : System Process Label where
  initial p := p = start lfd inherited
  step := step

end UnixProgramming.EpollReactor
