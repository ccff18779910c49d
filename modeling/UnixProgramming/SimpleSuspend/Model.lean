import UnixProgramming.Library.Transition
import UnixProgramming.Library.Signals
import Mathlib.Tactic

/-! `simpleSuspend.c`: three signals are blocked, listed while they are pending, and let
in by one `sigsuspend`. -/

namespace UnixProgramming.SimpleSuspend

open Library Library.Transition

abbrev Signal := ℕ

def SIGINT : Signal := 2
def SIGUSR1 : Signal := 10
def SIGUSR2 : Signal := 12
def NSIG : ℕ := 65

def EINTR : ℤ := 4

def EXIT_SUCCESS : ℤ := 0
def EXIT_FAILURE : ℤ := 1

def blockSet : Finset Signal := {SIGUSR1, SIGUSR2, SIGINT}

/-- `-1` for a number that is no signal. -/
def sigismember (set : Finset Signal) (signo : ℕ) : ℤ :=
  if 1 ≤ signo ∧ signo < NSIG then if signo ∈ set then 1 else 0 else -1

inductive Report
  | before
  | after
  deriving DecidableEq, Repr

inductive Line
  | pid
  | caught (signo : Signal)
  | pending (r : Report) (signo : ℕ)
  | error (call : String)
  | after
  deriving DecidableEq, Repr

inductive Outcome
  | exited (status : ℤ)
  | killed (signo : Signal)
  deriving DecidableEq, Repr

inductive Pc
  | getpid
  | sigprocmask
  | sigaction (signos : List Signal)
  | sleep
  | sigpending (r : Report)
  | list (r : Report) (i : ℕ)
  | sigsuspend
  | suspended
  | returned
  | after
  | ended (o : Outcome)
  deriving DecidableEq, Repr

/-- A call of `handler`, with the mask that its return restores. -/
structure Frame where
  signo : Signal
  printed : Bool
  mask : Finset Signal
  deriving DecidableEq

/-- What the process has when `main` is entered: its mask, its pending signals, and which
signals end it as long as it has no handler for them. -/
structure Entry where
  signals : Signals Signal
  fatal : Signal → Bool

structure State where
  signals : Signals Signal
  prevSet : Finset Signal
  handled : Finset Signal
  pendings : Finset Signal
  -- the mask that `sigsuspend` restores
  saved : Finset Signal
  errno : ℤ
  frames : List Frame
  pc : Pc
  out : List Line

def start (e : Entry) : State where
  signals := e.signals
  prevSet := ∅
  handled := ∅
  pendings := ∅
  saved := ∅
  errno := 0
  frames := []
  pc := .getpid
  out := []

inductive Label
  | statement
  | handler
  | send (x : Signal)
  | deliver (x : Signal)
  deriving DecidableEq, Repr

def print (s : State) (line : Line) : State :=
  { s with out := s.out ++ [line] }

def listStep (s : State) (r : Report) (i : ℕ) : State :=
  if i < NSIG then
    { (if sigismember s.pendings i ≠ 0 then print s (.pending r i) else s) with
      pc := .list r (i + 1) }
  else { s with pc := match r with
    | .before => .sigsuspend
    | .after => .ended (.exited EXIT_SUCCESS) }

def statement (s : State) : Option State :=
  match s.pc with
  | .getpid => some { print s .pid with pc := .sigprocmask }
  | .sigprocmask => some { s with
      prevSet := s.signals.blocked
      signals := s.signals.setMask (s.signals.blocked ∪ blockSet)
      pc := .sigaction [SIGUSR1, SIGUSR2, SIGINT] }
  | .sigaction (x :: xs) => some { s with handled := insert x s.handled, pc := .sigaction xs }
  | .sigaction [] => some { s with pc := .sleep }
  | .sleep => some { s with pc := .sigpending .before }
  | .sigpending r => some { s with pendings := s.signals.pending, pc := .list r 0 }
  | .list r i => some (listStep s r i)
  | .sigsuspend => some { s with
      saved := s.signals.blocked
      signals := s.signals.setMask s.prevSet
      pc := .suspended }
  | .returned =>
    if s.errno ≠ EINTR then
      some { print s (.error "sigsuspend") with pc := .ended (.exited EXIT_FAILURE) }
    else some { s with pc := .after }
  | .after => some { print s .after with pc := .sigpending .after }
  | .suspended | .ended _ => none

def savedMask (s : State) : Finset Signal :=
  if s.pc = .suspended ∧ s.frames = [] then s.saved else s.signals.blocked

def deliver (e : Entry) (s : State) (x : Signal) : Option State :=
  (s.signals.take x).map fun g =>
    if x ∈ s.handled then
      { s with signals := g.enter x ∅, frames := ⟨x, false, savedMask s⟩ :: s.frames }
    else if e.fatal x then { s with signals := g, pc := .ended (.killed x) }
    else { s with signals := g }

/-- The statements of `handler`. The return of the outermost call ends `sigsuspend`. -/
def handlerStep (s : State) : Option State :=
  match s.frames with
  | [] => none
  | f :: fs =>
    if f.printed then
      some { s with
        signals := s.signals.setMask f.mask
        frames := fs
        errno := if fs = [] ∧ s.pc = .suspended then EINTR else s.errno
        pc := if fs = [] ∧ s.pc = .suspended then .returned else s.pc }
    else
      some { (if f.signo = SIGUSR1 ∨ f.signo = SIGUSR2 ∨ f.signo = SIGINT then
          print s (.caught f.signo) else s) with
        frames := { f with printed := true } :: fs }

def ended (s : State) : Bool :=
  match s.pc with
  | .ended _ => true
  | _ => false

/-- Nothing comes between the process and its next statement. -/
def Settled (s : State) : Prop :=
  s.frames = [] ∧ ∀ x ∈ s.signals.pending, x ∈ s.signals.blocked

instance (s : State) : Decidable (Settled s) :=
  inferInstanceAs (Decidable (_ ∧ _))

def step (e : Entry) (s : State) (l : Label) : Option State :=
  if ended s then none
  else match l with
    | .statement => if Settled s then statement s else none
    | .handler => handlerStep s
    | .send x => some { s with signals := s.signals.send x }
    | .deliver x => deliver e s x

def system (e : Entry) : System State Label where
  initial s := s = start e
  step := step e

end UnixProgramming.SimpleSuspend
