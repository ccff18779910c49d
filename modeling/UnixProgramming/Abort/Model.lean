import UnixProgramming.Library.Transition
import UnixProgramming.Library.Signals
import Mathlib.Tactic

/-! `abort.c`: the re-implemented `abort`, one statement at a time. A pending signal that
is not blocked is delivered before the next statement. -/

namespace UnixProgramming.Abort

open Library Library.Transition

abbrev Signal := ℕ

def SIGABRT : Signal := 6

def EXIT_FAILURE : ℤ := 1

-- A caught `SIGABRT` goes to a handler that returns.
inductive Handler
  | SIG_DFL
  | SIG_IGN
  | caught
  deriving DecidableEq, Repr

structure Sigaction where
  sa_handler : Handler
  sa_mask : Finset Signal
  deriving DecidableEq

/-- The process at the call, with the result of the first `fcloseall` (the second one is
not looked at) and the other signals that end the process when they are delivered. -/
structure Entry where
  signals : Signals Signal
  action : Sigaction
  flushed : ℤ
  fatal : Signal → Bool
  settled : ∀ x, ¬ signals.Deliverable x

inductive Outcome
  | exited (status : ℤ)
  | killed (x : Signal)
  deriving DecidableEq, Repr

inductive Pc
  | query
  | ignored
  | default
  | flush
  | member
  | unblock
  | kill
  | flushAgain
  | restore
  | setMask
  | killAgain
  | exit
  | ended (o : Outcome)
  deriving DecidableEq, Repr

-- `saved` is the mask to go back to when the handler of `SIGABRT` returns.
structure State where
  signals : Signals Signal
  action : Sigaction
  sa : Sigaction
  saved : Option (Finset Signal)
  pc : Pc

def start (e : Entry) : State where
  signals := e.signals
  action := e.action
  sa := ⟨.SIG_DFL, ∅⟩
  saved := none
  pc := .query

inductive Label
  | statement
  | deliver (x : Signal)
  | handlerReturns (installed : Option Sigaction)
  deriving DecidableEq

def Settled (s : State) : Prop :=
  s.saved = none ∧ ∀ x ∈ s.signals.pending, x ∈ s.signals.blocked

instance (s : State) : Decidable (Settled s) :=
  inferInstanceAs (Decidable (_ ∧ _))

def statement (e : Entry) (s : State) : Option State :=
  match s.pc with
  | .query => some { s with sa := s.action, pc := .ignored }
  | .ignored =>
    if s.sa.sa_handler = .SIG_IGN then
      some { s with
        sa := { s.sa with sa_handler := .SIG_DFL }
        action := { s.sa with sa_handler := .SIG_DFL }
        pc := .default }
    else some { s with pc := .default }
  | .default => some { s with pc := if s.sa.sa_handler = .SIG_DFL then .flush else .member }
  | .flush => some { s with
      pc := if e.flushed ≠ 0 then .ended (.exited EXIT_FAILURE) else .member }
  | .member =>
    if SIGABRT ∈ s.sa.sa_mask then
      some { s with sa := { s.sa with sa_mask := s.sa.sa_mask.erase SIGABRT }, pc := .unblock }
    else some { s with pc := .kill }
  | .unblock => some { s with signals := s.signals.setMask s.sa.sa_mask, pc := .kill }
  | .kill => some { s with signals := s.signals.send SIGABRT, pc := .flushAgain }
  | .flushAgain => some { s with pc := .restore }
  | .restore => some { s with
      sa := { s.sa with sa_handler := .SIG_DFL }
      action := { s.sa with sa_handler := .SIG_DFL }
      pc := .setMask }
  | .setMask => some { s with signals := s.signals.setMask s.sa.sa_mask, pc := .killAgain }
  | .killAgain => some { s with signals := s.signals.send SIGABRT, pc := .exit }
  | .exit => some { s with pc := .ended (.exited 1) }
  | .ended _ => none

def deliver (e : Entry) (s : State) (x : Signal) : Option State :=
  (s.signals.take x).map fun g =>
    if x = SIGABRT then
      match s.action.sa_handler with
      | .SIG_DFL => { s with signals := g, pc := .ended (.killed SIGABRT) }
      | .SIG_IGN => { s with signals := g }
      | .caught =>
        { s with signals := g.enter SIGABRT s.action.sa_mask, saved := some g.blocked }
    else if e.fatal x then { s with signals := g, pc := .ended (.killed x) }
    else { s with signals := g }

def handlerReturns (s : State) (installed : Option Sigaction) : Option State :=
  s.saved.map fun mask =>
    { s with
      signals := s.signals.setMask mask
      action := installed.getD s.action
      saved := none }

def ended (s : State) : Bool :=
  match s.pc with
  | .ended _ => true
  | _ => false

def step (e : Entry) (s : State) (l : Label) : Option State :=
  if ended s then none
  else match l with
    | .statement => if Settled s then statement e s else none
    | .deliver x => deliver e s x
    | .handlerReturns installed => handlerReturns s installed

def system (e : Entry) : System State Label where
  initial s := s = start e
  step := step e

end UnixProgramming.Abort
