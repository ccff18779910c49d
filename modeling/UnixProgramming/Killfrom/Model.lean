import UnixProgramming.Library.Processes
import UnixProgramming.Library.Scan

/-! `killfrom.c`, which sends `SIGKILL` to every process identifier from `startpid` on. -/

namespace UnixProgramming.Killfrom

open Library

def MAXPID : ℤ := 32768

inductive Message
  | usage
  | killed (startpid endpid : ℤ)
  deriving DecidableEq, Repr

structure Run where
  calls : List ℤ
  received : Finset ℤ
  printed : List Message
  deriving DecidableEq

def idle : Run where
  calls := []
  received := ∅
  printed := []

def startpid (argv : List (List UInt8)) : ℤ :=
  atoi (argv.getD 1 [])

def endpid (argv : List (List UInt8)) : ℤ :=
  if argv.length = 3 ∧ atoi (argv.getD 2 []) < MAXPID then atoi (argv.getD 2 []) else MAXPID

def kill (t : Processes) (i : ℤ) (r : Run) : Run :=
  { r with calls := r.calls ++ [i], received := r.received ∪ t.addressed i }

/-- The next `n` rounds of the loop, which ends with the program itself. -/
def loop (t : Processes) : ℕ → ℤ → Run → Run
  | 0, _, r => r
  | n + 1, i, r => if t.self ∈ r.received then r else loop t n (i + 1) (kill t i r)

def main (t : Processes) (argv : List (List UInt8)) : Run :=
  if argv.length < 2 then { idle with printed := [.usage] }
  else
    let r := loop t (endpid argv + 1 - startpid argv).toNat (startpid argv) idle
    if t.self ∈ r.received then r
    else { r with printed := [.killed (startpid argv) (endpid argv)] }

end UnixProgramming.Killfrom
