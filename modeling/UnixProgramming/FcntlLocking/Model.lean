import UnixProgramming.LineEcho.Model
import UnixProgramming.Library.Scan

/-! `i_fcntl_locking.c`, which reads its requests from standard input, and
`t_fcntl_locking.c`, which takes one from its arguments. -/

namespace UnixProgramming.FcntlLocking

open Library
open LineEcho (fgets)

def MAX_LINE : ℕ := 100

def EXIT_SUCCESS : ℤ := 0

def EXIT_FAILURE : ℤ := 1

def EAGAIN : ℤ := 11

def EACCES : ℤ := 13

def EDEADLK : ℤ := 35

inductive Cmd
  | F_GETLK
  | F_SETLK
  | F_SETLKW
  deriving DecidableEq, Repr

inductive LockType
  | F_RDLCK
  | F_WRLCK
  | F_UNLCK
  deriving DecidableEq, Repr

inductive Whence
  | SEEK_SET
  | SEEK_CUR
  | SEEK_END
  deriving DecidableEq, Repr

structure Flock where
  l_type : LockType
  l_whence : Whence
  l_start : ℤ
  l_len : ℤ
  deriving DecidableEq, Repr

structure Request where
  cmd : Cmd
  fl : Flock
  deriving DecidableEq, Repr

/-- What `fcntl` returns, with the `flock` that `F_GETLK` stores. -/
inductive Reply
  | done (fl : Flock) (l_pid : ℤ)
  | failed (errno : ℤ)
  deriving DecidableEq, Repr

namespace IFcntl

inductive Message
  | usage
  | cannotOpen
  | enter
  | prompt
  | cmdFmt
  | invalidCommand
  | perror
  | placeable
  -- The format ends in `lld%:%lld, (held by PID %ld)`: `l_start` stands after the colon, `l_len`
  -- where the holder should be, and `l_pid` is not shown.
  | denied (l_type : LockType) (l_start l_len : ℤ)
  | unlocked
  | gotLock
  -- No string is passed for the `%s` of this one, so what it shows is not defined.
  | incompatible
  | deadlock
  deriving DecidableEq, Repr

-- `stores` are the indices at which `line[strlen(line) - 1]` has been overwritten.
structure Session where
  requests : List Request
  printed : List Message
  stores : List ℤ
  exit : Option ℤ
  deriving DecidableEq, Repr

/-- The zero byte at the end of `s` is found as well. -/
def strchr (s : String) (c : UInt8) : Bool :=
  c ∈ bytes s ++ [0]

def format : List Directive :=
  [.char, .space, .char, .space, .lld, .space, .lld, .space, .char]

def request (cmdCh lock whence : UInt8) (st len : ℤ) : Option Request :=
  if strchr "gsw" cmdCh && strchr "rwu" lock && strchr "sce" whence then
    some {
      cmd := if [cmdCh] = bytes "g" then .F_GETLK
        else if [cmdCh] = bytes "s" then .F_SETLK else .F_SETLKW
      fl := {
        l_type := if [lock] = bytes "r" then .F_RDLCK
          else if [lock] = bytes "w" then .F_WRLCK else .F_UNLCK
        l_whence := if [whence] = bytes "c" then .SEEK_CUR
          else if [whence] = bytes "e" then .SEEK_END else .SEEK_SET
        l_start := st
        l_len := len } }
  else none

def decode (line : List UInt8) : Option Request :=
  match sscanf format line with
  | [.char cmdCh, .char lock, .lld st, .lld len] => request cmdCh lock 115 st len
  | [.char cmdCh, .char lock, .lld st, .lld len, .char whence] => request cmdCh lock whence st len
  | _ => none

def report (r : Request) : Reply → List Message
  | .failed errno =>
    if r.cmd = .F_GETLK then [.perror]
    else if errno = EAGAIN ∨ errno = EACCES then [.incompatible]
    else if errno = EDEADLK then [.deadlock]
    else []
  | .done fl _ =>
    if r.cmd = .F_GETLK then
      [if fl.l_type = .F_UNLCK then .placeable else .denied fl.l_type fl.l_start fl.l_len]
    else [if r.fl.l_type = .F_UNLCK then .unlocked else .gotLock]

def fatal (r : Request) : Reply → Bool
  | .failed _ => r.cmd = .F_GETLK
  | .done _ _ => false

def issue (reply : Reply) (s : Session) (r : Request) : Session :=
  { s with
    requests := s.requests ++ [r]
    printed := s.printed ++ report r reply
    exit := if fatal r reply then some EXIT_FAILURE else s.exit }

def execute (reply : Reply) (s : Session) (line : List UInt8) : Session :=
  if line = [] then s
  else if line.head? = some 63 then { s with printed := s.printed ++ [.cmdFmt] }
  else
    match decode line with
    | none => { s with printed := s.printed ++ [.invalidCommand] }
    | some r => issue reply s r

/-- What `fgets` stores into `line` at each call until the input has ended. -/
def pieces : ℕ → List UInt8 → List (List UInt8)
  | 0, _ => []
  | n + 1, input =>
    if input = [] then []
    else (fgets (MAX_LINE - 1) input).1 :: pieces n (fgets (MAX_LINE - 1) input).2

def strlen (piece : List UInt8) : ℕ :=
  (piece.takeWhile (· ≠ 0)).length

/-- The string in `line` once its last byte is overwritten. -/
def trim (piece : List UInt8) : List UInt8 :=
  (piece.takeWhile (· ≠ 0)).dropLast

/-- One round of the loop; the `k`-th call of `fcntl` gets `replies k`. -/
def round (replies : ℕ → Reply) (s : Session) (piece : List UInt8) : Session :=
  if s.exit = none then
    execute (replies s.requests.length)
      { s with
        printed := s.printed ++ [.prompt]
        stores := s.stores ++ [(strlen piece : ℤ) - 1] }
      (trim piece)
  else s

def loop (replies : ℕ → Reply) (input : List UInt8) (s : Session) : Session :=
  let s := (pieces input.length input).foldl (round replies) s
  if s.exit = none then
    { s with printed := s.printed ++ [.prompt], exit := some EXIT_SUCCESS }
  else s

def refuse (m : Message) : Session where
  requests := []
  printed := [m]
  stores := []
  exit := some EXIT_FAILURE

def opened : Session where
  requests := []
  printed := [.enter]
  stores := []
  exit := none

def main (argv : List (List UInt8)) (fd : ℤ) (replies : ℕ → Reply) (input : List UInt8) :
    Session :=
  if argv.length ≠ 2 ∨ argv[1]? = some (bytes "help") then refuse .usage
  else if fd = -1 then refuse .cannotOpen
  else loop replies input opened

end IFcntl

namespace TFcntl

inductive Outcome
  | errExit (arg : String)
  | failed (message : String)
  | placeable
  | denied (fl : Flock) (l_pid : ℤ)
  | unlocked
  | locked
  deriving DecidableEq, Repr

def keyword {α : Type} (table : List (String × α)) (error : String) (arg : List UInt8) :
    Except String α :=
  match table with
  | [] => .error error
  | (word, value) :: table =>
    if bytes word = arg then .ok value else keyword table error arg

def cmd : List UInt8 → Except String Cmd :=
  keyword [("F_SETLK", .F_SETLK), ("F_SETLKW", .F_SETLKW), ("F_GETLK", .F_GETLK)] "Invalid cmd"

def type : List UInt8 → Except String LockType :=
  keyword [("F_RDLCK", .F_RDLCK), ("F_WRLCK", .F_WRLCK), ("F_UNLCK", .F_UNLCK)] "Invalid type"

def whence : List UInt8 → Except String Whence :=
  keyword [("SEEK_SET", .SEEK_SET), ("SEEK_CUR", .SEEK_CUR), ("SEEK_END", .SEEK_END)]
    "Invalid Whence"

def request (argv : List (List UInt8)) (fd : ℤ) : Except String Request :=
  match argv with
  | [_, cmdArg, typeArg, whenceArg, startArg, lenArg] =>
    if fd = -1 then .error "open()"
    else do
      let cmd ← cmd cmdArg
      let type ← type typeArg
      let whence ← whence whenceArg
      let start := atoi startArg
      if start < 0 ∧ whence = .SEEK_SET then
        .error "l_whence == SEEK_SET, so make sure start >= 0"
      else
        let len := atoi lenArg
        if len < 0 then .error "Invalid len"
        else .ok { cmd := cmd, fl := ⟨type, whence, start, len⟩ }
  | _ => .error "./app cmd l_type l_whence l_start l_len"

def report (r : Request) : Reply → Outcome
  | .failed errno =>
    if r.cmd = .F_GETLK then .errExit "Invalid fcntl-F_GETLK"
    else
      match r.fl.l_type with
      | .F_RDLCK => .failed "READ_LOCK FAIELD\n"
      | .F_WRLCK => .failed "WRITE_LOCK FAILED"
      | .F_UNLCK =>
        if errno = EAGAIN ∨ errno = EACCES then .errExit "EAGAIN || EACCESS"
        else if errno = EDEADLK then .errExit "DEADLOCK"
        else .errExit "fcntl-FSETLK(W)"
  | .done fl l_pid =>
    if r.cmd = .F_GETLK then if fl.l_type = .F_UNLCK then .placeable else .denied fl l_pid
    else if r.fl.l_type = .F_UNLCK then .unlocked else .locked

def main (argv : List (List UInt8)) (fd : ℤ) (reply : Reply) : List Request × Outcome :=
  match request argv fd with
  | .error arg => ([], .errExit arg)
  | .ok r => ([r], report r reply)

end TFcntl

end UnixProgramming.FcntlLocking
