import UnixProgramming.FcntlLocking.Sessions

/-! What the programs print about their own locks agrees with the locks that `fcntl` keeps. -/

namespace UnixProgramming.FcntlLocking

open Library Library.Transition

inductive News
  | locked
  | unlocked
  | placeable
  | denied (l_type : LockType) (l_start l_len : ℤ) (l_pid : Option ℤ)
  | refused
  deriving DecidableEq, Repr

def IFcntl.Message.news : IFcntl.Message → Option News
  | .gotLock => some .locked
  | .unlocked => some .unlocked
  | .placeable => some .placeable
  | .denied l_type l_start l_len => some (.denied l_type l_start l_len none)
  | .incompatible | .deadlock => some .refused
  | .usage | .cannotOpen | .enter | .prompt | .cmdFmt | .invalidCommand | .perror => none

def TFcntl.Outcome.news : TFcntl.Outcome → Option News
  | .locked => some .locked
  | .unlocked => some .unlocked
  | .placeable => some .placeable
  | .denied fl l_pid => some (.denied fl.l_type fl.l_start fl.l_len (some l_pid))
  | .errExit _ | .failed _ => none

/-- `file_lock.c` has its lock when it goes on without a message. -/
def FileLock.Outcome.news : FileLock.Outcome → Option News
  | .sleeping => some .locked
  | .openError | .fcntlError => none

namespace Records

open IFcntl (Message Session)

variable {size x : ℤ} {s : State} {pid : ℤ} {p : Process} {program : Program}
  {point : Point} {r : Request} {reply : Reply} {c : Request × Reply}
  {calls : List (Request × Reply)} {held : ℤ → Option Mode}

def Point.news : Point → List News
  | .reading s _ | .calling s _ _ | .ended s => s.printed.filterMap Message.news
  | .reported o => o.news.toList
  | .locked o => o.news.toList
  | .requesting _ | .locking _ => []

def Program.news (program : Program) (c : Request × Reply) : List News :=
  match program with
  | .i_fcntl_locking _ _ _ => (IFcntl.report c.1 c.2).filterMap Message.news
  | .t_fcntl_locking _ _ => (TFcntl.report c.1 c.2).news.toList
  | .file_lock _ => (FileLock.report c.2).news.toList

/-- What a process prints about its requests, each piece with its request. -/
def Process.answers (p : Process) : List (Request × News) :=
  p.calls.flatMap fun c => (p.program.news c).map fun n => (c.1, n)

def heed (size : ℤ) (held : ℤ → Option Mode) (a : Request × News) : ℤ → Option Mode :=
  match a.2, region size a.1.fl with
  | .locked, .ok g => fun x => if x ∈ g then a.1.fl.l_type.mode else held x
  | .unlocked, .ok g => fun x => if x ∈ g then none else held x
  | _, _ => held

def Process.announces (size : ℤ) (p : Process) : ℤ → Option Mode :=
  if p.point.alive then p.answers.foldl (heed size) fun _ => none else fun _ => none

def State.announces (size : ℤ) (s : State) (pid : ℤ) : ℤ → Option Mode :=
  (s.procs pid).elim (fun _ => none) (Process.announces size)

end Records

end UnixProgramming.FcntlLocking
