import UnixProgramming.FcntlLocking.Model
import UnixProgramming.Library.RecordLocks
import UnixProgramming.Library.Transition

/-! Any number of processes that run `i_fcntl_locking.c`, `t_fcntl_locking.c` and
`file_lock.c` on one file, with the record locks that `fcntl` keeps for them. -/

namespace UnixProgramming.FcntlLocking

open Library Library.Transition

namespace FileLock

inductive Outcome
  | openError
  | fcntlError
  | sleeping
  deriving DecidableEq, Repr

def lk : Flock := ⟨.F_WRLCK, .SEEK_SET, 0, 0⟩

def request (fd : ℤ) : Option Request :=
  if fd < 0 then none else some ⟨.F_SETLK, lk⟩

def report : Reply → Outcome
  | .failed _ => .fcntlError
  | .done _ _ => .sleeping

def main (fd : ℤ) (reply : Reply) : List Request × Outcome :=
  match request fd with
  | none => ([], .openError)
  | some r => ([r], report reply)

end FileLock

def OFFSET_MAX : ℤ := 2 ^ 63 - 1

def EINVAL : ℤ := 22

def ENOLCK : ℤ := 37

def EOVERFLOW : ℤ := 75

def LockType.mode : LockType → Option Mode
  | .F_RDLCK => some .read
  | .F_WRLCK => some .write
  | .F_UNLCK => none

/-- No program moves the offset of its descriptor. -/
def Whence.base (size : ℤ) : Whence → ℤ
  | .SEEK_SET | .SEEK_CUR => 0
  | .SEEK_END => size

def region (size : ℤ) (fl : Flock) : Except ℤ (Region ℤ) :=
  let start := fl.l_whence.base size + fl.l_start
  if hmax : start > OFFSET_MAX then .error EOVERFLOW
  else if start < 0 then .error EINVAL
  else if hlen : fl.l_len > 0 then
    if start + (fl.l_len - 1) > OFFSET_MAX then .error EOVERFLOW
    else .ok ⟨start, start + fl.l_len, by omega⟩
  else if hneg : fl.l_len < 0 then
    if start + fl.l_len < 0 then .error EINVAL
    else .ok ⟨start + fl.l_len, start, by omega⟩
  else .ok ⟨start, OFFSET_MAX + 1, by omega⟩

abbrev Table := RecordLocks ℤ ℤ

def lockType : Mode → LockType
  | .read => .F_RDLCK
  | .write => .F_WRLCK

def describe (k : Lock ℤ ℤ) : Flock where
  l_type := lockType k.mode
  l_whence := .SEEK_SET
  l_start := k.region.start
  l_len := if k.region.stop = OFFSET_MAX + 1 then 0 else k.region.stop - k.region.start

inductive Outcome
  | act
  | deny (k : Lock ℤ ℤ)
  | fail (errno : ℤ)
  deriving DecidableEq

/-- No handler interrupts a call of these programs. -/
def refuses (t : Table) (pid : ℤ) (r : Request) (g : Region ℤ) (errno : ℤ) : Bool :=
  let blocked := r.fl.l_type.mode.any fun m => decide (t.Blocked pid m g)
  match r.cmd with
  | .F_GETLK => false
  | .F_SETLK => errno == ENOLCK || blocked && (errno == EAGAIN || errno == EACCES)
  | .F_SETLKW => errno == ENOLCK || blocked && errno == EDEADLK

/-- A call that has to wait has no outcome yet. -/
def fcntl (size : ℤ) (t : Table) (pid : ℤ) (r : Request) (o : Outcome) : Option (Reply × Table) :=
  match region size r.fl, o with
  | .error errno, .act => some (.failed errno, t)
  | .error _, _ => none
  | .ok g, .fail errno => if refuses t pid r g errno then some (.failed errno, t) else none
  | .ok g, .deny k =>
    r.fl.l_type.mode.bind fun m =>
      if r.cmd = .F_GETLK ∧ k ∈ t.locks ∧ RecordLocks.Blocks pid m g k then
        some (.done (describe k) k.owner, t)
      else none
  | .ok g, .act =>
    match r.fl.l_type.mode with
    | none =>
      if r.cmd = .F_GETLK then some (.failed EINVAL, t) else some (.done r.fl 0, t.clear pid g)
    | some m =>
      if r.cmd = .F_GETLK then
        if t.Blocked pid m g then none else some (.done { r.fl with l_type := .F_UNLCK } 0, t)
      else (t.set pid m g).map fun t => (.done r.fl 0, t)

namespace Records

inductive Program
  | i_fcntl_locking (argv : List (List UInt8)) (fd : ℤ) (input : List UInt8)
  | t_fcntl_locking (argv : List (List UInt8)) (fd : ℤ)
  | file_lock (fd : ℤ)
  deriving DecidableEq, Repr

-- `rest` is what later calls of `fgets` will store.
inductive Point
  | reading (s : IFcntl.Session) (rest : List (List UInt8))
  | calling (s : IFcntl.Session) (r : Request) (rest : List (List UInt8))
  | ended (s : IFcntl.Session)
  | requesting (r : Request)
  | reported (o : TFcntl.Outcome)
  | locking (r : Request)
  | locked (o : FileLock.Outcome)
  deriving DecidableEq, Repr

def Point.request : Point → Option Request
  | .calling _ r _ | .requesting r | .locking r => some r
  | .reading _ _ | .ended _ | .reported _ | .locked _ => none

/-- `t_fcntl_locking.c` and `file_lock.c` go on for ever once they have their answer. -/
def Point.alive : Point → Bool
  | .reading _ _ | .calling _ _ _ | .requesting _ | .locking _ => true
  | .ended _ => false
  | .reported o =>
    match o with
    | .errExit _ | .failed _ => false
    | .placeable | .denied _ _ | .unlocked | .locked => true
  | .locked o =>
    match o with
    | .openError | .fcntlError => false
    | .sleeping => true

structure Process where
  program : Program
  point : Point
  calls : List (Request × Reply)

def Program.entry : Program → Point
  | .i_fcntl_locking argv fd input =>
    if argv.length ≠ 2 ∨ argv[1]? = some (bytes "help") then .ended (IFcntl.refuse .usage)
    else if fd = -1 then .ended (IFcntl.refuse .cannotOpen)
    else .reading IFcntl.opened (IFcntl.pieces input.length input)
  | .t_fcntl_locking argv fd =>
    match TFcntl.request argv fd with
    | .error arg => .reported (.errExit arg)
    | .ok r => .requesting r
  | .file_lock fd =>
    match FileLock.request fd with
    | none => .locked .openError
    | some r => .locking r

def command (line : List UInt8) : Option Request :=
  if line = [] ∨ line.head? = some 63 then none else IFcntl.decode line

def prompted (s : IFcntl.Session) (piece : List UInt8) : IFcntl.Session :=
  { s with
    printed := s.printed ++ [.prompt]
    stores := s.stores ++ [(IFcntl.strlen piece : ℤ) - 1] }

def Point.read : Point → Option Point
  | .reading s [] =>
    some (.ended { s with printed := s.printed ++ [.prompt], exit := some EXIT_SUCCESS })
  | .reading s (piece :: rest) =>
    match command (IFcntl.trim piece) with
    | some r => some (.calling (prompted s piece) r rest)
    | none =>
      some (.reading (IFcntl.execute (.failed 0) (prompted s piece) (IFcntl.trim piece)) rest)
  | _ => none

def Point.answer (reply : Reply) : Point → Option Point
  | .calling s r rest =>
    let s := IFcntl.issue reply s r
    some (if s.exit = none then .reading s rest else .ended s)
  | .requesting r => some (.reported (TFcntl.report r reply))
  | .locking _ => some (.locked (FileLock.report reply))
  | .reading _ _ | .ended _ | .reported _ | .locked _ => none

structure State where
  procs : ℤ → Option Process
  table : Table

def start : State where
  procs _ := none
  table := .empty

inductive Label
  | spawn (pid : ℤ) (program : Program)
  | read (pid : ℤ)
  | fcntl (pid : ℤ) (o : Outcome)
  | kill (pid : ℤ)
  deriving DecidableEq

def State.live (s : State) (pid : ℤ) : Bool :=
  (s.procs pid).any fun p => p.point.alive

/-- A process that ends loses its locks. -/
def State.put (s : State) (pid : ℤ) (p : Process) (t : Table) : State where
  procs := Function.update s.procs pid (some p)
  table := if p.point.alive then t else t.release pid

def spawnStep (s : State) (pid : ℤ) (program : Program) : Option State :=
  if s.live pid then none else some (s.put pid ⟨program, program.entry, []⟩ s.table)

def readStep (s : State) (pid : ℤ) (p : Process) : Option State :=
  p.point.read.map fun point => s.put pid { p with point := point } s.table

def fcntlStep (size : ℤ) (s : State) (pid : ℤ) (p : Process) (o : Outcome) : Option State :=
  p.point.request.bind fun r =>
    (fcntl size s.table pid r o).bind fun (reply, t) =>
      (p.point.answer reply).map fun point =>
        s.put pid { p with point := point, calls := p.calls ++ [(r, reply)] } t

def killStep (s : State) (pid : ℤ) : Option State :=
  if s.live pid then
    some { procs := Function.update s.procs pid none, table := s.table.release pid }
  else none

def step (size : ℤ) (s : State) : Label → Option State
  | .spawn pid program => spawnStep s pid program
  | .read pid => (s.procs pid).bind fun p => readStep s pid p
  | .fcntl pid o => (s.procs pid).bind fun p => fcntlStep size s pid p o
  | .kill pid => killStep s pid

def system (size : ℤ) : System State Label where
  initial s := s = start
  step := step size

end Records

end UnixProgramming.FcntlLocking
