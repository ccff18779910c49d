import UnixProgramming.Library.Transition
import UnixProgramming.Library.Memory
import UnixProgramming.Library.Machine
import UnixProgramming.HSocket.Model
import Mathlib.Tactic

/-! The blocking wrappers of `HSocket.c` over the outcomes of the calls they make. -/

namespace UnixProgramming.HSocket

open Library Library.Transition

def EAGAIN : ℤ := 11

def EWOULDBLOCK : ℤ := 11

inductive Outcome
  | success (n : ℕ)
  | failure (errno : ℤ)
  deriving DecidableEq, Repr

def Outcome.value : Outcome → ℤ
  | .success n => n
  | .failure _ => -1

/-- Only a failure stores into `errno`. -/
def Outcome.errno : Outcome → ℤ → ℤ
  | .success _, errno => errno
  | .failure e, _ => e

deriving instance DecidableEq for ReadN, WriteN

inductive Call
  | accept
  | read (sz : ℕ)
  | write (sz : ℕ)
  | readN (c : ReadN)
  | writeN (c : WriteN)
  deriving DecidableEq

inductive Phase
  | running (c : Call)
  | returned (value : ℤ)
  | exited (message : String)
  deriving DecidableEq

def Accept.body (fd errno : ℤ) : Phase :=
  if fd = -1 then
    if errno = EAGAIN ∨ errno = EWOULDBLOCK then .running .accept
    else .exited "Accept(): some unkown error\n"
  else .returned fd

def retry (c : Call) (ret errno : ℤ) : Phase :=
  if int ret = -1 then
    if errno = EINTR then .running c else .returned (-1)
  else .returned (int ret)

def Read.body (sz : ℕ) (ret errno : ℤ) : Phase :=
  retry (.read sz) ret errno

def Write.body (sz : ℕ) (ret errno : ℤ) : Phase :=
  retry (.write sz) ret errno

def ReadN.enter (c : ReadN) : Phase :=
  if c.guard then .running (.readN c) else .returned c.result

def WriteN.enter (c : WriteN) : Phase :=
  if c.guard then .running (.writeN c) else .returned c.result

def Call.body : Call → ℤ → ℤ → Phase
  | .accept, fd, errno => Accept.body fd errno
  | .read sz, ret, errno => Read.body sz ret errno
  | .write sz, ret, errno => Write.body sz ret errno
  | .readN c, nread, errno =>
    match c.body nread errno with
    | .next c' => c'.enter
    | .stop c' => .returned c'.result
    | .ret value => .returned value
  | .writeN c, nwritten, errno =>
    match c.body nwritten errno with
    | .next c' => c'.enter
    | .stop c' => .returned c'.result
    | .ret value => .returned value

/-- `incoming` are the bytes that come before end of file, `buf` is the memory that
starts at the buffer. -/
@[ext] structure World where
  incoming : List UInt8
  taken : ℕ
  buf : ℕ → UInt8
  outgoing : List UInt8

def World.receive (w : World) (ptr n : ℕ) : World :=
  { w with
    taken := w.taken + n
    buf := store w.buf ptr ((w.incoming.drop w.taken).take n) }

def World.send (w : World) (bs : List UInt8) : World :=
  { w with outgoing := w.outgoing ++ bs }

def Call.transfer : Call → ℕ → World → World
  | .accept, _, w => w
  | .read _, n, w => w.receive 0 n
  | .write _, n, w => w.send (load w.buf n)
  | .readN c, n, w => w.receive c.ptr n
  | .writeN c, n, w => w.send (c.request.take n)

def Outcome.transfer : Outcome → Call → World → World
  | .success n, c, w => c.transfer n w
  | .failure _, _, w => w

structure Progress where
  phase : Phase
  errno : ℤ
  world : World

inductive Wrapper
  | accept
  | read (sz : ℕ)
  | write (sz : ℕ)
  | readN (sz : ℕ)
  | writeN (vptr : Object)

def Wrapper.enter : Wrapper → Phase
  | .accept => .running .accept
  | .read sz => .running (.read sz)
  | .write sz => .running (.write sz)
  | .readN sz => (ReadN.call sz).enter
  | .writeN vptr => (WriteN.call vptr vptr.size).enter

def Wrapper.call (f : Wrapper) (w : World) (errno : ℤ) : Progress :=
  ⟨f.enter, errno, w⟩

def Progress.round (s : Progress) (o : Outcome) : Progress :=
  match s.phase with
  | .running c => ⟨c.body o.value (o.errno s.errno), o.errno s.errno, o.transfer c s.world⟩
  | _ => s

def Progress.Returned (s : Progress) : Prop :=
  ∃ value, s.phase = .returned value

/-- What `read` may return for a request: some of the bytes that have not been taken, or
zero at end of file. -/
def World.Gives (w : World) (request : ℤ) (n : ℕ) : Prop :=
  n ≤ request ∧ w.taken + n ≤ w.incoming.length ∧
    (n = 0 → request ≤ 0 ∨ w.taken = w.incoming.length)

instance (w : World) (request : ℤ) (n : ℕ) : Decidable (w.Gives request n) :=
  inferInstanceAs (Decidable (_ ∧ _))

def Call.Allows : Call → World → Outcome → Prop
  | _, _, .failure _ => True
  | .accept, _, .success _ => True
  | .read sz, w, .success n => w.Gives sz n
  | .write sz, _, .success n => n ≤ sz
  | .readN c, w, .success n => w.Gives c.request n
  | .writeN c, _, .success n => n ≤ c.request.length

instance : (c : Call) → (w : World) → (o : Outcome) → Decidable (c.Allows w o)
  | .accept, _, .failure _ | .read _, _, .failure _ | .write _, _, .failure _
  | .readN _, _, .failure _ | .writeN _, _, .failure _ | .accept, _, .success _ =>
    inferInstanceAs (Decidable True)
  | .read _, _, .success _ | .readN _, _, .success _ =>
    inferInstanceAs (Decidable (World.Gives _ _ _))
  | .write _, _, .success _ | .writeN _, _, .success _ => inferInstanceAs (Decidable (_ ≤ _))

def Progress.Allows (s : Progress) (o : Outcome) : Prop :=
  ∀ c, s.phase = .running c → c.Allows s.world o

def calls (s₀ : Progress) : System Progress Outcome where
  initial s := s = s₀
  step s o :=
    match s.phase with
    | .running c => if c.Allows s.world o then some (s.round o) else none
    | _ => none

section Rounds

variable {s t : Progress} {c : Call} {o : Outcome} {value : ℤ} {message : String}

lemma round_running (h : s.phase = .running c) : s.round o =
    ⟨c.body o.value (o.errno s.errno), o.errno s.errno, o.transfer c s.world⟩ := by
  simp only [Progress.round, h]

lemma round_body {p : Phase} (h : s.phase = .running c)
    (hbody : c.body o.value (o.errno s.errno) = p) :
    s.round o = ⟨p, o.errno s.errno, o.transfer c s.world⟩ := by
  rw [round_running h, hbody]

lemma round_returned (h : s.phase = .returned value) : s.round o = s := by
  simp only [Progress.round, h]

lemma round_exited (h : s.phase = .exited message) : s.round o = s := by
  simp only [Progress.round, h]

lemma calls_step {s₀ : Progress} (he : (calls s₀).step s o = some t) :
    ∃ c, s.phase = .running c ∧ c.Allows s.world o ∧ t = s.round o := by
  simp only [calls] at he
  split at he
  · next c hc =>
    split_ifs at he with ha
    exact ⟨c, hc, ha, (Option.some.inj he).symm⟩
  · cases he

lemma calls_ended {s₀ : Progress} (h : s.phase = .returned value) {ls : List Outcome}
    (hr : (calls s₀).Run s ls t) : ls = [] ∧ t = s := by
  cases hr with
  | nil => exact ⟨rfl, rfl⟩
  | cons he _ =>
    obtain ⟨c, hc, -⟩ := calls_step he
    rw [h] at hc
    cases hc

end Rounds

end UnixProgramming.HSocket
