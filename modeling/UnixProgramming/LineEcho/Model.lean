import UnixProgramming.Library.Transition
import UnixProgramming.Library.Stream
import UnixProgramming.Library.Memory

/-! The loops of `tcpClient.c` and `tcpServer.c` over one connection. A call of `read`
returns any part of what is available. -/

namespace UnixProgramming.LineEcho

open Library Library.Transition

def BUF_SIZ : ℕ := 1028

def serverBufferSize : ℕ := 1024

/-- In the C locale. -/
def toupper (b : UInt8) : UInt8 :=
  if 97 ≤ b ∧ b ≤ 122 then b - 32 else b

/-- The at most `n` characters that `fgets` takes, and the rest of the input. -/
def fgets : ℕ → List UInt8 → List UInt8 × List UInt8
  | 0, input => ([], input)
  | _ + 1, [] => ([], [])
  | n + 1, b :: input =>
    if b = 10 then ([b], input) else (b :: (fgets n input).1, (fgets n input).2)

def upcase (buf : ℕ → UInt8) : ℕ → ℕ → UInt8
  | 0 => buf
  | i + 1 => Function.update (upcase buf i) i (toupper (upcase buf i i))

inductive ClientPc
  | fgets
  | write
  | read
  | closed
  deriving DecidableEq, Repr

inductive ServerPc
  | read
  | respond (len : ℕ)
  | closed
  deriving DecidableEq, Repr

-- `lines` is what `fgets` has returned, `printed` the texts after `Read Content:`.
structure State where
  input : List UInt8
  lines : List (List UInt8)
  client : ClientPc
  buf : ℕ → UInt8
  up : Stream UInt8
  down : Stream UInt8
  server : ServerPc
  serverBuf : ℕ → UInt8
  printed : List (Option (List UInt8))

def start (input : List UInt8) (buf : ℕ → UInt8) : State where
  input := input
  lines := []
  client := .fgets
  buf := buf
  up := .empty
  down := .empty
  server := .read
  serverBuf _ := 0
  printed := []

inductive Label
  | fgets
  | clientWrite
  | clientRead (len : ℕ)
  | serverRead (len : ℕ)
  | respond
  deriving DecidableEq, Repr

def fgetsStep (s : State) : Option State :=
  if s.client = .fgets ∧ s.input ≠ [] then
    some { s with
      input := (fgets (BUF_SIZ - 1) s.input).2
      lines := s.lines ++ [(fgets (BUF_SIZ - 1) s.input).1]
      buf := store s.buf 0 ((fgets (BUF_SIZ - 1) s.input).1 ++ [0])
      client := .write }
  else none

def clientWrite (s : State) : Option State :=
  if s.client = .write then
    (string s.buf BUF_SIZ).bind fun text =>
      if text = [] then some { s with up := s.up.close, client := .closed }
      else (s.up.write text).map fun up => { s with up := up, client := .read }
  else none

/-- The text is printed up to a zero byte, however many bytes were read. -/
def clientRead (s : State) (len : ℕ) : Option State :=
  if s.client = .read then
    if len = 0 then if s.down.AtEnd then some { s with client := .fgets } else none
    else if len ≤ BUF_SIZ then
      (s.down.read len).map fun r =>
        { s with
          down := r.2
          buf := store s.buf 0 r.1
          printed := s.printed ++ [string (store s.buf 0 r.1) BUF_SIZ]
          client := .fgets }
    else none
  else none

def serverRead (s : State) (len : ℕ) : Option State :=
  if s.server = .read then
    if len = 0 then
      if s.up.AtEnd then some { s with down := s.down.close, server := .closed } else none
    else if len ≤ serverBufferSize then
      (s.up.read len).map fun r =>
        { s with up := r.2, serverBuf := store (fun _ => 0) 0 r.1, server := .respond len }
    else none
  else none

def respond (s : State) : Option State :=
  match s.server with
  | .respond len =>
    (s.down.write (load (upcase s.serverBuf len) len)).map fun down =>
      { s with down := down, serverBuf := upcase s.serverBuf len, server := .read }
  | .read | .closed => none

def step (s : State) : Label → Option State
  | .fgets => fgetsStep s
  | .clientWrite => clientWrite s
  | .clientRead len => clientRead s len
  | .serverRead len => serverRead s len
  | .respond => respond s

def system (input : List UInt8) : System State Label where
  initial s := ∃ buf, s = start input buf
  step := step

variable {n : ℕ} {input : List UInt8} {buf : ℕ → UInt8}

lemma toupper_ne_zero {b : UInt8} (h : b ≠ 0) : toupper b ≠ 0 := by
  simp only [toupper]
  split_ifs with hb
  · intro hzero
    have hb32 : b = 32 := by simpa using UInt8.sub_eq_iff_eq_add.mp hzero
    rw [hb32] at hb
    exact absurd hb.1 (by decide)
  · exact h

lemma fgets_length : (fgets n input).1.length ≤ n := by
  induction n generalizing input with
  | zero => simp [fgets]
  | succ n ih =>
    cases input with
    | nil => simp [fgets]
    | cons b input =>
      simp only [fgets]
      split_ifs
      · simp
      · simpa using ih

lemma fgets_ne_nil (h : input ≠ []) : (fgets (n + 1) input).1 ≠ [] := by
  cases input with
  | nil => exact absurd rfl h
  | cons b input =>
    simp only [fgets]
    split_ifs <;> simp

lemma fgets_append : (fgets n input).1 ++ (fgets n input).2 = input := by
  induction n generalizing input with
  | zero => rfl
  | succ n ih =>
    cases input with
    | nil => rfl
    | cons b input =>
      simp only [fgets]
      split_ifs
      · rfl
      · rw [List.cons_append, ih]

lemma upcase_apply {i : ℕ} : upcase buf n i = if i < n then toupper (buf i) else buf i := by
  induction n generalizing i with
  | zero => rfl
  | succ n ih =>
    by_cases hi : i = n
    · subst hi
      simp [upcase, ih]
    · rw [upcase, Function.update_of_ne hi, ih]
      have hiff : i < n + 1 ↔ i < n := by omega
      simp only [hiff]

lemma load_upcase : load (upcase buf n) n = (load buf n).map toupper := by
  rw [load, load, List.map_map]
  apply List.map_congr_left
  intro i hi
  rw [upcase_apply, if_pos (List.mem_range.mp hi)]
  rfl

end UnixProgramming.LineEcho
