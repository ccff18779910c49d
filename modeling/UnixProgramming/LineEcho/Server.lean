import UnixProgramming.LineEcho.Model

/-! `tcpServer.c` with any client: what it sends of the stream that it reads, and what it
hands to `toupper`. -/

namespace UnixProgramming.LineEcho.Server

open Library Library.Transition

/-- `char` is signed. -/
def char (b : UInt8) : ℤ :=
  if b < 128 then b.toNat else b.toNat - 256

def EOF : ℤ := -1

/-- The arguments for which `toupper` is defined. -/
def Proper (c : ℤ) : Prop :=
  c = EOF ∨ 0 ≤ c ∧ c ≤ 255

/-- The loop's call number `i` reads the buffer that the calls before it have left. -/
def arguments (buf : ℕ → UInt8) (len : ℕ) : List ℤ :=
  (List.range len).map fun i => char (upcase buf i i)

inductive Pc
  | read
  | write (len : ℕ)
  | exited
  deriving DecidableEq, Repr

-- `printed` are the texts after `recv buf:` and `Send Buf:`.
structure State where
  received : List UInt8
  sent : List UInt8
  buf : ℕ → UInt8
  printed : List (Option (List UInt8))
  args : List ℤ
  pc : Pc

def start : State := ⟨[], [], fun _ => 0, [], [], .read⟩

inductive ReadResult
  | error
  | eof
  | data (bytes : List UInt8)
  deriving DecidableEq, Repr

def ReadResult.possible : ReadResult → Bool
  | .error | .eof => true
  | .data bytes => 0 < bytes.length && bytes.length ≤ serverBufferSize

inductive Label
  | read (r : ReadResult)
  | write (ret : ℤ)
  | sigpipe
  deriving DecidableEq, Repr

def process (s : State) (bytes : List UInt8) : State :=
  let buf := store (fun _ => 0) 0 bytes
  { s with
    received := s.received ++ bytes
    buf := upcase buf bytes.length
    printed := s.printed ++
      [string buf serverBufferSize, string (upcase buf bytes.length) serverBufferSize]
    args := s.args ++ arguments buf bytes.length
    pc := .write bytes.length }

def readStep (s : State) (r : ReadResult) : Option State :=
  if s.pc = .read ∧ r.possible then
    match r with
    | .error | .eof => some { s with pc := .exited }
    | .data bytes => some (process s bytes)
  else none

-- The count is not looked at.
def writeStep (s : State) (ret : ℤ) : Option State :=
  match s.pc with
  | .write len =>
    if -1 ≤ ret ∧ ret ≤ len then
      some { s with sent := s.sent ++ load s.buf ret.toNat, pc := .read }
    else none
  | .read | .exited => none

def step (s : State) : Label → Option State
  | .read r => readStep s r
  | .write ret => writeStep s ret
  | .sigpipe => if s.pc = .read ∨ s.pc = .exited then none else some { s with pc := .exited }

def system : System State Label where
  initial s := s = start
  step := step

structure Echoes (s : State) : Prop where
  sent : s.pc = .read → s.sent = s.received.map toupper
  proper : ∀ c ∈ s.args, Proper c

/-- The write takes the whole chunk, and the chunk holds no byte that is negative as a
`char`, other than the one that is `EOF`. -/
def Plain (s : State) : Label → Prop
  | .read (.data bytes) => ∀ b ∈ bytes, b < 128 ∨ b = 255
  | .write ret => ∀ len, s.pc = .write len → ret = len
  | .read .error | .read .eof | .sigpipe => True

structure Echoing (s : State) : Prop where
  echoes : Echoes s
  pending : ∀ len, s.pc = .write len → 0 < len ∧
    s.sent ++ load s.buf len = s.received.map toupper

variable {s s' : State} {l : Label} {b : UInt8} {buf : ℕ → UInt8} {bytes : List UInt8} {len : ℕ}

lemma proper_char : Proper (char b) ↔ b < 128 ∨ b = 255 := by
  have hb : b.toNat < 256 := b.toNat_lt
  simp only [Proper, char, EOF, UInt8.lt_iff_toNat_lt, ← UInt8.toNat_inj,
    show (128 : UInt8).toNat = 128 from rfl, show (255 : UInt8).toNat = 255 from rfl]
  split_ifs <;> omega

lemma arguments_eq : arguments buf len = (load buf len).map char := by
  rw [arguments, load, List.map_map]
  apply List.map_congr_left
  intro i _
  rw [upcase_apply, if_neg (lt_irrefl i)]
  rfl

lemma process_sent (h : s.sent = s.received.map toupper) :
    (process s bytes).sent ++ load (process s bytes).buf bytes.length =
      (process s bytes).received.map toupper := by
  change s.sent ++ load (upcase (store (fun _ => 0) 0 bytes) bytes.length) bytes.length =
    (s.received ++ bytes).map toupper
  rw [load_upcase, load_store_first, List.map_append, h]

lemma process_args : (process s bytes).args = s.args ++ bytes.map char := by
  change s.args ++ arguments (store (fun _ => 0) 0 bytes) bytes.length = _
  rw [arguments_eq, load_store_first]

lemma readStep_echoing {r : ReadResult} (h : Echoing s) (hp : Plain s (.read r))
    (he : readStep s r = some s') : Echoing s' := by
  simp only [readStep, Option.ite_none_right_eq_some] at he
  obtain ⟨⟨hpc, hr⟩, he⟩ := he
  cases r with
  | error | eof =>
    obtain rfl := Option.some.inj he
    exact ⟨⟨nofun, h.echoes.proper⟩, nofun⟩
  | data bytes =>
    obtain rfl := Option.some.inj he
    refine ⟨⟨nofun, fun c hc => ?_⟩, fun len hlen => ?_⟩
    · rw [process_args, List.mem_append] at hc
      rcases hc with hc | hc
      · exact h.echoes.proper c hc
      · obtain ⟨b, hb, rfl⟩ := List.mem_map.mp hc
        exact proper_char.mpr (hp b hb)
    · obtain rfl := Pc.write.inj hlen
      simp only [ReadResult.possible, Bool.and_eq_true, decide_eq_true_eq] at hr
      exact ⟨hr.1, process_sent (h.echoes.sent hpc)⟩

lemma writeStep_cases {ret : ℤ} (he : writeStep s ret = some s') :
    ∃ len, s.pc = .write len ∧ ret ≤ len ∧
      s' = { s with sent := s.sent ++ load s.buf ret.toNat, pc := .read } := by
  cases hpc : s.pc with
  | write len =>
    simp only [writeStep, hpc, Option.ite_none_right_eq_some, Option.some.injEq] at he
    exact ⟨len, rfl, he.1.2, he.2.symm⟩
  | read | exited => simp [writeStep, hpc] at he

lemma step_echoing (h : Echoing s) (hp : Plain s l) (he : step s l = some s') : Echoing s' := by
  cases l with
  | read r => exact readStep_echoing h hp he
  | write ret =>
    obtain ⟨len, hpc, -, rfl⟩ := writeStep_cases he
    obtain rfl : ret = len := hp len hpc
    exact ⟨⟨fun _ => (h.pending len hpc).2, h.echoes.proper⟩, nofun⟩
  | sigpipe =>
    simp only [step, Option.ite_none_left_eq_some, Option.some.injEq] at he
    obtain ⟨-, rfl⟩ := he
    exact ⟨⟨nofun, h.echoes.proper⟩, nofun⟩

lemma short_write (h : Echoing s) {ret : ℤ} (hpc : s.pc = .write len) (hret : ret < len) :
    s.sent ++ load s.buf ret.toNat ≠ s.received.map toupper := by
  obtain ⟨hpos, hsent⟩ := h.pending len hpc
  intro heq
  rw [← hsent] at heq
  have hlen := congrArg List.length heq
  rw [List.length_append, List.length_append, load_length, load_length] at hlen
  omega

lemma step_fails (h : Echoing s) (hp : ¬ Plain s l) (he : step s l = some s') : ¬ Echoes s' := by
  rintro ⟨hsent, hproper⟩
  cases l with
  | read r =>
    cases r with
    | error | eof => exact hp trivial
    | data bytes =>
      simp only [step, readStep, Option.ite_none_right_eq_some, Option.some.injEq] at he
      obtain ⟨-, rfl⟩ := he
      refine hp fun b hb => proper_char.mp (hproper _ ?_)
      rw [process_args]
      exact List.mem_append_right _ (List.mem_map_of_mem hb)
  | write ret =>
    obtain ⟨len, hpc, hle, rfl⟩ := writeStep_cases he
    have hlt : ret < len := by
      by_contra hge
      refine hp fun k hk => ?_
      obtain rfl := Pc.write.inj (hpc.symm.trans hk)
      omega
    exact short_write h hpc hlt (hsent rfl)
  | sigpipe => exact hp trivial

theorem echoes_iff (ls : List Label) (s : State) (hr : system.Run start ls s) :
    system.Along Echoes start ls ↔ system.Guarded Plain start ls := by
  have h₀ : Echoing start := ⟨⟨fun _ => rfl, nofun⟩, nofun⟩
  exact System.along_iff_guarded (fun _ h => h.echoes) (fun _ _ _ => step_echoing)
    (fun _ _ _ => step_fails) h₀ hr

theorem echoes_iff_written : ∃ s, system.Run start [.read (.data [97, 98]), .write 2] s ∧
    (system.Along Echoes start [.read (.data [97, 98]), .write 2] ↔
      system.Guarded Plain start [.read (.data [97, 98]), .write 2]) := by
  have hrun : (system.exec start [.read (.data [97, 98]), .write 2]).isSome = true := rfl
  obtain ⟨s, hr⟩ := System.exists_run hrun
  exact ⟨s, hr, echoes_iff _ s hr⟩

/-- The second byte of a chunk is not written, and a byte above 127 is handed to `toupper`. -/
theorem echo_loses_tail : (∃ s, system.Reachable s ∧ s.pc = .read ∧ s.received = [97, 98] ∧
      s.sent = [65] ∧ ¬ Echoes s) ∧
    ∃ s, system.Reachable s ∧ s.args = [-23] ∧ ¬ Echoes s := by
  have hshort : (system.exec start [.read (.data [97, 98]), .write 1]).map
      (fun s => (s.pc, s.received, s.sent)) = some (.read, [97, 98], [65]) := by decide
  have hhigh : (system.exec start [.read (.data [233])]).map (fun s => s.args) =
      some [-23] := by decide
  obtain ⟨s, hs, hs'⟩ := System.Reachable.observe rfl hshort
  obtain ⟨t, ht, ht'⟩ := System.Reachable.observe rfl hhigh
  obtain ⟨hpc, hreceived, hsent⟩ : _ ∧ _ ∧ _ := by simpa only [Prod.mk.injEq] using hs'
  refine ⟨⟨s, hs, hpc, hreceived, hsent, fun h => ?_⟩, t, ht, ht', fun h => ?_⟩
  · have heq := h.sent hpc
    rw [hreceived, hsent] at heq
    exact absurd heq (by decide)
  · have hproper : Proper (-23) := h.proper _ (by rw [ht']; exact List.mem_singleton_self _)
    rcases hproper with h | ⟨h, -⟩
    · exact absurd h (by decide)
    · exact absurd h (by decide)

end UnixProgramming.LineEcho.Server
