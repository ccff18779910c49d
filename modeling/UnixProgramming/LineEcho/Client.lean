import UnixProgramming.LineEcho.Model

/-! `tcpClient.c` with any server: what it sends of its standard input. -/

namespace UnixProgramming.LineEcho.Client

open Library Library.Transition

inductive Pc
  | fgets
  | write
  | read
  | exited
  deriving DecidableEq, Repr

/-- `buf` is the memory that starts at the array. Beside the program's variables: the place
in `stdin` where the line begins that the last `fgets` returned, `none` for a null pointer;
whether every line before it was written in full; for each byte sent, its place in `stdin`. -/
structure State where
  stdin : List UInt8
  pos : ℕ
  buf : ℕ → UInt8
  pc : Pc
  line : Option ℕ
  whole : Bool
  sent : List UInt8
  places : List (Option ℕ)

def start (stdin : List UInt8) (buf : ℕ → UInt8) : State :=
  ⟨stdin, 0, buf, .fgets, none, true, [], []⟩

inductive ReadResult
  | error
  | eof
  | data (bytes : List UInt8)
  deriving DecidableEq, Repr

def ReadResult.possible : ReadResult → Bool
  | .error | .eof => true
  | .data bytes => 0 < bytes.length && bytes.length ≤ BUF_SIZ

inductive Label
  | fgets
  | write (len : ℕ) (r : ℤ)
  | sigpipe
  | read (r : ReadResult)
  deriving DecidableEq, Repr

-- At the end of the input the array stays as it is.
def fgetsStep (s : State) : Option State :=
  if s.pc = .fgets then
    match s.stdin.drop s.pos with
    | [] => some { s with pc := .write, line := none }
    | b :: input =>
      let text := (fgets (BUF_SIZ - 1) (b :: input)).1
      some { s with
        pos := s.pos + text.length
        buf := store s.buf 0 (text ++ [0])
        pc := .write
        line := some s.pos }
  else none

/-- The first zero byte may be outside the array. -/
def strlen (buf : ℕ → UInt8) (len : ℕ) : Bool :=
  (load buf len).all (· != 0) && buf len == 0

def wholeAfter (s : State) (r : ℤ) : Bool :=
  match s.line with
  | some p => s.whole && r.toNat == s.pos - p
  | none => s.whole

def writeStep (s : State) (len : ℕ) (r : ℤ) : Option State :=
  if s.pc = .write ∧ strlen s.buf len = true ∧ -1 ≤ r ∧ r ≤ len then
    some { s with
      sent := s.sent ++ load s.buf r.toNat
      places := s.places ++ (List.range r.toNat).map fun i => s.line.map (· + i)
      whole := wholeAfter s r
      pc := if r = 0 then .exited else .read }
  else none

def readStep (s : State) (r : ReadResult) : Option State :=
  if s.pc = .read ∧ r.possible then
    match r with
    | .error => some { s with pc := .exited }
    | .eof => some { s with pc := .fgets }
    | .data bytes => some { s with buf := store s.buf 0 bytes, pc := .fgets }
  else none

def step (s : State) : Label → Option State
  | .fgets => fgetsStep s
  | .write len r => writeStep s len r
  | .sigpipe => if s.pc = .write then some { s with pc := .exited } else none
  | .read r => readStep s r

def system (stdin : List UInt8) : System State Label where
  initial s := ∃ buf, s = start stdin buf
  step := step

/-- What has been sent is the beginning of standard input, each byte from its own place. -/
structure Forwards (s : State) : Prop where
  sent : s.sent <+: s.stdin
  places : s.places = (List.range s.sent.length).map some

/-- A write that transfers something has a line to write, and the lines before it were
written in full. -/
def Orderly (s : State) (l : Label) : Prop :=
  ∀ len r, l = .write len r → 0 < r → s.line.isSome = true ∧ s.whole = true

/-- What precedes `p` is sent, unless some of it is lost. -/
structure Upto (s : State) (p : ℕ) : Prop where
  whole : s.whole = true → s.sent.length = p
  short : s.whole = false → s.sent.length < p

structure Pending (s : State) (p : ℕ) : Prop where
  upto : Upto s p
  nonempty : p < s.pos
  holds : Holds s.buf ((s.stdin.drop p).take (s.pos - p))

structure Forwarding (s : State) : Prop where
  forwards : Forwards s
  fits : s.pos ≤ s.stdin.length
  between : s.pc = .fgets ∨ s.pc = .read → Upto s s.pos
  eof : s.pc = .write → s.line = none → Upto s s.pos
  pending : ∀ p, s.pc = .write → s.line = some p → Pending s p

variable {s s' : State} {l : Label} {len n p : ℕ} {r : ℤ} {input stdin : List UInt8}
  {buf : ℕ → UInt8}

section Lines

lemma fgets_take : (fgets n input).1 = input.take (fgets n input).1.length :=
  List.prefix_iff_eq_take.mp ⟨(fgets n input).2, fgets_append⟩

lemma strlen_le (h : strlen buf len = true) (hn : buf n = 0) : len ≤ n := by
  simp only [strlen, Bool.and_eq_true, List.all_eq_true] at h
  by_contra hlt
  have hmem : buf n ∈ load buf len :=
    List.mem_map_of_mem (List.mem_range.mpr (not_le.mp hlt))
  have hne := h.1 (buf n) hmem
  rw [hn] at hne
  exact absurd hne (by decide)

lemma load_take {l : List UInt8} (h : load buf l.length = l) (hn : n ≤ l.length) :
    load buf n = l.take n := by
  obtain ⟨k, hk⟩ := Nat.exists_eq_add_of_le hn
  rw [← h, hk, load_add, List.take_left' load_length]

end Lines

lemma fgetsStep_cases (he : fgetsStep s = some s') : s.pc = .fgets ∧
    (s.stdin.length ≤ s.pos ∧ s' = { s with pc := .write, line := none } ∨
      ∃ text, text ≠ [] ∧ text = (s.stdin.drop s.pos).take text.length ∧
        s' = { s with
          pos := s.pos + text.length
          buf := store s.buf 0 (text ++ [0])
          pc := .write
          line := some s.pos }) := by
  simp only [fgetsStep, Option.ite_none_right_eq_some] at he
  obtain ⟨hpc, he⟩ := he
  refine ⟨hpc, ?_⟩
  cases hrest : s.stdin.drop s.pos with
  | nil =>
    simp only [hrest, Option.some.injEq] at he
    exact Or.inl ⟨List.drop_eq_nil_iff.mp hrest, he.symm⟩
  | cons b input =>
    simp only [hrest, Option.some.injEq] at he
    exact Or.inr ⟨_, fgets_ne_nil (List.cons_ne_nil b input), fgets_take, he.symm⟩

lemma fgetsStep_forwarding (h : Forwarding s) (he : fgetsStep s = some s') : Forwarding s' := by
  obtain ⟨hpc, ⟨hend, rfl⟩ | ⟨text, hne, htext, rfl⟩⟩ := fgetsStep_cases he
  · have hup := h.between (Or.inl hpc)
    exact ⟨⟨h.forwards.sent, h.forwards.places⟩, h.fits, nofun,
      fun _ _ => ⟨hup.whole, hup.short⟩, fun p _ hp => by cases hp⟩
  · have hup := h.between (Or.inl hpc)
    have hpos : 0 < text.length := List.length_pos_iff.mpr hne
    have hlen : text.length ≤ s.stdin.length - s.pos := by
      rw [htext, List.length_take, List.length_drop]
      exact min_le_right _ _
    refine ⟨⟨h.forwards.sent, h.forwards.places⟩, ?_, nofun, nofun,
      fun p _ hp => ?_⟩
    · have hfits := h.fits
      dsimp only
      omega
    · obtain rfl := Option.some.inj hp
      refine ⟨⟨hup.whole, hup.short⟩, Nat.lt_add_of_pos_right hpos, ?_⟩
      dsimp only
      rw [Nat.add_sub_cancel_left, ← htext]
      exact holds_store

lemma writeStep_cases (he : writeStep s len r = some s') :
    (s.pc = .write ∧ strlen s.buf len = true ∧ -1 ≤ r ∧ r ≤ len) ∧
      s' = { s with
        sent := s.sent ++ load s.buf r.toNat
        places := s.places ++ (List.range r.toNat).map fun i => s.line.map (· + i)
        whole := wholeAfter s r
        pc := if r = 0 then .exited else .read } := by
  simp only [writeStep, Option.ite_none_right_eq_some, Option.some.injEq] at he
  exact ⟨he.1, he.2.symm⟩

lemma upto_unsent (h : Forwarding s) (hpc : s.pc = .write) (hr : r.toNat = 0) :
    (wholeAfter s r = true → s.sent.length = s.pos) ∧
      (wholeAfter s r = false → s.sent.length < s.pos) := by
  cases hline : s.line with
  | none =>
    have hup := h.eof hpc hline
    simp only [wholeAfter, hline]
    exact ⟨hup.whole, hup.short⟩
  | some p =>
    obtain ⟨hup, hlt, -⟩ := h.pending p hpc hline
    have hlost : ¬ 0 = s.pos - p := by omega
    have hless : s.sent.length ≤ p := by
      cases hw : s.whole with
      | true => exact (hup.whole hw).le
      | false => exact (hup.short hw).le
    simp only [wholeAfter, hline, hr, Bool.and_eq_true, beq_iff_eq, hlost, and_false, false_imp_iff,
      true_and]
    intro _
    omega

lemma unsent_forwarding (h : Forwarding s) (hpc : s.pc = .write) (hr : r.toNat = 0) {pc : Pc}
    (hpc' : pc ≠ .write) : Forwarding { s with
      sent := s.sent ++ load s.buf r.toNat
      places := s.places ++ (List.range r.toNat).map fun i => s.line.map (· + i)
      whole := wholeAfter s r
      pc := pc } := by
  have hup := upto_unsent h hpc hr
  have hload : load s.buf r.toNat = [] := by rw [hr]; rfl
  have hrange : List.range r.toNat = [] := by rw [hr]; rfl
  simp only [hload, hrange, List.map_nil, List.append_nil]
  exact ⟨⟨h.forwards.sent, h.forwards.places⟩, h.fits, fun _ => ⟨hup.1, hup.2⟩,
    fun hw => absurd hw hpc', fun _ hw => absurd hw hpc'⟩

lemma Pending.le_line (h : Pending s p) (hfits : s.pos ≤ s.stdin.length)
    (hs : strlen s.buf len = true) : len ≤ s.pos - p := by
  apply strlen_le hs
  have hlen : ((s.stdin.drop p).take (s.pos - p)).length = s.pos - p := by
    rw [List.length_take, List.length_drop]
    omega
  rw [← hlen]
  exact h.holds.zero

lemma Pending.load (h : Pending s p) (hfits : s.pos ≤ s.stdin.length) (hn : n ≤ s.pos - p) :
    load s.buf n = (s.stdin.drop p).take n := by
  have hlen : ((s.stdin.drop p).take (s.pos - p)).length = s.pos - p := by
    rw [List.length_take, List.length_drop]
    omega
  rw [load_take h.holds.bytes (by rwa [hlen]), List.take_take, min_eq_left hn]

lemma sent_forwarding (h : Forwarding s) (hpc : s.pc = .write) (hline : s.line = some p)
    (hw : s.whole = true) (hs : strlen s.buf len = true) (hr : r.toNat ≤ len) {pc : Pc}
    (hpc' : pc ≠ .write) : Forwarding { s with
      sent := s.sent ++ load s.buf r.toNat
      places := s.places ++ (List.range r.toNat).map fun i => s.line.map (· + i)
      whole := wholeAfter s r
      pc := pc } := by
  have hpend := h.pending p hpc hline
  have hlen : s.sent.length = p := hpend.upto.whole hw
  have hle : r.toNat ≤ s.pos - p := hr.trans (hpend.le_line h.fits hs)
  have hlt := hpend.nonempty
  have hsent : s.sent ++ Library.load s.buf r.toNat = s.stdin.take (p + r.toNat) := by
    rw [hpend.load h.fits hle, List.take_add, ← hlen]
    congr 1
    exact List.prefix_iff_eq_take.mp h.forwards.sent
  have hlen' : (s.sent ++ Library.load s.buf r.toNat).length = p + r.toNat := by
    rw [List.length_append, load_length, hlen]
  refine ⟨⟨?_, ?_⟩, h.fits, fun _ => ⟨fun hw' => ?_, fun hw' => ?_⟩,
    fun hw' => absurd hw' hpc', fun _ hw' => absurd hw' hpc'⟩
  · dsimp only
    rw [hsent]
    exact List.take_prefix _ _
  · dsimp only
    rw [hlen', h.forwards.places, hlen, hline, List.range_add, List.map_append, List.map_map]
    rfl
  · dsimp only at hw' ⊢
    simp only [wholeAfter, hline, hw, Bool.true_and, beq_iff_eq] at hw'
    omega
  · dsimp only at hw' ⊢
    simp only [wholeAfter, hline, hw, Bool.true_and, beq_eq_false_iff_ne] at hw'
    omega

lemma writeStep_forwarding (h : Forwarding s) (ho : Orderly s (.write len r))
    (he : writeStep s len r = some s') : Forwarding s' := by
  obtain ⟨⟨hpc, hs, -, hr⟩, rfl⟩ := writeStep_cases he
  have hpc' : (if r = 0 then Pc.exited else Pc.read) ≠ .write := by
    split_ifs <;> decide
  by_cases hpos : 0 < r
  · obtain ⟨hline, hw⟩ := ho len r rfl hpos
    obtain ⟨p, hp⟩ := Option.isSome_iff_exists.mp hline
    exact sent_forwarding h hpc hp hw hs (by omega) hpc'
  · exact unsent_forwarding h hpc (by omega) hpc'

lemma readStep_forwarding {a : ReadResult} (h : Forwarding s) (he : readStep s a = some s') :
    Forwarding s' := by
  simp only [readStep, Option.ite_none_right_eq_some] at he
  obtain ⟨⟨hpc, -⟩, he⟩ := he
  have hup := h.between (Or.inr hpc)
  cases a with
  | error | eof | data bytes =>
    obtain rfl := Option.some.inj he
    exact ⟨⟨h.forwards.sent, h.forwards.places⟩, h.fits, fun _ => ⟨hup.whole, hup.short⟩, nofun,
      nofun⟩

lemma step_forwarding (h : Forwarding s) (ho : Orderly s l) (he : step s l = some s') :
    Forwarding s' := by
  cases l with
  | fgets => exact fgetsStep_forwarding h he
  | write len r => exact writeStep_forwarding h ho he
  | sigpipe =>
    simp only [step, Option.ite_none_right_eq_some, Option.some.injEq] at he
    obtain ⟨-, rfl⟩ := he
    exact ⟨⟨h.forwards.sent, h.forwards.places⟩, h.fits, nofun, nofun, nofun⟩
  | read a => exact readStep_forwarding h he

lemma step_repeats (h : Forwarding s) (ho : ¬ Orderly s l) (he : step s l = some s') :
    ¬ Forwards s' := by
  simp only [Orderly, not_forall] at ho
  obtain ⟨len, r, rfl, hpos, ho⟩ := ho
  obtain ⟨⟨hpc, hs, -, hr⟩, rfl⟩ := writeStep_cases he
  rintro ⟨-, hplaces⟩
  have hlen : s.places.length = s.sent.length := by
    rw [h.forwards.places, List.length_map, List.length_range]
  have hfirst : s.line = some s.sent.length := by
    obtain ⟨m, hm⟩ : ∃ m, r.toNat = m + 1 := ⟨r.toNat - 1, by omega⟩
    have hget := congrArg (fun l => l[s.sent.length]?) hplaces
    simp only [List.length_append, load_length, hm, List.range_succ_eq_map, List.map_cons] at hget
    rw [List.getElem?_append_right (by omega), hlen, Nat.sub_self] at hget
    simpa [Nat.add_zero] using hget
  apply ho
  refine ⟨by rw [hfirst]; rfl, ?_⟩
  by_contra hw
  have hshort := (h.pending _ hpc hfirst).upto.short (Bool.eq_false_iff.mpr hw)
  exact lt_irrefl _ hshort

theorem forwards_iff (stdin : List UInt8) (buf : ℕ → UInt8) (ls : List Label) (s : State)
    (hr : (system stdin).Run (start stdin buf) ls s) :
    (system stdin).Along Forwards (start stdin buf) ls ↔
      (system stdin).Guarded Orderly (start stdin buf) ls := by
  have h₀ : Forwarding (start stdin buf) :=
    ⟨⟨List.nil_prefix, rfl⟩, Nat.zero_le _, fun _ => ⟨fun _ => rfl, nofun⟩, nofun, nofun⟩
  exact System.along_iff_guarded (fun _ h => h.forwards) (fun _ _ _ => step_forwarding)
    (fun _ _ _ => step_repeats) h₀ hr

def oneLine : List Label :=
  [.fgets, .write 2 2, .read (.data [65, 10])]

theorem forwards_iff_line : ∃ s, (system [97, 10]).Run (start [97, 10] fun _ => 0) oneLine s ∧
    ((system [97, 10]).Along Forwards (start [97, 10] fun _ => 0) oneLine ↔
      (system [97, 10]).Guarded Orderly (start [97, 10] fun _ => 0) oneLine) := by
  have hrun : ((system [97, 10]).exec (start [97, 10] fun _ => 0) oneLine).isSome = true := rfl
  obtain ⟨s, hr⟩ := System.exists_run hrun
  exact ⟨s, hr, forwards_iff [97, 10] _ oneLine s hr⟩

/-- At the end of the input the array still holds the answer, which is sent. -/
theorem answer_sent_back : ∃ s, (system [97, 10]).Reachable s ∧ s.sent = [97, 10, 65, 10] ∧
    ¬ Forwards s := by
  have hrun : ((system [97, 10]).exec (start [97, 10] fun _ => 0)
      (oneLine ++ [.fgets, .write 2 2])).map (fun s => (s.stdin, s.sent)) =
        some ([97, 10], [97, 10, 65, 10]) := rfl
  have h₀ : (system [97, 10]).initial (start [97, 10] fun _ => 0) := ⟨_, rfl⟩
  obtain ⟨s, hs, hs'⟩ := System.Reachable.observe h₀ hrun
  obtain ⟨hstdin, hsent⟩ := Prod.mk.inj hs'
  refine ⟨s, hs, hsent, fun h => ?_⟩
  have hle := h.sent.length_le
  rw [hstdin, hsent] at hle
  exact absurd hle (by decide)

end UnixProgramming.LineEcho.Client
