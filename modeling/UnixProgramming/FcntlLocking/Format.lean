import UnixProgramming.FcntlLocking.Agreement

/-! The lines that `i_fcntl_locking.c` takes for commands, and those of the format
`cmd lock start length [whence]`. -/

namespace UnixProgramming.FcntlLocking

open Library IFcntl
open LineEcho (fgets)

/-- The fields of a command with the white space before each of them and the text after the
last one. A number ends where its digits do. -/
structure Command where
  cmd : Cmd
  lockGap : List UInt8
  lock : LockType
  startGap : List UInt8
  start : Numeral
  lengthGap : List UInt8
  length : Numeral
  whenceGap : List UInt8
  whence : Option (Whence × List UInt8)
  blank : ∀ b ∈ lockGap ++ startGap ++ lengthGap ++ whenceGap, isspace b
  apart : lengthGap = [] → length.sign ≠ .none

def Command.rest (c : Command) : List UInt8 :=
  c.whence.elim [] fun w => bytes w.1.letter ++ w.2

def Command.line (c : Command) : List UInt8 :=
  bytes c.cmd.letter ++ (c.lockGap ++ (bytes c.lock.letter ++ (c.startGap ++ (c.start.text ++
    (c.lengthGap ++ (c.length.text ++ (c.whenceGap ++ c.rest)))))))

def Command.base (c : Command) : Whence :=
  (c.whence.map Prod.fst).getD .SEEK_SET

/-- The request of a command as `sscanf` reads its numbers. -/
def Command.sent (c : Command) : Request where
  cmd := c.cmd
  fl := ⟨c.lock, c.base, clamp c.start.value, clamp c.length.value⟩

structure Command.Valid (c : Command) : Prop where
  start : LLONG_MIN ≤ c.start.value ∧ c.start.value ≤ LLONG_MAX
  length : LLONG_MIN ≤ c.length.value ∧ c.length.value ≤ LLONG_MAX
  rest : ∀ w ∈ c.whence, ∀ b ∈ w.2, isspace b

def Form (line : List UInt8) : Prop :=
  ∃ c : Command, c.line = line ∧ c.Valid

/-- What the program does with the line, whenever it is the next one that it reads. -/
structure Classified (line : List UInt8) : Prop where
  issues : ∀ replies s rest, s.exit = none →
    ((∃ r, (round replies s (fgets (MAX_LINE - 1) (line ++ 10 :: rest)).1).requests =
      s.requests ++ [r]) ↔ Form line)
  silent : ∀ replies s rest, s.exit = none → ¬ Form line →
    (round replies s (fgets (MAX_LINE - 1) (line ++ 10 :: rest)).1).requests = s.requests
  refused : ∀ replies s rest, s.exit = none → ¬ Form line → line ≠ [] → line.head? ≠ some 63 →
    (round replies s (fgets (MAX_LINE - 1) (line ++ 10 :: rest)).1).printed =
      s.printed ++ [.prompt, .invalidCommand]

variable {c c' : Command} {line rest s gap : List UInt8} {x : ℤ} {k : UInt8}
  {format : List Directive} {fields : List Field}

structure Command.Blank (c : Command) : Prop where
  lock : ∀ b ∈ c.lockGap, isspace b
  start : ∀ b ∈ c.startGap, isspace b
  length : ∀ b ∈ c.lengthGap, isspace b
  whence : ∀ b ∈ c.whenceGap, isspace b

lemma Command.parts (c : Command) : c.Blank := by
  have h := c.blank
  simp only [List.mem_append] at h
  exact ⟨fun b hb => h b (.inl (.inl (.inl hb))), fun b hb => h b (.inl (.inl (.inr hb))),
    fun b hb => h b (.inl (.inr hb)), fun b hb => h b (.inr hb)⟩

lemma rest_halts {p : UInt8 → Bool} (h : ∀ k, Letter k → p k = false) : Halts p c.rest := by
  rw [Command.rest]
  cases c.whence with
  | none => simp [Halts]
  | some w =>
    obtain ⟨k, hk, hletter⟩ := whence_letter w.1
    simp only [Option.elim_some, hk]
    exact halts_cons (h k hletter)

lemma whence_halts : Halts isdigit (c.whenceGap ++ c.rest) :=
  halts_append (fun b hb => isdigit_of_isspace (c.parts.whence b hb))
    (rest_halts fun _ hk => hk.digit)

lemma start_halts : Halts isdigit (c.lengthGap ++ (c.length.text ++ (c.whenceGap ++ c.rest))) := by
  by_cases hnil : c.lengthGap = []
  · rw [hnil, List.nil_append]
    have hsign := c.apart hnil
    rw [Numeral.text]
    cases hs : c.length.sign with
    | none => exact absurd hs hsign
    | plus => exact halts_cons (by decide)
    | minus => exact halts_cons (by decide)
  · obtain ⟨b, bs, hb⟩ := List.exists_cons_of_ne_nil hnil
    rw [hb]
    exact halts_cons (isdigit_of_isspace (c.parts.length b (by simp [hb])))

def numberRest (s : List UInt8) : List UInt8 :=
  (strtol s).elim s Prod.snd

lemma numberRest_text {n : Numeral} (hgap : ∀ b ∈ gap, isspace b) (hr : Halts isdigit rest) :
    numberRest (gap ++ (n.text ++ rest)) = rest := by
  rw [numberRest, strtol_text hgap hr]
  rfl

def startText (line : List UInt8) : List UInt8 :=
  (line.tail.dropWhile isspace).tail

lemma startText_line : startText c.line = c.startGap ++ (c.start.text ++
    (c.lengthGap ++ (c.length.text ++ (c.whenceGap ++ c.rest)))) := by
  obtain ⟨k, hk, -⟩ := cmd_letter c.cmd
  obtain ⟨l, hl, hletter⟩ := type_letter c.lock
  have hskip : ∀ s, (c.lockGap ++ l :: s).dropWhile isspace = l :: s := fun s =>
    dropWhile_halts c.parts.lock (halts_cons hletter.space)
  rw [startText, Command.line, hk, hl]
  simp only [List.singleton_append, List.tail_cons, hskip]

structure Reads (line : List UInt8) (c : Command) : Prop where
  start : number (startText line) = c.start.value
  length : number (numberRest (startText line)) = c.length.value
  rest : (numberRest (numberRest (startText line))).dropWhile isspace = c.rest

lemma line_reads : Reads c.line c := by
  have hblank := c.parts
  refine ⟨?_, ?_, ?_⟩
  · rw [startText_line, number_text hblank.start start_halts]
  · rw [startText_line, numberRest_text hblank.start start_halts,
      number_text hblank.length whence_halts]
  · rw [startText_line, numberRest_text hblank.start start_halts,
      numberRest_text hblank.length whence_halts,
      dropWhile_halts hblank.whence (rest_halts fun _ hk => hk.space)]

lemma blank_rest : (∀ w ∈ c.whence, ∀ b ∈ w.2, isspace b) ↔ ∀ b ∈ c.rest.tail, isspace b := by
  rw [Command.rest]
  cases c.whence with
  | none => simp
  | some w =>
    obtain ⟨k, hk, -⟩ := whence_letter w.1
    simp [hk]

lemma valid_unique (h : c.line = c'.line) (hv : c.Valid) : c'.Valid := by
  have hr : Reads c.line c := line_reads
  have hr' : Reads c'.line c' := line_reads
  rw [h] at hr
  refine ⟨?_, ?_, ?_⟩
  · rw [← hr'.start, hr.start]
    exact hv.start
  · rw [← hr'.length, hr.length]
    exact hv.length
  · rw [blank_rest, ← hr'.rest, hr.rest, ← blank_rest]
    exact hv.rest

lemma sscanf_rest : sscanf [.space, .char] (c.whenceGap ++ c.rest) =
    c.whence.elim [] fun w => (bytes w.1.letter).map .char := by
  rw [sscanf_space c.parts.whence (rest_halts fun _ hk => hk.space), Command.rest]
  cases c.whence with
  | none => rfl
  | some w =>
    obtain ⟨k, hk, -⟩ := whence_letter w.1
    simp only [Option.elim_some, hk]
    rfl

lemma sscanf_command {l : UInt8} (hk : bytes c.cmd.letter = [k]) (hl : bytes c.lock.letter = [l])
    (hletter : Letter l) : sscanf IFcntl.format c.line =
      .char k :: .char l :: .lld (clamp c.start.value) :: .lld (clamp c.length.value) ::
        c.whence.elim [] fun w => (bytes w.1.letter).map .char := by
  have hblank := c.parts
  rw [Command.line, hk, hl, IFcntl.format]
  change sscanf _ (k :: (c.lockGap ++ l :: (c.startGap ++ (c.start.text ++
    (c.lengthGap ++ (c.length.text ++ (c.whenceGap ++ c.rest))))))) = _
  rw [sscanf_char, sscanf_space hblank.lock (halts_cons hletter.space), sscanf_char,
    sscanf_space hblank.start c.start.halts_isspace, sscanf_lld start_halts,
    sscanf_space hblank.length c.length.halts_isspace, sscanf_lld whence_halts, sscanf_rest]

theorem decode_command : decode c.line = some c.sent := by
  obtain ⟨k, hk, -⟩ := cmd_letter c.cmd
  obtain ⟨l, hl, hletter⟩ := type_letter c.lock
  rw [decode, sscanf_command hk hl hletter, Command.sent, Command.base]
  cases c.whence with
  | none =>
    have hs : bytes Whence.SEEK_SET.letter = [115] := rfl
    exact request_letters hk hl hs
  | some w =>
    obtain ⟨m, hm, -⟩ := whence_letter w.1
    simp only [Option.elim_some, hm]
    exact request_letters hk hl hm

lemma strchr_text {text : String} (h : strchr text k) (h0 : k ≠ 0) : k ∈ bytes text := by
  have hmem : k ∈ bytes text ++ [0] := by
    simpa only [strchr, decide_eq_true_eq] using h
  rcases List.mem_append.mp hmem with hmem | hmem
  · exact hmem
  · exact absurd (List.mem_singleton.mp hmem) h0

lemma letter_cmd (h : k ∈ bytes "gsw") : ∃ cmd : Cmd, bytes cmd.letter = [k] := by
  have hk : k = 103 ∨ k = 115 ∨ k = 119 := by simpa [bytes] using h
  rcases hk with rfl | rfl | rfl
  · exact ⟨.F_GETLK, rfl⟩
  · exact ⟨.F_SETLK, rfl⟩
  · exact ⟨.F_SETLKW, rfl⟩

lemma letter_lock (h : k ∈ bytes "rwu") : ∃ lock : LockType, bytes lock.letter = [k] := by
  have hk : k = 114 ∨ k = 119 ∨ k = 117 := by simpa [bytes] using h
  rcases hk with rfl | rfl | rfl
  · exact ⟨.F_RDLCK, rfl⟩
  · exact ⟨.F_WRLCK, rfl⟩
  · exact ⟨.F_UNLCK, rfl⟩

lemma letter_whence (h : k ∈ bytes "sce") : ∃ whence : Whence, bytes whence.letter = [k] := by
  have hk : k = 115 ∨ k = 99 ∨ k = 101 := by simpa [bytes] using h
  rcases hk with rfl | rfl | rfl
  · exact ⟨.SEEK_SET, rfl⟩
  · exact ⟨.SEEK_CUR, rfl⟩
  · exact ⟨.SEEK_END, rfl⟩

lemma request_some {l m : UInt8} {y : ℤ} {r : Request} (h : IFcntl.request k l m x y = some r) :
    strchr "gsw" k ∧ strchr "rwu" l ∧ strchr "sce" m := by
  simp only [IFcntl.request, Option.ite_none_right_eq_some, Bool.and_eq_true] at h
  exact ⟨h.1.1.1, h.1.1.2, h.1.2⟩

lemma apart_of_halts {n : Numeral} (h : Halts isdigit (gap ++ (n.text ++ rest))) :
    gap = [] → n.sign ≠ .none := by
  rintro rfl hs
  obtain ⟨d, ds, hd⟩ := List.exists_cons_of_ne_nil n.nonempty
  rw [List.nil_append, Numeral.text, hs, Sign.text, List.nil_append, hd] at h
  have hdigit := n.decimal d (by simp [hd])
  rw [h d rfl] at hdigit
  cases hdigit

lemma sscanf_fields {l : UInt8} {y : ℤ}
    (h : sscanf IFcntl.format line = .char k :: .char l :: .lld x :: .lld y :: fields) :
    ∃ lockGap startGap start lengthGap length tail,
      line = k :: (lockGap ++ l :: (startGap ++ (Numeral.text start ++ (lengthGap ++
        (Numeral.text length ++ tail))))) ∧
      (∀ b ∈ lockGap ++ startGap ++ lengthGap, isspace b) ∧
      (lengthGap = [] → length.sign ≠ .none) ∧ sscanf [.space, .char] tail = fields := by
  obtain ⟨s₁, rfl, h₁⟩ := sscanf_char_some h
  obtain ⟨g₁, s₂, rfl, hg₁, h₂⟩ := sscanf_space_char h₁
  obtain ⟨g₂, start, s₃, rfl, hg₂, hhalts, h₃⟩ := sscanf_space_lld h₂
  obtain ⟨g₃, length, tail, rfl, hg₃, -, hend⟩ := sscanf_space_lld h₃
  refine ⟨g₁, g₂, start, g₃, length, tail, rfl, fun b hb => ?_, apart_of_halts hhalts, hend⟩
  simp only [List.mem_append] at hb
  rcases hb with (hb | hb) | hb
  · exact hg₁ b hb
  · exact hg₂ b hb
  · exact hg₃ b hb

lemma sscanf_end (h : sscanf [.space, .char] rest = []) : ∀ b ∈ rest, isspace b := by
  rw [sscanf] at h
  have hnil : rest.dropWhile isspace = [] := by
    cases hd : rest.dropWhile isspace with
    | nil => rfl
    | cons b s => simp [hd] at h
  exact List.dropWhile_eq_nil_iff.mp hnil

theorem decode_some {r : Request} (htext : ∀ b ∈ line, b ≠ 0) (h : decode line = some r) :
    ∃ c : Command, c.line = line := by
  rw [decode] at h
  split at h
  · next k l x y heq =>
    obtain ⟨g₁, g₂, start, g₃, length, tail, rfl, hblank, hapart, hend⟩ := sscanf_fields heq
    obtain ⟨hk, hl, -⟩ := request_some h
    obtain ⟨cmd, hcmd⟩ := letter_cmd (strchr_text hk (htext k (by simp)))
    obtain ⟨lock, hlock⟩ := letter_lock (strchr_text hl (htext l (by simp)))
    refine ⟨⟨cmd, g₁, lock, g₂, start, g₃, length, tail, none, fun b hb => ?_, hapart⟩, ?_⟩
    · rcases List.mem_append.mp hb with hb | hb
      · exact hblank b hb
      · exact sscanf_end hend b hb
    · simp [Command.line, Command.rest, hcmd, hlock]
  · next k l x y w heq =>
    obtain ⟨g₁, g₂, start, g₃, length, tail, rfl, hblank, hapart, hend⟩ := sscanf_fields heq
    obtain ⟨g₄, extra, rfl, hg₄, -⟩ := sscanf_space_char hend
    obtain ⟨hk, hl, hw⟩ := request_some h
    obtain ⟨cmd, hcmd⟩ := letter_cmd (strchr_text hk (htext k (by simp)))
    obtain ⟨lock, hlock⟩ := letter_lock (strchr_text hl (htext l (by simp)))
    obtain ⟨whence, hwhence⟩ := letter_whence (strchr_text hw (htext w (by simp)))
    refine ⟨⟨cmd, g₁, lock, g₂, start, g₃, length, g₄, some (whence, extra), fun b hb => ?_,
      hapart⟩, ?_⟩
    · rcases List.mem_append.mp hb with hb | hb
      · exact hblank b hb
      · exact hg₄ b hb
    · simp [Command.line, Command.rest, hcmd, hlock, hwhence]
  · cases h

/-- The lines that yield a request are those of a command, and the request has the fields of
the command. -/
theorem decode_iff {r : Request} (htext : ∀ b ∈ line, b ≠ 0) :
    decode line = some r ↔ ∃ c : Command, c.line = line ∧ c.sent = r := by
  constructor
  · intro h
    obtain ⟨c, rfl⟩ := decode_some htext h
    exact ⟨c, rfl, Option.some.inj (decode_command.symm.trans h)⟩
  · rintro ⟨c, rfl, rfl⟩
    exact decode_command

lemma decode_isSome (htext : ∀ b ∈ line, b ≠ 0) :
    (decode line).isSome ↔ ∃ c : Command, c.line = line := by
  simp only [Option.isSome_iff_exists, decode_iff htext]
  constructor
  · rintro ⟨r, c, hc, -⟩
    exact ⟨c, hc⟩
  · rintro ⟨c, hc⟩
    exact ⟨_, c, hc, rfl⟩

lemma round_line (hline : ∀ b ∈ line, b ≠ 0 ∧ b ≠ 10) (hlen : line.length + 1 < MAX_LINE)
    {replies : ℕ → Reply} {s : Session} (hs : s.exit = none) :
    IFcntl.round replies s (fgets (MAX_LINE - 1) (line ++ 10 :: rest)).1 =
      execute (replies s.requests.length)
        { s with
          printed := s.printed ++ [.prompt]
          stores := s.stores ++ [(strlen (line ++ [10]) : ℤ) - 1] } line := by
  have hnewline : 10 ∉ line := fun h => (hline 10 h).2 rfl
  have hzero : 0 ∉ line ++ [10] := by
    simpa using fun h => (hline 0 h).1 rfl
  rw [fgets_line hnewline (Nat.lt_sub_of_add_lt hlen), IFcntl.round, if_pos hs, trim_eq hzero,
    List.dropLast_concat]

lemma round_line_requests (hline : ∀ b ∈ line, b ≠ 0 ∧ b ≠ 10) (hlen : line.length + 1 < MAX_LINE)
    {replies : ℕ → Reply} {s : Session} (hs : s.exit = none) :
    (IFcntl.round replies s (fgets (MAX_LINE - 1) (line ++ 10 :: rest)).1).requests =
      s.requests ++ (decode line).toList := by
  rw [round_line hline hlen hs, execute_requests]

lemma issued_iff {requests : List Request} {reply : Option Request} :
    (∃ r, requests ++ reply.toList = requests ++ [r]) ↔ reply.isSome := by
  cases reply <;> simp

lemma form_iff (hv : ∀ c : Command, c.line = line → c.Valid) (htext : ∀ b ∈ line, b ≠ 0) :
    Form line ↔ (decode line).isSome := by
  rw [decode_isSome htext]
  constructor
  · rintro ⟨c, hc, -⟩
    exact ⟨c, hc⟩
  · rintro ⟨c, hc⟩
    exact ⟨c, hc, hv c hc⟩

theorem classified_iff (line : List UInt8) (hline : ∀ b ∈ line, b ≠ 0 ∧ b ≠ 10)
    (hlen : line.length + 1 < MAX_LINE) :
    Classified line ↔ ∀ c : Command, c.line = line → c.Valid := by
  have htext : ∀ b ∈ line, b ≠ 0 := fun b hb => (hline b hb).1
  constructor
  · rintro h c rfl
    have hform := h.issues (fun _ => .failed EAGAIN) opened [] rfl
    rw [round_line_requests hline hlen rfl, issued_iff] at hform
    obtain ⟨c', hc', hv⟩ := hform.mp (Option.isSome_of_eq_some decode_command)
    exact valid_unique hc' hv
  · intro hv
    have hform := form_iff hv htext
    refine ⟨fun replies s rest hs => ?_, fun replies s rest hs hn => ?_,
      fun replies s rest hs hn hnil hhelp => ?_⟩
    · rw [round_line_requests hline hlen hs, issued_iff, hform]
    · rw [hform, Option.not_isSome_iff_eq_none] at hn
      rw [round_line_requests hline hlen hs, hn]
      exact List.append_nil _
    · rw [hform, Option.not_isSome_iff_eq_none] at hn
      rw [round_line hline hlen hs, execute, if_neg hnil, if_neg hhelp, hn]
      simp

theorem classified_iff_write : (∀ b ∈ bytes "s w 0 15", b ≠ 0 ∧ b ≠ 10) ∧
    (bytes "s w 0 15").length + 1 < MAX_LINE ∧
    (Classified (bytes "s w 0 15") ↔ ∀ c : Command, c.line = bytes "s w 0 15" → c.Valid) := by
  have hline : ∀ b ∈ bytes "s w 0 15", b ≠ 0 ∧ b ≠ 10 := by
    intro b hb
    exact ⟨fun h => absurd (h ▸ hb) (by decide), fun h => absurd (h ▸ hb) (by decide)⟩
  have hlen : (bytes "s w 0 15").length + 1 < MAX_LINE := by decide
  exact ⟨hline, hlen, classified_iff _ hline hlen⟩

/-- The text after the last field is not read. -/
theorem extra_text_accepted :
    (IFcntl.round (fun _ => .failed EAGAIN) opened
      (fgets (MAX_LINE - 1) (bytes "s w 0 15 s x" ++ [10])).1).requests =
        [⟨.F_SETLK, ⟨.F_WRLCK, .SEEK_SET, 0, 15⟩⟩] ∧
      ¬ Form (bytes "s w 0 15 s x") ∧ ¬ Classified (bytes "s w 0 15 s x") := by
  have hrequests : (IFcntl.round (fun _ => .failed EAGAIN) opened
      (fgets (MAX_LINE - 1) (bytes "s w 0 15 s x" ++ [10])).1).requests =
        [⟨.F_SETLK, ⟨.F_WRLCK, .SEEK_SET, 0, 15⟩⟩] := by decide
  have hform : ¬ Form (bytes "s w 0 15 s x") := by
    rintro ⟨c, hc, hv⟩
    have hr : Reads c.line c := line_reads
    have hblank := blank_rest.mp hv.rest
    rw [← hr.rest, hc] at hblank
    exact absurd (hblank 120 (by decide)) (by decide)
  refine ⟨hrequests, hform, fun h => hform ?_⟩
  exact (h.issues (fun _ => .failed EAGAIN) opened [] rfl).mp ⟨_, hrequests⟩

end UnixProgramming.FcntlLocking
