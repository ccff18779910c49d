import UnixProgramming.FcntlLocking.Lines

/-! One request given to `i_fcntl_locking.c` as a line and to `t_fcntl_locking.c` as
arguments. -/

namespace UnixProgramming.FcntlLocking

open Library

/-- Decimal text of a value that `off_t` holds. -/
structure Offset extends Numeral where
  range : LLONG_MIN ≤ toNumeral.value ∧ toNumeral.value ≤ LLONG_MAX

def Cmd.word : Cmd → String
  | .F_GETLK => "F_GETLK"
  | .F_SETLK => "F_SETLK"
  | .F_SETLKW => "F_SETLKW"

def Cmd.letter : Cmd → String
  | .F_GETLK => "g"
  | .F_SETLK => "s"
  | .F_SETLKW => "w"

def LockType.word : LockType → String
  | .F_RDLCK => "F_RDLCK"
  | .F_WRLCK => "F_WRLCK"
  | .F_UNLCK => "F_UNLCK"

def LockType.letter : LockType → String
  | .F_RDLCK => "r"
  | .F_WRLCK => "w"
  | .F_UNLCK => "u"

def Whence.word : Whence → String
  | .SEEK_SET => "SEEK_SET"
  | .SEEK_CUR => "SEEK_CUR"
  | .SEEK_END => "SEEK_END"

def Whence.letter : Whence → String
  | .SEEK_SET => "s"
  | .SEEK_CUR => "c"
  | .SEEK_END => "e"

structure Gaps where
  cmd : List UInt8
  lock : List UInt8
  start : List UInt8
  length : List UInt8
  whence : List UInt8
  blank : ∀ b ∈ cmd ++ lock ++ start ++ length ++ whence, isspace b ∧ b ≠ 10
  apart : start ≠ []

def Gaps.single : Gaps where
  cmd := [32]
  lock := [32]
  start := [32]
  length := [32]
  whence := []
  blank := by
    intro b hb
    obtain rfl : b = 32 := by simpa using hb
    decide
  apart := by decide

structure Entry where
  cmd : Cmd
  type : LockType
  whence : Option Whence
  start : Offset
  len : Offset

def Entry.line (e : Entry) (gaps : Gaps) : List UInt8 :=
  bytes e.cmd.letter ++ (gaps.cmd ++ (bytes e.type.letter ++ (gaps.lock ++ (e.start.text ++
    (gaps.start ++ (e.len.text ++ (gaps.length ++
      ((e.whence.elim [] fun w => bytes w.letter) ++ gaps.whence))))))))

def Entry.base (e : Entry) : Whence :=
  e.whence.getD .SEEK_SET

def Entry.argv (e : Entry) (prog : List UInt8) : List (List UInt8) :=
  [prog, bytes e.cmd.word, bytes e.type.word, bytes e.base.word, e.start.text, e.len.text]

def Agree (e : Entry) (gaps : Gaps) : Prop :=
  ∀ prog fd reply, ∀ r ∈ (TFcntl.main (e.argv prog) fd reply).1,
    ∀ argv fd' replies, ∀ r' ∈ (IFcntl.main argv fd' replies (e.line gaps ++ [10])).requests,
      r = r'

def Entry.request (e : Entry) : Request where
  cmd := e.cmd
  fl := ⟨e.type, e.base, e.start.value, e.len.value⟩

def Entry.Refused (e : Entry) : Prop :=
  int e.start.value < 0 ∧ e.base = .SEEK_SET ∨ int e.len.value < 0

def Entry.Narrow (e : Entry) : Prop :=
  (-(2 ^ 31) ≤ e.start.value ∧ e.start.value ≤ INT_MAX) ∧
    (-(2 ^ 31) ≤ e.len.value ∧ e.len.value ≤ INT_MAX)

instance (e : Entry) : Decidable e.Refused :=
  inferInstanceAs (Decidable (_ ∨ _))

instance (e : Entry) : Decidable e.Narrow :=
  inferInstanceAs (Decidable (_ ∧ _))

variable {e : Entry} {gaps : Gaps} {b : UInt8} {prog : List UInt8} {fd : ℤ} {x y : ℤ}
  {replies : ℕ → Reply} {n : Offset} {reply : Reply}

lemma atoi_offset : atoi n.text = int n.value := by
  rw [atoi_text, clamp_eq n.range.1 n.range.2]

lemma cmd_word {c : Cmd} : TFcntl.cmd (bytes c.word) = .ok c := by
  cases c <;> rfl

lemma type_word {t : LockType} : TFcntl.type (bytes t.word) = .ok t := by
  cases t <;> rfl

lemma whence_word {w : Whence} : TFcntl.whence (bytes w.word) = .ok w := by
  cases w <;> rfl

structure Letter (k : UInt8) : Prop where
  space : isspace k = false
  digit : isdigit k = false
  text : k ≠ 0 ∧ k ≠ 10

lemma cmd_letter (c : Cmd) : ∃ k, bytes c.letter = [k] ∧ Letter k := by
  cases c <;> exact ⟨_, rfl, by decide, by decide, by decide⟩

lemma type_letter (t : LockType) : ∃ k, bytes t.letter = [k] ∧ Letter k := by
  cases t <;> exact ⟨_, rfl, by decide, by decide, by decide⟩

lemma whence_letter (w : Whence) : ∃ k, bytes w.letter = [k] ∧ Letter k := by
  cases w <;> exact ⟨_, rfl, by decide, by decide, by decide⟩

lemma request_letters {c : Cmd} {t : LockType} {w : Whence} {k l m : UInt8}
    (hk : bytes c.letter = [k]) (hl : bytes t.letter = [l]) (hm : bytes w.letter = [m]) :
    IFcntl.request k l m x y = some ⟨c, ⟨t, w, x, y⟩⟩ := by
  cases c <;> cases hk <;> cases t <;> cases hl <;> cases w <;> cases hm <;> rfl

lemma sscanf_offset {s : List UInt8} {format : List Directive} (hr : Halts isdigit s) :
    sscanf (.lld :: format) (n.text ++ s) = .lld n.value :: sscanf format s := by
  rw [sscanf_lld hr, clamp_eq n.range.1 n.range.2]

structure Gaps.Blank (gaps : Gaps) : Prop where
  cmd : ∀ b ∈ gaps.cmd, isspace b
  lock : ∀ b ∈ gaps.lock, isspace b
  start : ∀ b ∈ gaps.start, isspace b
  length : ∀ b ∈ gaps.length, isspace b
  whence : ∀ b ∈ gaps.whence, isspace b

lemma Gaps.parts (gaps : Gaps) : gaps.Blank := by
  have h := fun b hb => (gaps.blank b hb).1
  simp only [List.mem_append] at h
  exact ⟨fun b hb => h b (.inl (.inl (.inl (.inl hb)))),
    fun b hb => h b (.inl (.inl (.inl (.inr hb)))), fun b hb => h b (.inl (.inl (.inr hb))),
    fun b hb => h b (.inl (.inr hb)), fun b hb => h b (.inr hb)⟩

def Entry.tail (e : Entry) (gaps : Gaps) : List UInt8 :=
  gaps.length ++ ((e.whence.elim [] fun w => bytes w.letter) ++ gaps.whence)

lemma tail_halts : Halts isdigit (e.tail gaps) := by
  have hblank := gaps.parts
  apply halts_append fun b hb => isdigit_of_isspace (hblank.length b hb)
  cases e.whence with
  | none =>
    rw [Option.elim_none, List.nil_append, ← List.append_nil gaps.whence]
    exact halts_append (fun b hb => isdigit_of_isspace (hblank.whence b hb)) (by simp [Halts])
  | some w =>
    obtain ⟨k, hk, hletter⟩ := whence_letter w
    simp only [Option.elim_some, hk]
    exact halts_cons hletter.digit

lemma sscanf_tail : sscanf [.space, .char] (e.tail gaps) =
    e.whence.elim [] fun w => (bytes w.letter).map .char := by
  have hblank := gaps.parts
  rw [Entry.tail]
  cases e.whence with
  | none =>
    have hall : ∀ b ∈ gaps.length ++ gaps.whence, isspace b := by
      intro b hb
      rcases List.mem_append.mp hb with hb | hb
      · exact hblank.length b hb
      · exact hblank.whence b hb
    have hend : sscanf [.space, .char] (gaps.length ++ gaps.whence ++ []) = [] :=
      sscanf_space hall (by simp [Halts])
    rw [List.append_nil] at hend
    exact hend
  | some w =>
    obtain ⟨k, hk, hletter⟩ := whence_letter w
    simp only [Option.elim_some, hk]
    exact sscanf_space hblank.length (halts_cons hletter.space)

lemma sscanf_line {k l : UInt8} (hk : bytes e.cmd.letter = [k]) (hl : bytes e.type.letter = [l])
    (hletter : Letter l) : sscanf IFcntl.format (e.line gaps) =
      .char k :: .char l :: .lld e.start.value :: .lld e.len.value ::
        e.whence.elim [] fun w => (bytes w.letter).map .char := by
  have hblank := gaps.parts
  have hstart : Halts isdigit (gaps.start ++ (e.len.text ++ e.tail gaps)) := by
    obtain ⟨b, bs, hb⟩ := List.exists_cons_of_ne_nil gaps.apart
    rw [hb]
    exact halts_cons (isdigit_of_isspace (hblank.start b (by simp [hb])))
  rw [Entry.line, hk, hl, IFcntl.format]
  change sscanf _ (k :: (gaps.cmd ++ l :: (gaps.lock ++ (e.start.text ++
    (gaps.start ++ (e.len.text ++ e.tail gaps)))))) = _
  rw [sscanf_char, sscanf_space hblank.cmd (halts_cons hletter.space), sscanf_char,
    sscanf_space hblank.lock e.start.halts_isspace, sscanf_offset hstart,
    sscanf_space hblank.start e.len.halts_isspace, sscanf_offset tail_halts, sscanf_tail]

theorem decode_line : IFcntl.decode (e.line gaps) = some e.request := by
  obtain ⟨k, hk, -⟩ := cmd_letter e.cmd
  obtain ⟨l, hl, hletter⟩ := type_letter e.type
  rw [IFcntl.decode, sscanf_line hk hl hletter, Entry.request, Entry.base]
  cases e.whence with
  | none =>
    have hs : bytes Whence.SEEK_SET.letter = [115] := rfl
    exact request_letters hk hl hs
  | some w =>
    obtain ⟨m, hm, -⟩ := whence_letter w
    simp only [Option.elim_some, hm]
    exact request_letters hk hl hm

lemma mem_text (h : b ∈ n.text) : b ≠ 0 ∧ b ≠ 10 := by
  rcases List.mem_append.mp h with h | h
  · cases hs : n.sign with
    | none => simp [hs, Sign.text] at h
    | plus | minus =>
      rw [hs] at h
      rw [List.mem_singleton.mp h]
      decide
  · have hd := n.decimal b h
    constructor <;> rintro rfl <;> exact absurd hd (by decide)

lemma mem_line (h : b ∈ e.line gaps) : b ≠ 0 ∧ b ≠ 10 := by
  obtain ⟨k, hk, hk'⟩ := cmd_letter e.cmd
  obtain ⟨l, hl, hl'⟩ := type_letter e.type
  have hgap : b ∈ gaps.cmd ++ gaps.lock ++ gaps.start ++ gaps.length ++ gaps.whence →
      b ≠ 0 ∧ b ≠ 10 := by
    intro hb
    obtain ⟨hspace, hnewline⟩ := gaps.blank b hb
    refine ⟨?_, hnewline⟩
    rintro rfl
    exact absurd hspace (by decide)
  have hwhence : b ∈ (e.whence.elim [] fun w => bytes w.letter) → b ≠ 0 ∧ b ≠ 10 := by
    cases e.whence with
    | none => exact fun hb => absurd hb List.not_mem_nil
    | some w =>
      obtain ⟨m, hm, hm'⟩ := whence_letter w
      rw [Option.elim_some, hm]
      rintro hb
      rw [List.mem_singleton.mp hb]
      exact hm'.text
  simp only [Entry.line, hk, hl, List.mem_append, List.mem_singleton] at h hgap
  rcases h with rfl | h | rfl | h | h | h | h | h | h | h
  · exact hk'.text
  · exact hgap (by simp [h])
  · exact hl'.text
  · exact hgap (by simp [h])
  · exact mem_text h
  · exact hgap (by simp [h])
  · exact mem_text h
  · exact hgap (by simp [h])
  · exact hwhence h
  · exact hgap (by simp [h])

lemma interactive_requests (hlen : (e.line gaps).length + 1 < MAX_LINE) :
    (IFcntl.loop replies (e.line gaps ++ [10]) IFcntl.opened).requests = [e.request] := by
  rw [line_requests (fun b hb => mem_line hb) hlen, decode_line]
  rfl

def Entry.narrowed (e : Entry) : Request where
  cmd := e.cmd
  fl := ⟨e.type, e.base, int e.start.value, int e.len.value⟩

lemma argument_requests (hfd : fd ≠ -1) (he : ¬ e.Refused) :
    (TFcntl.main (e.argv prog) fd reply).1 = [e.narrowed] := by
  rw [Entry.Refused, not_or] at he
  have hreq : TFcntl.request (e.argv prog) fd = .ok e.narrowed := by
    simp only [TFcntl.request, Entry.argv, if_neg hfd, cmd_word, type_word, whence_word,
      atoi_offset, if_neg he.1, if_neg he.2, bind, Except.bind, Entry.narrowed]
  rw [TFcntl.main, hreq]

lemma argument_refused (he : e.Refused) : (TFcntl.main (e.argv prog) fd reply).1 = [] := by
  have hreq : ∃ arg, TFcntl.request (e.argv prog) fd = .error arg := by
    simp only [TFcntl.request, Entry.argv, cmd_word, type_word, whence_word, atoi_offset,
      bind, Except.bind]
    split_ifs with hfd hstart hlen
    · exact ⟨_, rfl⟩
    · exact ⟨_, rfl⟩
    · exact ⟨_, rfl⟩
    · exact absurd he (not_or.mpr ⟨hstart, hlen⟩)
  obtain ⟨arg, harg⟩ := hreq
  rw [TFcntl.main, harg]

lemma narrowed_eq_iff : e.narrowed = e.request ↔ e.Narrow := by
  simp only [Entry.narrowed, Entry.request, Entry.Narrow, Request.mk.injEq, Flock.mk.injEq,
    true_and, int_eq_iff]

lemma argument_mem {r : Request} (h : r ∈ (TFcntl.main (e.argv prog) fd reply).1) :
    r = e.narrowed ∧ ¬ e.Refused := by
  have hrefused : ¬ e.Refused := by
    intro he
    rw [argument_refused he] at h
    exact absurd h List.not_mem_nil
  by_cases hfd : fd = -1
  · subst hfd
    exact absurd h List.not_mem_nil
  · rw [argument_requests hfd hrefused] at h
    exact ⟨List.mem_singleton.mp h, hrefused⟩

lemma interactive_mem {argv : List (List UInt8)} {r : Request}
    (hlen : (e.line gaps).length + 1 < MAX_LINE)
    (h : r ∈ (IFcntl.main argv fd replies (e.line gaps ++ [10])).requests) : r = e.request := by
  rw [IFcntl.main] at h
  split_ifs at h
  · exact absurd h List.not_mem_nil
  · exact absurd h List.not_mem_nil
  · rw [interactive_requests hlen] at h
    exact List.mem_singleton.mp h

theorem agree_iff (hlen : (e.line gaps).length + 1 < MAX_LINE) :
    Agree e gaps ↔ e.Refused ∨ e.Narrow := by
  constructor
  · intro h
    by_cases hrefused : e.Refused
    · exact .inl hrefused
    · right
      rw [← narrowed_eq_iff]
      have harg : (TFcntl.main (e.argv []) 3 (.failed EAGAIN)).1 = [e.narrowed] :=
        argument_requests (by decide) hrefused
      have hline : (IFcntl.main [[], []] 3 (fun _ => .failed EAGAIN)
          (e.line gaps ++ [10])).requests = [e.request] := interactive_requests hlen
      apply h [] 3 (.failed EAGAIN) e.narrowed _ [[], []] 3 (fun _ => .failed EAGAIN)
      · rw [hline]
        exact List.mem_singleton_self _
      · rw [harg]
        exact List.mem_singleton_self _
  · intro h prog fd reply r hr argv fd' replies r' hr'
    obtain ⟨rfl, hrefused⟩ := argument_mem hr
    rw [interactive_mem hlen hr', narrowed_eq_iff]
    exact h.resolve_left hrefused

theorem agree_iff_narrow : ∃ e, e.line .single = bytes "s w 100 10 s" ∧ Agree e .single := by
  let start : Offset := ⟨⟨.none, bytes "100", by decide, List.all_eq_true.mp (by decide)⟩,
    by decide⟩
  let len : Offset := ⟨⟨.none, bytes "10", by decide, List.all_eq_true.mp (by decide)⟩,
    by decide⟩
  let e : Entry := ⟨.F_SETLK, .F_WRLCK, some .SEEK_SET, start, len⟩
  have hlen : (e.line .single).length + 1 < MAX_LINE := by decide
  exact ⟨e, by decide, (agree_iff hlen).mpr (.inr (by decide))⟩

theorem start_narrowed : ∃ e, e.line .single = bytes "s w 4294967296 1 s" ∧
    (TFcntl.main (e.argv []) 3 (.failed EAGAIN)).1 = [⟨.F_SETLK, ⟨.F_WRLCK, .SEEK_SET, 0, 1⟩⟩] ∧
    (IFcntl.main [[], []] 3 (fun _ => .failed EAGAIN) (e.line .single ++ [10])).requests =
      [⟨.F_SETLK, ⟨.F_WRLCK, .SEEK_SET, 4294967296, 1⟩⟩] ∧
    ¬ Agree e .single := by
  let start : Offset := ⟨⟨.none, bytes "4294967296", by decide,
    List.all_eq_true.mp (by decide)⟩, by decide⟩
  let len : Offset := ⟨⟨.none, bytes "1", by decide, List.all_eq_true.mp (by decide)⟩, by decide⟩
  let e : Entry := ⟨.F_SETLK, .F_WRLCK, some .SEEK_SET, start, len⟩
  have harg : (TFcntl.main (e.argv []) 3 (.failed EAGAIN)).1 =
      [⟨.F_SETLK, ⟨.F_WRLCK, .SEEK_SET, 0, 1⟩⟩] := by decide
  have hline : (IFcntl.main [[], []] 3 (fun _ => .failed EAGAIN)
      (e.line .single ++ [10])).requests =
        [⟨.F_SETLK, ⟨.F_WRLCK, .SEEK_SET, 4294967296, 1⟩⟩] := by
    decide
  refine ⟨e, by decide, harg, hline, fun h => ?_⟩
  have hsame := h [] 3 (.failed EAGAIN) _ (harg ▸ List.mem_singleton_self _) [[], []] 3
    (fun _ => .failed EAGAIN) _ (hline ▸ List.mem_singleton_self _)
  exact absurd hsame (by decide)

end UnixProgramming.FcntlLocking
