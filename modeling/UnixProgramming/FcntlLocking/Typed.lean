import UnixProgramming.FcntlLocking.Format

/-! The requests that the lines of the input ask for, and those that `i_fcntl_locking.c`
issues. -/

namespace UnixProgramming.FcntlLocking

open Library IFcntl

/-- The request of a command with its numbers as they are typed. -/
def Command.request (c : Command) : Request where
  cmd := c.cmd
  fl := ⟨c.lock, c.base, c.start.value, c.length.value⟩

/-- Each command asks for one request and every other line for none. -/
inductive Asks : List (List UInt8) → List Request → Prop
  | nil : Asks [] []
  | command (c : Command) {lines requests} : Asks lines requests →
      Asks (c.line :: lines) (c.request :: requests)
  | other {line lines requests} : (∀ c : Command, c.line ≠ line) → Asks lines requests →
      Asks (line :: lines) requests

/-- Each string that is decoded is one whole line, in order, and the requests are those that
the lines ask for, all of them unless a failed `F_GETLK` ends the program. -/
structure AsTyped (input : List UInt8) : Prop where
  commands : (pieces input.length input).map trim = lines input
  requests : ∀ argv fd replies, ∃ requests, Asks (lines input) requests ∧
    (main argv fd replies input).requests <+: requests
  complete : ∀ argv fd replies, (main argv fd replies input).exit = some EXIT_SUCCESS →
    Asks (lines input) (main argv fd replies input).requests

structure Command.InRange (c : Command) : Prop where
  start : LLONG_MIN ≤ c.start.value ∧ c.start.value ≤ LLONG_MAX
  length : LLONG_MIN ≤ c.length.value ∧ c.length.value ≤ LLONG_MAX

def InRange (ls : List (List UInt8)) : Prop :=
  ∀ line ∈ ls, ∀ c : Command, c.line = line → c.InRange

variable {c c' : Command} {input line : List UInt8} {ls : List (List UInt8)} {rs : List Request}
  {r : Request} {ps : List (List UInt8)} {replies : ℕ → Reply} {reply : Reply} {s : Session}
  {b : UInt8}

lemma request_unique (h : c.line = c'.line) : c.request = c'.request := by
  have hr : Reads c.line c := line_reads
  have hr' : Reads c'.line c' := line_reads
  rw [h] at hr
  have hstart : c.start.value = c'.start.value := hr.start.symm.trans hr'.start
  have hlength : c.length.value = c'.length.value := hr.length.symm.trans hr'.length
  have hdecode : decode c.line = some c'.sent := by rw [h, decode_command]
  have hsent : c.sent = c'.sent := Option.some.inj (decode_command.symm.trans hdecode)
  simp only [Command.sent, Request.mk.injEq, Flock.mk.injEq] at hsent
  simp only [Command.request, hsent.1, hsent.2.1, hsent.2.2.1, hstart, hlength]

lemma clamp_eq_iff {x : ℤ} : clamp x = x ↔ LLONG_MIN ≤ x ∧ x ≤ LLONG_MAX := by
  constructor
  · intro h
    rw [← h, clamp]
    exact ⟨le_max_left _ _, max_le (by decide) (min_le_left _ _)⟩
  · rintro ⟨h, h'⟩
    exact clamp_eq h h'

lemma sent_iff : c.sent = c.request ↔ c.InRange := by
  simp only [Command.sent, Command.request, Request.mk.injEq, Flock.mk.injEq, true_and,
    clamp_eq_iff]
  constructor
  · rintro ⟨hstart, hlength⟩
    exact ⟨hstart, hlength⟩
  · rintro ⟨hstart, hlength⟩
    exact ⟨hstart, hlength⟩

lemma inRange_unique (h : c.line = c'.line) (hc : c.InRange) : c'.InRange := by
  have hr := request_unique h
  simp only [Command.request, Request.mk.injEq, Flock.mk.injEq] at hr
  obtain ⟨-, -, -, hstart, hlength⟩ := hr
  exact ⟨hstart ▸ hc.start, hlength ▸ hc.length⟩

lemma inRange_cons : InRange (c.line :: ls) ↔ c.InRange ∧ InRange ls := by
  rw [InRange, List.forall_mem_cons]
  constructor
  · rintro ⟨h, hls⟩
    exact ⟨h c rfl, hls⟩
  · rintro ⟨h, hls⟩
    exact ⟨fun c' hc => inRange_unique hc.symm h, hls⟩

lemma asks_command : Asks (c.line :: ls) rs ↔
    ∃ requests, rs = c.request :: requests ∧ Asks ls requests := by
  constructor
  · intro h
    generalize hl : c.line = line at h
    cases h with
    | command c' h => exact ⟨_, congrArg (· :: _) (request_unique hl.symm), h⟩
    | other hne _ => exact absurd hl (hne c)
  · rintro ⟨requests, rfl, h⟩
    exact .command c h

lemma asks_other (hne : ∀ c : Command, c.line ≠ line) : Asks (line :: ls) rs ↔ Asks ls rs := by
  constructor
  · intro h
    cases h with
    | command c _ => exact absurd rfl (hne c)
    | other _ h => exact h
  · exact .other hne

/-- What the program makes of lines is what they ask for where every number is in range. -/
theorem asks_decode (htext : ∀ line ∈ ls, 0 ∉ line) :
    Asks ls (ls.filterMap decode) ↔ InRange ls := by
  induction ls with
  | nil => exact ⟨fun _ _ hl => absurd hl List.not_mem_nil, fun _ => .nil⟩
  | cons line ls ih =>
    rw [List.forall_mem_cons] at htext
    have hrec := ih htext.2
    by_cases hcommand : ∃ c : Command, c.line = line
    · obtain ⟨c, rfl⟩ := hcommand
      have hdecode : (c.line :: ls).filterMap decode = c.sent :: ls.filterMap decode := by
        rw [List.filterMap_cons, decode_command]
      simp only [hdecode, asks_command, inRange_cons, List.cons.injEq, ← sent_iff, ← hrec]
      constructor
      · rintro ⟨_, ⟨hsent, rfl⟩, hls⟩
        exact ⟨hsent, hls⟩
      · rintro ⟨hsent, hls⟩
        exact ⟨_, ⟨hsent, rfl⟩, hls⟩
    · have hne : ∀ c : Command, c.line ≠ line := fun c hc => hcommand ⟨c, hc⟩
      have hdecode : decode line = none := by
        rw [← Option.not_isSome_iff_eq_none,
          decode_isSome fun b hb h0 => htext.1 (h0 ▸ hb)]
        exact hcommand
      rw [List.filterMap_cons, hdecode, asks_other hne, hrec, InRange, InRange,
        List.forall_mem_cons]
      exact (and_iff_right fun c hc => absurd hc (hne c)).symm

structure Issued (s s' : Session) (commands : List (List UInt8)) : Prop where
  requests : s'.requests <+: s.requests ++ commands.filterMap decode
  complete : s'.exit = none → s'.requests = s.requests ++ commands.filterMap decode
  exit : s'.exit = none ∨ s'.exit = some EXIT_FAILURE

lemma filterMap_decode {commands : List (List UInt8)} :
    (line :: commands).filterMap decode =
      (decode line).toList ++ commands.filterMap decode := by
  rw [List.filterMap_cons]
  cases decode line <;> rfl

theorem rounds_issued (h : s.exit = none) :
    Issued s (ps.foldl (round replies) s) (ps.map trim) := by
  induction ps generalizing s with
  | nil => exact ⟨by simp, by simp, .inl h⟩
  | cons piece ps ih =>
    have hreq : (IFcntl.round replies s piece).requests =
        s.requests ++ (decode (trim piece)).toList := round_requests h
    have hround : (IFcntl.round replies s piece).exit = none ∨
        (IFcntl.round replies s piece).exit = some EXIT_FAILURE := round_exit h
    rw [List.foldl_cons]
    rcases hround with hexit | hexit
    · obtain ⟨hr, hc, he⟩ := ih hexit
      rw [hreq, List.append_assoc, ← filterMap_decode] at hr hc
      exact ⟨hr, hc, he⟩
    · have hended : (IFcntl.round replies s piece).exit ≠ none := by simp [hexit]
      rw [rounds_ended hended]
      refine ⟨?_, fun hnone => absurd hnone hended, .inr hexit⟩
      rw [hreq, List.map_cons, filterMap_decode, ← List.append_assoc]
      exact List.prefix_append _ _

lemma loop_issued {commands : List (List UInt8)}
    (h : (pieces input.length input).map trim = commands) :
    (loop replies input opened).requests <+: commands.filterMap decode ∧
      ((loop replies input opened).exit = some EXIT_SUCCESS →
        (loop replies input opened).requests = commands.filterMap decode) := by
  have hissued : Issued opened ((pieces input.length input).foldl (IFcntl.round replies) opened)
      ((pieces input.length input).map trim) := rounds_issued rfl
  rw [h] at hissued
  rw [loop]
  rcases hissued.exit with hexit | hexit
  · rw [if_pos hexit]
    exact ⟨hissued.requests, fun _ => hissued.complete hexit⟩
  · rw [if_neg (by simp [hexit])]
    refine ⟨hissued.requests, fun hok => ?_⟩
    rw [hexit] at hok
    exact absurd hok (by decide)

lemma execute_continues {fl : Flock} {l_pid : ℤ} (h : s.exit = none) :
    (execute (.done fl l_pid) s line).exit = none := by
  rw [execute]
  split_ifs
  · exact h
  · exact h
  · cases decode line <;> exact h

/-- No reply of success ends the loop before the input does. -/
lemma loop_done {fl : Flock} {l_pid : ℤ} :
    (loop (fun _ => .done fl l_pid) input opened).exit = some EXIT_SUCCESS := by
  have hrounds : ∀ (ps : List (List UInt8)) (s : Session), s.exit = none →
      (ps.foldl (IFcntl.round fun _ => .done fl l_pid) s).exit = none := by
    intro ps
    induction ps with
    | nil => exact fun s h => h
    | cons piece ps ih =>
      intro s h
      rw [List.foldl_cons]
      apply ih
      rw [IFcntl.round, if_pos h]
      exact execute_continues h
  rw [loop]
  simp only [hrounds _ opened rfl, if_true]

lemma lines_subset (h : line ∈ lines input) (hb : b ∈ line) : b ∈ input := by
  induction input generalizing line with
  | nil => exact absurd h List.not_mem_nil
  | cons a input ih =>
    rw [lines] at h
    split_ifs at h
    · rcases List.mem_cons.mp h with rfl | h
      · exact absurd hb List.not_mem_nil
      · exact List.mem_cons_of_mem a (ih h hb)
    · cases hls : lines input with
      | nil =>
        rw [hls] at h
        obtain rfl := List.mem_singleton.mp h
        rw [List.mem_singleton.mp hb]
        exact List.mem_cons_self
      | cons first rest =>
        rw [hls] at h ih
        rcases List.mem_cons.mp h with rfl | h
        · rcases List.mem_cons.mp hb with rfl | hb
          · exact List.mem_cons_self
          · exact List.mem_cons_of_mem a (ih List.mem_cons_self hb)
        · exact List.mem_cons_of_mem a (ih (List.mem_cons_of_mem first h) hb)

theorem as_typed_iff_fits (htext : 0 ∉ input) :
    AsTyped input ↔ Fits input ∧ InRange (lines input) := by
  have hzero : ∀ line ∈ lines input, 0 ∉ line := fun line hline h => htext (lines_subset hline h)
  rw [← commands_iff_fits htext, ← asks_decode hzero]
  constructor
  · intro h
    refine ⟨h.commands, ?_⟩
    have hexit : (main [[], []] 3 (fun _ => .done ⟨.F_UNLCK, .SEEK_SET, 0, 0⟩ 0) input).exit =
        some EXIT_SUCCESS := loop_done
    have hall := (loop_issued h.commands).2 hexit
    rw [← hall]
    exact h.complete _ _ _ hexit
  · rintro ⟨hcommands, hasks⟩
    refine ⟨hcommands, ?_, ?_⟩
    · intro argv fd replies
      refine ⟨_, hasks, ?_⟩
      rw [main]
      split_ifs
      · exact List.nil_prefix
      · exact List.nil_prefix
      · exact (loop_issued hcommands).1
    · intro argv fd replies hexit
      rw [main] at hexit ⊢
      split_ifs at hexit ⊢
      · exact absurd hexit (by decide)
      · exact absurd hexit (by decide)
      · rw [(loop_issued hcommands).2 hexit]
        exact hasks

def writeLock (digits : List UInt8) (hne : digits ≠ []) (hall : ∀ d ∈ digits, isdigit d) :
    Command where
  cmd := .F_SETLK
  lockGap := [32]
  lock := .F_WRLCK
  startGap := [32]
  start := ⟨.none, bytes "0", by decide, List.all_eq_true.mp (by decide)⟩
  lengthGap := [32]
  length := ⟨.none, digits, hne, hall⟩
  whenceGap := []
  whence := none
  blank := List.all_eq_true.mp (by decide)
  apart h := absurd h (by decide)

theorem as_typed_iff_fits_line :
    0 ∉ bytes "s w 0 15" ++ [10] ∧ AsTyped (bytes "s w 0 15" ++ [10]) := by
  have htext : 0 ∉ bytes "s w 0 15" ++ [10] := by decide
  let c := writeLock (bytes "15") (by decide) (List.all_eq_true.mp (by decide))
  have hline : c.line = bytes "s w 0 15" := by decide
  have hrange : InRange (lines (bytes "s w 0 15" ++ [10])) := by
    rw [lines_line (by decide), ← hline, inRange_cons]
    exact ⟨⟨by decide, by decide⟩, fun _ h => absurd h List.not_mem_nil⟩
  exact ⟨htext, (as_typed_iff_fits htext).mpr ⟨line_fits (by decide) (by decide), hrange⟩⟩

def granted (_ : ℕ) : Reply :=
  .done ⟨.F_WRLCK, .SEEK_SET, 0, 1⟩ 0

theorem last_digit_dropped :
    ((main [bytes "i_fcntl", bytes "f"] 3 granted (bytes "s w 0 15")).requests =
        [⟨.F_SETLK, ⟨.F_WRLCK, .SEEK_SET, 0, 1⟩⟩] ∧
      Asks (lines (bytes "s w 0 15")) [⟨.F_SETLK, ⟨.F_WRLCK, .SEEK_SET, 0, 15⟩⟩] ∧
      ¬ AsTyped (bytes "s w 0 15")) ∧
    (main [bytes "i_fcntl", bytes "f"] 3 granted
        (bytes "s w 0 99999999999999999999\n")).requests =
        [⟨.F_SETLK, ⟨.F_WRLCK, .SEEK_SET, 0, 9223372036854775807⟩⟩] ∧
      Asks (lines (bytes "s w 0 99999999999999999999\n"))
        [⟨.F_SETLK, ⟨.F_WRLCK, .SEEK_SET, 0, 99999999999999999999⟩⟩] ∧
      ¬ AsTyped (bytes "s w 0 99999999999999999999\n") := by
  let c := writeLock (bytes "15") (by decide) (List.all_eq_true.mp (by decide))
  let d := writeLock (bytes "99999999999999999999") (by decide) (List.all_eq_true.mp (by decide))
  have hshort : Asks (lines (bytes "s w 0 15")) [c.request] := by
    have hlines : lines (bytes "s w 0 15") = [c.line] := by decide
    rw [hlines]
    exact .command c .nil
  have hlong : Asks (lines (bytes "s w 0 99999999999999999999\n")) [d.request] := by
    have hlines : lines (bytes "s w 0 99999999999999999999\n") = [d.line] := by decide
    rw [hlines]
    exact .command d .nil
  refine ⟨⟨by decide, hshort, fun h => absurd h.commands (by decide)⟩, by decide, hlong, ?_⟩
  intro h
  have hlines : lines (bytes "s w 0 99999999999999999999\n") = [d.line] := by decide
  have hcomplete := h.complete [bytes "i_fcntl", bytes "f"] 3 granted (by decide)
  rw [hlines, asks_command] at hcomplete
  obtain ⟨requests, hrequests, -⟩ := hcomplete
  have hsent : (main [bytes "i_fcntl", bytes "f"] 3 granted
      (bytes "s w 0 99999999999999999999\n")).requests =
      [⟨.F_SETLK, ⟨.F_WRLCK, .SEEK_SET, 0, 9223372036854775807⟩⟩] := by decide
  rw [hsent] at hrequests
  exact absurd (List.cons.inj hrequests).1 (by decide)

end UnixProgramming.FcntlLocking
