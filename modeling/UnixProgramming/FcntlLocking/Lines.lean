import UnixProgramming.FcntlLocking.Model
import Mathlib.Data.List.TakeWhile

/-! What `i_fcntl_locking.c` makes of the lines of its input. -/

namespace UnixProgramming.FcntlLocking

open Library IFcntl
open LineEcho (fgets fgets_append fgets_length fgets_ne_nil)

def lines : List UInt8 → List (List UInt8)
  | [] => []
  | b :: text =>
    if b = 10 then [] :: lines text
    else
      match lines text with
      | [] => [[b]]
      | line :: rest => (b :: line) :: rest

structure Fits (input : List UInt8) : Prop where
  terminated : ∀ b ∈ input.getLast?, b = 10
  short : ∀ line ∈ lines input, line.length + 1 < MAX_LINE

variable {n : ℕ} {input line rest piece : List UInt8} {ps : List (List UInt8)}
  {replies : ℕ → Reply} {reply : Reply} {s : Session}

lemma fgets_line (hline : 10 ∉ line) (hn : line.length < n) :
    fgets n (line ++ 10 :: rest) = (line ++ [10], rest) := by
  induction line generalizing n with
  | nil =>
    obtain ⟨n, rfl⟩ : ∃ m, n = m + 1 := ⟨n - 1, by omega⟩
    rfl
  | cons b line ih =>
    obtain ⟨n, rfl⟩ : ∃ m, n = m + 1 := ⟨n - 1, by omega⟩
    rw [List.mem_cons, not_or] at hline
    have hrec := ih hline.2 (Nat.lt_of_succ_lt_succ hn)
    simp only [List.cons_append, fgets, if_neg (Ne.symm hline.1), hrec]

lemma pieces_flatten (h : input.length ≤ n) : (pieces n input).flatten = input := by
  induction n generalizing input with
  | zero =>
    rw [List.length_eq_zero_iff.mp (Nat.le_zero.mp h)]
    rfl
  | succ n ih =>
    rw [pieces]
    split_ifs with hnil
    · rw [hnil, List.flatten_nil]
    · have hne : (fgets (MAX_LINE - 1) input).1 ≠ [] := fgets_ne_nil hnil
      have hsplit : (fgets (MAX_LINE - 1) input).1 ++ (fgets (MAX_LINE - 1) input).2 = input :=
        fgets_append
      have hlen := congrArg List.length hsplit
      rw [List.length_append] at hlen
      have hpos := List.length_pos_iff.mpr hne
      rw [List.flatten_cons, ih (by omega), fgets_append]

lemma pieces_bounds (h : piece ∈ pieces n input) : piece ≠ [] ∧ piece.length < MAX_LINE := by
  induction n generalizing input with
  | zero => exact absurd h List.not_mem_nil
  | succ n ih =>
    rw [pieces] at h
    split_ifs at h with hnil
    · exact absurd h List.not_mem_nil
    · rcases List.mem_cons.mp h with rfl | h
      · exact ⟨fgets_ne_nil hnil, Nat.lt_succ_of_le fgets_length⟩
      · exact ih h

lemma trim_eq (h : 0 ∉ piece) : trim piece = piece.dropLast := by
  rw [trim, List.takeWhile_eq_self_iff.mpr]
  intro b hb
  have hne : b ≠ 0 := by
    rintro rfl
    exact h hb
  simpa using hne

lemma lines_line (h : 10 ∉ line) : lines (line ++ 10 :: rest) = line :: lines rest := by
  induction line with
  | nil => rfl
  | cons b line ih =>
    rw [List.mem_cons, not_or] at h
    rw [List.cons_append, lines, if_neg (Ne.symm h.1), ih h.2]

lemma lines_ne_nil (h : input ≠ []) : lines input ≠ [] := by
  cases input with
  | nil => exact absurd rfl h
  | cons b input =>
    rw [lines]
    split_ifs
    · exact List.cons_ne_nil _ _
    · split <;> exact List.cons_ne_nil _ _

lemma lines_length : (lines input).flatten.length + input.count 10 = input.length := by
  induction input with
  | nil => rfl
  | cons b input ih =>
    rw [lines]
    split_ifs with hb
    · subst hb
      rw [List.flatten_cons, List.nil_append, List.count_cons_self, List.length_cons, ← ih,
        Nat.add_assoc]
    · rw [List.count_cons_of_ne hb, List.length_cons, ← ih]
      split
      · next hnil => simp [hnil, Nat.add_comm]
      · next heq =>
        simp only [heq, List.flatten_cons, List.cons_append, List.length_cons]
        omega

lemma terminated_of_lines (h : (lines input).length ≤ input.count 10) :
    ∀ b ∈ input.getLast?, b = 10 := by
  induction input with
  | nil => simp
  | cons c input ih =>
    by_cases hnil : input = []
    · subst hnil
      rw [lines] at h
      split_ifs at h with hc
      · simpa using hc
      · simp [lines, List.count_cons_of_ne hc] at h
    · have hlast : (c :: input).getLast? = input.getLast? := by
        obtain ⟨b, rest, rfl⟩ := List.exists_cons_of_ne_nil hnil
        exact List.getLast?_cons_cons
      rw [hlast]
      apply ih
      rw [lines] at h
      split_ifs at h with hc
      · subst hc
        simpa using h
      · rw [List.count_cons_of_ne hc] at h
        split at h
        · next heq => exact absurd heq (lines_ne_nil hnil)
        · next heq => simpa [heq] using h

lemma fits_line (hline : 10 ∉ line) :
    Fits (line ++ 10 :: rest) ↔ line.length + 1 < MAX_LINE ∧ Fits rest := by
  have hlast : (∀ b ∈ (line ++ 10 :: rest).getLast?, b = 10) ↔ ∀ b ∈ rest.getLast?, b = 10 := by
    cases rest with
    | nil => simp
    | cons c rest => simp [List.getLast?_cons_cons]
  constructor
  · intro h
    have hshort := h.short
    rw [lines_line hline, List.forall_mem_cons] at hshort
    exact ⟨hshort.1, hlast.mp h.terminated, hshort.2⟩
  · rintro ⟨hlen, h⟩
    refine ⟨hlast.mpr h.terminated, ?_⟩
    rw [lines_line hline, List.forall_mem_cons]
    exact ⟨hlen, h.short⟩

lemma Fits.pieces (h : Fits input) (htext : 0 ∉ input) (hn : input.length ≤ n) :
    (pieces n input).map trim = lines input := by
  induction n generalizing input with
  | zero =>
    rw [List.length_eq_zero_iff.mp (Nat.le_zero.mp hn)]
    rfl
  | succ n ih =>
    by_cases hnil : input = []
    · subst hnil
      rfl
    · have hnewline : 10 ∈ input := by
        have hmem := List.getLast_mem hnil
        rwa [h.terminated _ (List.getLast?_eq_getLast_of_ne_nil hnil)] at hmem
      obtain ⟨line, rest, rfl, hline⟩ := List.eq_append_cons_of_mem hnewline
      rw [fits_line hline] at h
      simp only [List.mem_append, List.mem_cons, not_or] at htext
      have hzero : 0 ∉ line ++ [10] := by simp [htext.1]
      have hlen : line.length < MAX_LINE - 1 := Nat.lt_sub_of_add_lt h.1
      have hrest : rest.length ≤ n := by
        rw [List.length_append, List.length_cons] at hn
        omega
      rw [IFcntl.pieces, if_neg hnil, fgets_line hline hlen, List.map_cons, trim_eq hzero,
        List.dropLast_concat, lines_line hline, ih h.2 htext.2.2 hrest]

lemma trims_length (h : ∀ piece ∈ ps, piece ≠ [] ∧ 0 ∉ piece) :
    (ps.map trim).flatten.length + ps.length = ps.flatten.length := by
  induction ps with
  | nil => rfl
  | cons piece ps ih =>
    rw [List.forall_mem_cons] at h
    have hrec := ih h.2
    have hpos := List.length_pos_iff.mpr h.1.1
    simp only [List.map_cons, List.flatten_cons, List.length_append, List.length_cons,
      trim_eq h.1.2, List.length_dropLast]
    omega

theorem commands_iff_fits (htext : 0 ∉ input) :
    (pieces input.length input).map trim = lines input ↔ Fits input := by
  have hzero : ∀ piece ∈ pieces input.length input, 0 ∉ piece := by
    intro piece hp h0
    apply htext
    rw [← pieces_flatten (Nat.le_refl input.length)]
    exact List.mem_flatten_of_mem hp h0
  constructor
  · intro h
    have hsum := trims_length fun piece hp => ⟨(pieces_bounds hp).1, hzero piece hp⟩
    rw [h, pieces_flatten (Nat.le_refl _)] at hsum
    have hlen := congrArg List.length h
    rw [List.length_map] at hlen
    have hbytes : (lines input).flatten.length + input.count 10 = input.length := lines_length
    refine ⟨terminated_of_lines (by omega), ?_⟩
    intro line hline
    rw [← h] at hline
    obtain ⟨piece, hp, rfl⟩ := List.mem_map.mp hline
    have hb := pieces_bounds hp
    have hpos := List.length_pos_iff.mpr hb.1
    rw [trim_eq (hzero piece hp), List.length_dropLast]
    omega
  · intro h
    exact h.pieces htext (Nat.le_refl _)

lemma decode_help (h : line.head? = some 63) : decode line = none := by
  obtain ⟨rest, rfl⟩ : ∃ rest, line = 63 :: rest := by
    cases line with
    | nil => cases h
    | cons b rest =>
      cases h
      exact ⟨rest, rfl⟩
  rw [decode, format, sscanf_char]
  split
  · next heq =>
    rw [← Field.char.inj (List.cons.inj heq).1]
    rfl
  · next heq =>
    rw [← Field.char.inj (List.cons.inj heq).1]
    rfl
  · rfl

lemma execute_requests :
    (execute reply s line).requests = s.requests ++ (decode line).toList := by
  rw [execute]
  split_ifs with hnil hhelp
  · subst hnil
    exact (List.append_nil s.requests).symm
  · rw [decode_help hhelp]
    exact (List.append_nil s.requests).symm
  · cases decode line with
    | none => exact (List.append_nil s.requests).symm
    | some r => rfl

lemma execute_exit (h : s.exit = none) : (execute reply s line).exit = none ∨
    (execute reply s line).exit = some EXIT_FAILURE := by
  rw [execute]
  split_ifs
  · exact .inl h
  · exact .inl h
  · cases decode line with
    | none => exact .inl h
    | some r =>
      simp only [issue]
      split_ifs
      · exact .inr rfl
      · exact .inl h

lemma round_requests (h : s.exit = none) :
    (round replies s piece).requests = s.requests ++ (decode (trim piece)).toList := by
  rw [IFcntl.round, if_pos h, execute_requests]

lemma round_exit (h : s.exit = none) : (round replies s piece).exit = none ∨
    (round replies s piece).exit = some EXIT_FAILURE := by
  rw [IFcntl.round, if_pos h]
  exact execute_exit h

lemma rounds_ended (h : s.exit ≠ none) : ps.foldl (round replies) s = s := by
  induction ps with
  | nil => rfl
  | cons piece ps ih => rw [List.foldl_cons, IFcntl.round, if_neg h, ih]

lemma line_fits (hline : 10 ∉ line) (hlen : line.length + 1 < MAX_LINE) :
    Fits (line ++ [10]) := by
  rw [fits_line hline]
  exact ⟨hlen, by simp, by simp [lines]⟩

lemma loop_requests : (loop replies input s).requests =
    ((pieces input.length input).foldl (IFcntl.round replies) s).requests := by
  rw [loop]
  split_ifs <;> rfl

theorem line_requests (hline : ∀ b ∈ line, b ≠ 0 ∧ b ≠ 10) (hlen : line.length + 1 < MAX_LINE) :
    (loop replies (line ++ [10]) opened).requests = (decode line).toList := by
  have hnewline : 10 ∉ line := fun h => (hline 10 h).2 rfl
  have hzero : 0 ∉ line := fun h => (hline 0 h).1 rfl
  have hpieces := (line_fits hnewline hlen).pieces (by simp [hzero]) (Nat.le_refl _)
  rw [lines_line hnewline] at hpieces
  obtain ⟨piece, ps, hps, htrim, hnil⟩ := List.map_eq_cons_iff.mp hpieces
  rw [lines, List.map_eq_nil_iff] at hnil
  rw [loop_requests, hps, hnil, List.foldl_cons, List.foldl_nil, round_requests rfl, htrim]
  rfl

end UnixProgramming.FcntlLocking
