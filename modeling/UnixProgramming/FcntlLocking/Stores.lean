import UnixProgramming.FcntlLocking.Lines

/-! The byte of `line` that `i_fcntl_locking.c` overwrites after each call of `fgets`. -/

namespace UnixProgramming.FcntlLocking

open Library IFcntl
open LineEcho (fgets fgets_append fgets_length fgets_ne_nil)

/-- No zero byte stands where a piece of the line can begin. -/
def Unmarked (text : List UInt8) : Prop :=
  ∀ i, MAX_LINE - 1 ∣ i → text[i]? ≠ some 0

variable {n : ℕ} {input line text rest piece : List UInt8} {ps ls : List (List UInt8)}
  {replies : ℕ → Reply} {reply : Reply} {s : Session} {k : ℤ}

lemma fgets_cut (h : 10 ∉ (fgets n input).1) :
    (fgets n input).1 = input.take n ∧ (fgets n input).2 = input.drop n := by
  induction n generalizing input with
  | zero => exact ⟨rfl, rfl⟩
  | succ n ih =>
    cases input with
    | nil => exact ⟨rfl, rfl⟩
    | cons b input =>
      simp only [fgets] at h ⊢
      split_ifs at h ⊢ with hb
      · exact absurd (List.mem_singleton.mpr hb.symm) h
      · rw [List.mem_cons, not_or] at h
        obtain ⟨htake, hdrop⟩ := ih h.2
        exact ⟨congrArg (b :: ·) htake, hdrop⟩

lemma lines_last (h : 10 ∉ line) (hne : line ≠ []) : lines line = [line] := by
  induction line with
  | nil => exact absurd rfl hne
  | cons b line ih =>
    rw [List.mem_cons, not_or] at h
    rw [lines, if_neg (Ne.symm h.1)]
    by_cases hnil : line = []
    · subst hnil
      rfl
    · rw [ih h.2 hnil]

lemma lines_append (h : 10 ∉ piece) (hrest : lines rest = line :: ls) :
    lines (piece ++ rest) = (piece ++ line) :: ls := by
  induction piece with
  | nil => exact hrest
  | cons b piece ih =>
    rw [List.mem_cons, not_or] at h
    rw [List.cons_append, lines, if_neg (Ne.symm h.1), ih h.2]
    rfl

lemma unmarked_short (h : text.length < MAX_LINE) : Unmarked text ↔ text.head? ≠ some 0 := by
  rw [List.head?_eq_getElem?]
  constructor
  · intro hu
    exact hu 0 (dvd_zero _)
  · rintro hhead i ⟨j, rfl⟩
    cases j with
    | zero => exact hhead
    | succ j =>
      have hout : text.length ≤ (MAX_LINE - 1) * (j + 1) := by
        simp only [MAX_LINE] at h ⊢
        omega
      rw [List.getElem?_eq_none hout]
      exact Option.some_ne_none 0 |>.symm

lemma unmarked_append (h : piece.length = MAX_LINE - 1) :
    Unmarked (piece ++ text) ↔ piece.head? ≠ some 0 ∧ Unmarked text := by
  have hfirst : (piece ++ text)[0]? = piece.head? := by
    rw [List.getElem?_append_left (by rw [h]; decide), List.head?_eq_getElem?]
  have hlater : ∀ i, (piece ++ text)[MAX_LINE - 1 + i]? = text[i]? := by
    intro i
    rw [← h, List.getElem?_append_right (Nat.le_add_right _ _), Nat.add_sub_cancel_left]
  constructor
  · intro hu
    refine ⟨?_, fun i hi => ?_⟩
    · rw [← hfirst]
      exact hu 0 (dvd_zero _)
    · rw [← hlater]
      exact hu _ ((Nat.dvd_add_right dvd_rfl).mpr hi)
  · rintro ⟨hhead, hu⟩ i ⟨j, rfl⟩
    cases j with
    | zero =>
      rw [Nat.mul_zero, hfirst]
      exact hhead
    | succ j =>
      rw [Nat.mul_succ, Nat.add_comm, hlater]
      exact hu _ (Nat.dvd_mul_right _ _)

lemma heads_line (hline : 10 ∉ line) (hlen : line.length < MAX_LINE) :
    (line ++ [10]).head? ≠ some 0 ↔ Unmarked line := by
  rw [unmarked_short hlen]
  cases line with
  | nil => decide
  | cons b line => rfl

lemma fgets_newline (h : 10 ∈ (fgets n input).1) :
    ∃ line rest, input = line ++ 10 :: rest ∧ 10 ∉ line ∧ line.length < n := by
  obtain ⟨line, tail, htail, hline⟩ := List.eq_append_cons_of_mem h
  have hsplit : (fgets n input).1 ++ (fgets n input).2 = input := fgets_append
  have hlen : (fgets n input).1.length ≤ n := fgets_length
  rw [htail] at hsplit hlen
  rw [List.length_append, List.length_cons] at hlen
  refine ⟨line, tail ++ (fgets n input).2, ?_, hline, by omega⟩
  rw [← List.cons_append, ← List.append_assoc, hsplit]

/-- A piece without newline is the whole of the last line, or as long as `line` allows. -/
lemma unmarked_cut (hnil : input ≠ []) (hnewline : 10 ∉ (fgets (MAX_LINE - 1) input).1) :
    (∀ line ∈ lines input, Unmarked line) ↔ (fgets (MAX_LINE - 1) input).1.head? ≠ some 0 ∧
      ∀ line ∈ lines (fgets (MAX_LINE - 1) input).2, Unmarked line := by
  obtain ⟨htake, hdrop⟩ := fgets_cut hnewline
  have hsplit : (fgets (MAX_LINE - 1) input).1 ++ (fgets (MAX_LINE - 1) input).2 = input :=
    fgets_append
  by_cases hend : (fgets (MAX_LINE - 1) input).2 = []
  · have hwhole : (fgets (MAX_LINE - 1) input).1 = input := by
      rwa [hend, List.append_nil] at hsplit
    have hlen : input.length < MAX_LINE := by
      have hle : (fgets (MAX_LINE - 1) input).1.length ≤ MAX_LINE - 1 := fgets_length
      rw [hwhole] at hle
      exact Nat.lt_succ_of_le hle
    rw [hwhole] at hnewline
    rw [hend, hwhole, lines_last hnewline hnil, List.forall_mem_singleton, unmarked_short hlen]
    simp [lines]
  · obtain ⟨line, ls, hls⟩ := List.exists_cons_of_ne_nil (lines_ne_nil hend)
    have hlen : (fgets (MAX_LINE - 1) input).1.length = MAX_LINE - 1 := by
      rw [htake, List.length_take]
      rw [hdrop, List.drop_eq_nil_iff, Nat.not_le] at hend
      exact Nat.min_eq_left hend.le
    have hlines := lines_append hnewline hls
    rw [hsplit] at hlines
    rw [hlines, hls, List.forall_mem_cons, List.forall_mem_cons, unmarked_append hlen, and_assoc]

theorem heads_iff_unmarked (h : input.length ≤ n) :
    (∀ piece ∈ pieces n input, piece.head? ≠ some 0) ↔ ∀ line ∈ lines input, Unmarked line := by
  induction n generalizing input with
  | zero =>
    rw [List.length_eq_zero_iff.mp (Nat.le_zero.mp h)]
    simp [pieces, lines]
  | succ n ih =>
    rw [pieces]
    split_ifs with hnil
    · simp [hnil, lines]
    have hrest : (fgets (MAX_LINE - 1) input).2.length ≤ n := by
      have hsplit : (fgets (MAX_LINE - 1) input).1 ++ (fgets (MAX_LINE - 1) input).2 = input :=
        fgets_append
      have hne : (fgets (MAX_LINE - 1) input).1 ≠ [] := fgets_ne_nil hnil
      have hpos := List.length_pos_iff.mpr hne
      have hlen := congrArg List.length hsplit
      rw [List.length_append] at hlen
      omega
    rw [List.forall_mem_cons, ih hrest]
    by_cases hnewline : 10 ∈ (fgets (MAX_LINE - 1) input).1
    · obtain ⟨line, rest, rfl, hline, hlen⟩ := fgets_newline hnewline
      rw [fgets_line hline hlen, lines_line hline, List.forall_mem_cons,
        heads_line hline (Nat.lt_of_lt_pred hlen)]
    · rw [unmarked_cut hnil hnewline]

lemma strlen_pos (h : piece ≠ []) : 0 < strlen piece ↔ piece.head? ≠ some 0 := by
  cases piece with
  | nil => exact absurd rfl h
  | cons b piece =>
    by_cases hb : b = 0
    · simp [strlen, hb]
    · simp [strlen, hb]

def overwritten (piece : List UInt8) : ℤ :=
  strlen piece - 1

lemma overwritten_inside (h : piece ∈ pieces n input) :
    (0 ≤ overwritten piece ∧ overwritten piece ≤ MAX_LINE - 1) ↔ piece.head? ≠ some 0 := by
  obtain ⟨hne, hlen⟩ := pieces_bounds h
  have hle : strlen piece ≤ piece.length := (List.takeWhile_prefix _).length_le
  rw [← strlen_pos hne, overwritten]
  omega

lemma execute_stores : (execute reply s line).stores = s.stores := by
  rw [execute]
  split_ifs
  · rfl
  · rfl
  · cases decode line <;> rfl

lemma rounds_stores (hk : k ∈ (ps.foldl (IFcntl.round replies) s).stores) :
    k ∈ s.stores ∨ ∃ piece ∈ ps, k = overwritten piece := by
  induction ps generalizing s with
  | nil => exact .inl hk
  | cons piece ps ih =>
    rcases ih hk with hk | ⟨piece', hp, rfl⟩
    · rw [IFcntl.round] at hk
      split_ifs at hk
      · rw [execute_stores] at hk
        rcases List.mem_append.mp hk with hk | hk
        · exact .inl hk
        · exact .inr ⟨piece, List.mem_cons_self, List.mem_singleton.mp hk⟩
      · exact .inl hk
    · exact .inr ⟨piece', List.mem_cons_of_mem _ hp, rfl⟩

lemma execute_done (hexit : s.exit = none) (h : ∀ r, fatal r reply = false) :
    (execute reply s line).exit = none := by
  rw [execute]
  split_ifs
  · exact hexit
  · exact hexit
  · cases decode line with
    | none => exact hexit
    | some r => simp [issue, h, hexit]

/-- While no `F_GETLK` fails, every piece is read and overwritten. -/
lemma rounds_done (hexit : s.exit = none) (h : ∀ r k, fatal r (replies k) = false) :
    (ps.foldl (IFcntl.round replies) s).stores = s.stores ++ ps.map overwritten := by
  induction ps generalizing s with
  | nil => exact (List.append_nil _).symm
  | cons piece ps ih =>
    have hround : (IFcntl.round replies s piece).stores = s.stores ++ [overwritten piece] := by
      rw [IFcntl.round, if_pos hexit, execute_stores]
      rfl
    have hnext : (IFcntl.round replies s piece).exit = none := by
      rw [IFcntl.round, if_pos hexit]
      exact execute_done hexit fun r => h r _
    rw [List.foldl_cons, ih hnext, hround, List.map_cons, List.append_assoc]
    rfl

lemma loop_stores : (loop replies input s).stores =
    ((pieces input.length input).foldl (IFcntl.round replies) s).stores := by
  rw [loop]
  split_ifs <;> rfl

theorem stores_inside_iff (input : List UInt8) :
    (∀ argv fd replies, ∀ k ∈ (main argv fd replies input).stores, 0 ≤ k ∧ k ≤ MAX_LINE - 1) ↔
      ∀ line ∈ lines input, Unmarked line := by
  rw [← heads_iff_unmarked (Nat.le_refl input.length)]
  constructor
  · intro h piece hp
    have hdone : ∀ r (k : ℕ), fatal r (.done ⟨.F_UNLCK, .SEEK_SET, 0, 0⟩ 0) = false :=
      fun _ _ => rfl
    have hmem : overwritten piece ∈ (main [[], []] 3
        (fun _ => .done ⟨.F_UNLCK, .SEEK_SET, 0, 0⟩ 0) input).stores := by
      rw [main, if_neg (by decide), if_neg (by decide), loop_stores, rounds_done rfl hdone]
      exact List.mem_append_right _ (List.mem_map_of_mem hp)
    exact (overwritten_inside hp).mp (h _ _ _ _ hmem)
  · intro h argv fd replies k hk
    rw [main] at hk
    split_ifs at hk
    · exact absurd hk List.not_mem_nil
    · exact absurd hk List.not_mem_nil
    · rw [loop_stores] at hk
      rcases rounds_stores hk with hk | ⟨piece, hp, rfl⟩
      · exact absurd hk List.not_mem_nil
      · exact (overwritten_inside hp).mpr (h piece hp)

theorem store_before_line :
    (main [bytes "i_fcntl", bytes "f"] 3 (fun _ => .failed EAGAIN) [0, 10]).stores = [-1] ∧
      ¬ ∀ argv fd replies, ∀ k ∈ (main argv fd replies [0, 10]).stores,
        0 ≤ k ∧ k ≤ MAX_LINE - 1 := by
  have hstores : (main [bytes "i_fcntl", bytes "f"] 3 (fun _ => .failed EAGAIN) [0, 10]).stores =
      [-1] := by decide
  refine ⟨hstores, fun h => ?_⟩
  have hstore := h [bytes "i_fcntl", bytes "f"] 3 (fun _ => .failed EAGAIN) (-1)
    (hstores ▸ List.mem_singleton_self _)
  exact absurd hstore.1 (by decide)

end UnixProgramming.FcntlLocking
