import UnixProgramming.Library.Memory
import Mathlib.Tactic

/-! Streams that are put together from counted pieces of one string object. -/

namespace UnixProgramming.Library

/-- The first `count` bytes at an object that holds `text` and its terminating zero, with
`beyond` the memory after it. -/
def piece (text : List UInt8) (beyond : ℕ → UInt8) (count : ℕ) : List UInt8 :=
  load (store beyond 0 (text ++ [0])) count

def Fits (text : List UInt8) (count : ℕ) : Prop :=
  count = text.length ∨ count = text.length + 1

instance (text : List UInt8) (count : ℕ) : Decidable (Fits text count) :=
  inferInstanceAs (Decidable (_ ∨ _))

/-- What passes over a connection: the bytes that one call receives, and the count that one
call sends of the text. -/
inductive Traffic
  | chunk (bytes : List UInt8)
  | copy (count : ℕ)
  deriving DecidableEq, Repr

def copied (es : List Traffic) : List ℕ :=
  es.filterMap fun
    | .chunk _ => none
    | .copy count => some count

def Owing (es : List Traffic) : Prop :=
  ∃ pre bytes, bytes ≠ [] ∧ es = pre ++ [.chunk bytes]

/-- Each copy comes right after a chunk that is not empty, so no two copies answer one. -/
def Answered (es : List Traffic) : Prop :=
  ∀ pre c post, es = pre ++ .copy c :: post → Owing pre

structure Whole (text : List UInt8) (beyond : ℕ → UInt8) (es : List Traffic) : Prop where
  inside : ∀ c ∈ copied es, c ≤ text.length + 1
  copies : ∃ copies : List (List UInt8), (∀ b ∈ copies, b = text ∨ b = text ++ [0]) ∧
    copies.length = (copied es).length ∧ (copied es).flatMap (piece text beyond) = copies.flatten
  answers : Answered es

/-- The traffic of each connection, with what a step adds to it. -/
def carry (x : ℕ → List Traffic) (n : Option ℕ) (a : Option Traffic) : ℕ → List Traffic :=
  match n, a with
  | some n, some a => Function.update x n (x n ++ [a])
  | _, _ => x

/-- A connection that is owed an answer has sent the last chunk. -/
structure Conversed (owed : ℕ → Prop) (x : ℕ → List Traffic) : Prop where
  answered : ∀ n, Answered (x n)
  owing : ∀ n, owed n → Owing (x n)

variable {text line bytes : List UInt8} {beyond : ℕ → UInt8} {counts : List ℕ} {c n : ℕ} {b : UInt8}
  {es : List Traffic} {x : ℕ → List Traffic} {a : Option Traffic} {owed owed' : ℕ → Prop}

section Answers

lemma mem_copied : c ∈ copied es ↔ .copy c ∈ es := by
  simp only [copied, List.mem_filterMap]
  constructor
  · rintro ⟨a, ha, hc⟩
    cases a with
    | chunk bytes => cases hc
    | copy count => exact Option.some.inj hc ▸ ha
  · exact fun h => ⟨_, h, rfl⟩

lemma answered_nil : Answered [] := by
  intro pre c post h
  simp at h

lemma Answered.append {a : Traffic} (h : Answered es) (ha : ∀ c, a = .copy c → Owing es) :
    Answered (es ++ [a]) := by
  intro pre c post he
  rcases List.eq_nil_or_concat post with rfl | ⟨post', d, rfl⟩
  · obtain ⟨rfl, hc⟩ := List.append_inj' he rfl
    exact ha c (List.singleton_inj.mp hc)
  · rw [List.concat_eq_append, ← List.cons_append, ← List.append_assoc] at he
    exact h pre c post' (List.append_inj' he rfl).1

@[simp] lemma carry_none : carry x (some n) none = x := rfl

@[simp] lemma carry_nobody : carry x none a = x := by
  cases a <;> rfl

@[simp] lemma carry_some {a : Traffic} :
    carry x (some n) (some a) = Function.update x n (x n ++ [a]) := rfl

lemma conversed_nil (h : ∀ n, ¬ owed n) : Conversed owed fun _ => [] where
  answered _ := answered_nil
  owing n hn := absurd hn (h n)

lemma Conversed.mono (h : Conversed owed x) (ho : ∀ n, owed' n → owed n) : Conversed owed' x where
  answered := h.answered
  owing n hn := h.owing n (ho n hn)

lemma Conversed.chunk (h : Conversed owed x) (hb : bytes ≠ [])
    (ho : ∀ m, m ≠ n → owed' m → owed m) :
    Conversed owed' (Function.update x n (x n ++ [.chunk bytes])) := by
  constructor
  · intro m
    by_cases hm : m = n
    · subst hm
      rw [Function.update_self]
      exact (h.answered m).append fun c hc => by cases hc
    · rw [Function.update_of_ne hm]
      exact h.answered m
  · intro m hw
    by_cases hm : m = n
    · subst hm
      rw [Function.update_self]
      exact ⟨_, bytes, hb, rfl⟩
    · rw [Function.update_of_ne hm]
      exact h.owing m (ho m hm hw)

lemma Conversed.copy (h : Conversed owed x) (hn : owed n) (hn' : ¬ owed' n)
    (ho : ∀ m, m ≠ n → owed' m → owed m) :
    Conversed owed' (Function.update x n (x n ++ [.copy c])) := by
  constructor
  · intro m
    by_cases hm : m = n
    · subst hm
      rw [Function.update_self]
      exact (h.answered m).append fun _ _ => h.owing m hn
    · rw [Function.update_of_ne hm]
      exact h.answered m
  · intro m hw
    by_cases hm : m = n
    · subst hm
      exact absurd hw hn'
    · rw [Function.update_of_ne hm]
      exact h.owing m (ho m hm hw)

end Answers

lemma piece_inside (h : c ≤ text.length + 1) : piece text beyond c = (text ++ [0]).take c := by
  apply List.ext_getElem
  · simp [piece, h]
  · intro i hi hi'
    have hin : i < (text ++ [0]).length := by
      rw [List.length_take] at hi'
      omega
    simp only [piece, load, List.getElem_map, List.getElem_range, store_get hin,
      List.getElem_take]

lemma piece_fits (h : Fits text c) :
    piece text beyond c = text ∨ piece text beyond c = text ++ [0] := by
  rcases h with rfl | rfl
  · rw [piece_inside (Nat.le_succ _), List.take_left]
    exact Or.inl rfl
  · rw [piece_inside le_rfl, List.take_of_length_le (by simp)]
    exact Or.inr rfl

lemma fits_whole (h : ∀ c ∈ copied es, Fits text c) (ha : Answered es) : Whole text beyond es where
  inside c hc := by
    rcases h c hc with rfl | rfl
    · exact Nat.le_succ _
    · exact le_rfl
  copies := by
    refine ⟨(copied es).map (piece text beyond), fun b hb => ?_, List.length_map _, ?_⟩
    · obtain ⟨c, hc, rfl⟩ := List.mem_map.mp hb
      exact piece_fits (h c hc)
    · exact List.flatMap_def
  answers := ha

section Marks

lemma count_text (hb : b ∉ line) : (line ++ [b]).count b = 1 := by
  rw [List.count_append, List.count_eq_zero_of_not_mem hb, List.count_singleton_self]

lemma count_copies (hb : b ∉ line) (h₀ : b ≠ 0) {copies : List (List UInt8)}
    (h : ∀ a ∈ copies, a = line ++ [b] ∨ a = line ++ [b] ++ [0]) :
    copies.flatten.count b = copies.length := by
  induction copies with
  | nil => rfl
  | cons a copies ih =>
    have hone : a.count b = 1 := by
      rcases h a List.mem_cons_self with rfl | rfl
      · exact count_text hb
      · rw [List.count_append, count_text hb, List.count_singleton, if_neg (by simpa using h₀.symm)]
    rw [List.flatten_cons, List.count_append, hone, ih fun a ha => h a (List.mem_cons_of_mem _ ha),
      List.length_cons, Nat.add_comm]

lemma count_piece (hb : b ∉ line) (h₀ : b ≠ 0) (hc : c ≤ (line ++ [b]).length + 1) :
    (piece (line ++ [b]) beyond c).count b ≤ 1 := by
  have hall : (line ++ [b] ++ [0]).count b = 1 := by
    rw [List.count_append, count_text hb, List.count_singleton, if_neg (by simpa using h₀.symm)]
  rw [piece_inside hc, ← hall]
  exact (List.take_sublist c _).count_le b

lemma count_short (hb : b ∉ line) (hc : c < (line ++ [b]).length) :
    (piece (line ++ [b]) beyond c).count b = 0 := by
  have hle : c ≤ line.length := by
    rw [List.length_append, List.length_singleton] at hc
    omega
  rw [piece_inside (by omega), List.append_assoc, List.take_append_of_le_length hle]
  exact List.count_eq_zero_of_not_mem fun h => hb (List.mem_of_mem_take h)

lemma count_pieces_le {f : ℕ → List UInt8} (h : ∀ c ∈ counts, (f c).count b ≤ 1) :
    (counts.flatMap f).count b ≤ counts.length := by
  induction counts with
  | nil => exact le_rfl
  | cons c counts ih =>
    have hone := h c List.mem_cons_self
    have hrest := ih fun c hc => h c (List.mem_cons_of_mem _ hc)
    rw [List.flatMap_cons, List.count_append, List.length_cons]
    omega

lemma count_pieces_eq {f : ℕ → List UInt8} (h : ∀ c ∈ counts, (f c).count b ≤ 1)
    (heq : (counts.flatMap f).count b = counts.length) : ∀ c ∈ counts, (f c).count b = 1 := by
  induction counts with
  | nil => exact nofun
  | cons c counts ih =>
    have hone := h c List.mem_cons_self
    have hrest := count_pieces_le fun c hc => h c (List.mem_cons_of_mem _ hc)
    rw [List.flatMap_cons, List.count_append, List.length_cons] at heq
    intro d hd
    rcases List.mem_cons.mp hd with rfl | hd
    · omega
    · exact ih (fun c hc => h c (List.mem_cons_of_mem _ hc)) (by omega) d hd

end Marks

/-- A text whose last character occurs once comes out in whole copies when each piece is
the text, with or without its zero. -/
theorem whole_iff (hb : b ∉ line) (h₀ : b ≠ 0) :
    Whole (line ++ [b]) beyond es ↔ (∀ c ∈ copied es, Fits (line ++ [b]) c) ∧ Answered es := by
  constructor
  · rintro ⟨hin, ⟨copies, hcopies, hlen, heq⟩, ha⟩
    refine ⟨?_, ha⟩
    have hle : ∀ c ∈ copied es, (piece (line ++ [b]) beyond c).count b ≤ 1 :=
      fun c hc => count_piece hb h₀ (hin c hc)
    have hcount : ((copied es).flatMap (piece (line ++ [b]) beyond)).count b =
        (copied es).length := by
      rw [heq, count_copies hb h₀ hcopies, hlen]
    intro c hc
    have hone := count_pieces_eq hle hcount c hc
    have hbound := hin c hc
    by_contra hfit
    have hshort : c < (line ++ [b]).length := by
      simp only [Fits] at hfit
      omega
    rw [count_short hb hshort] at hone
    cases hone
  · rintro ⟨h, ha⟩
    exact fits_whole h ha

lemma mem_update_append {ι α : Type*} [DecidableEq ι] {x : ι → List α} {m n : ι} {a c : α} :
    c ∈ Function.update x m (x m ++ [a]) n ↔ c ∈ x n ∨ n = m ∧ c = a := by
  by_cases h : n = m
  · subst h
    simp
  · simp [h]

lemma mem_carry {m : Option ℕ} (h : .copy c ∈ carry x m a n) :
    .copy c ∈ x n ∨ a = some (.copy c) := by
  cases m with
  | none =>
    rw [carry_nobody] at h
    exact Or.inl h
  | some m =>
    cases a with
    | none => exact Or.inl h
    | some a =>
      rw [carry_some, mem_update_append] at h
      exact h.imp_right fun hc => by rw [hc.2]

end UnixProgramming.Library
