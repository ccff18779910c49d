import UnixProgramming.Library.Refinement
import Mathlib.Tactic

/-! A server with a fixed number of seats. The clients that find no seat free are lost, and
the others take turns with the server until they leave. -/

namespace UnixProgramming.Library

open Transition

inductive Standing
  | absent
  | awaiting
  | answering
  | gone
  | lost
  deriving DecidableEq, Repr

def Standing.seated : Standing → Bool
  | .awaiting | .answering => true
  | .absent | .gone | .lost => false

/-- The clients are numbered in the order in which they enter. -/
@[ext] structure Multiplexer where
  entered : ℕ
  standing : ℕ → Standing
  absent : ∀ n, entered ≤ n → standing n = .absent

namespace Multiplexer

inductive Event
  | enter
  | request (n : ℕ)
  | answer (n : ℕ)
  | leave (n : ℕ)
  deriving DecidableEq, Repr

def empty : Multiplexer where
  entered := 0
  standing _ := .absent
  absent _ _ := rfl

def seated (s : Multiplexer) : Finset ℕ :=
  (Finset.range s.entered).filter fun n => (s.standing n).seated = true

def enter (s : Multiplexer) (capacity : ℕ) : Multiplexer where
  entered := s.entered + 1
  standing := Function.update s.standing s.entered
    (if s.seated.card < capacity then .awaiting else .lost)
  absent n hn := by
    rw [Function.update_of_ne (by omega)]
    exact s.absent n (by omega)

def move (s : Multiplexer) (n : ℕ) (a b : Standing) : Option Multiplexer :=
  if h : n < s.entered ∧ s.standing n = a then
    some { s with
      standing := Function.update s.standing n b
      absent := fun m hm => by
        rw [Function.update_of_ne (by omega)]
        exact s.absent m hm }
  else none

def act (capacity : ℕ) (s : Multiplexer) : Event → Option Multiplexer
  | .enter => some (s.enter capacity)
  | .request n => s.move n .awaiting .answering
  | .answer n => s.move n .answering .awaiting
  | .leave n => s.move n .awaiting .gone

def system (capacity : ℕ) : System Multiplexer Event where
  initial s := s = empty
  step := act capacity

def Event.about (n : ℕ) : Event → Bool
  | .enter => false
  | .request m | .answer m | .leave m => m = n

def word (n : ℕ) (es : List Event) : List Event :=
  es.filter (Event.about n)

def rounds (n k : ℕ) : List Event :=
  (List.replicate k [.request n, .answer n]).flatten

def Spoken (n : ℕ) (es : List Event) : Standing → Prop
  | .absent | .lost => word n es = []
  | .awaiting => ∃ k, word n es = rounds n k
  | .answering => ∃ k, word n es = rounds n k ++ [.request n]
  | .gone => ∃ k, word n es = rounds n k ++ [.leave n]

variable {s s' : Multiplexer} {n m c : ℕ} {a b : Standing} {e : Event} {es : List Event}

lemma mem_seated : n ∈ s.seated ↔ (s.standing n).seated = true := by
  simp only [seated, Finset.mem_filter, Finset.mem_range, and_iff_right_iff_imp]
  intro hn
  by_contra hlt
  rw [s.absent n (by omega)] at hn
  cases hn

lemma move_eq_some : s.move n a b = some s' ↔ (n < s.entered ∧ s.standing n = a) ∧
    s'.entered = s.entered ∧ s'.standing = Function.update s.standing n b := by
  simp only [move]
  constructor
  · intro h
    split_ifs at h with hn
    obtain rfl := Option.some.inj h
    exact ⟨hn, rfl, rfl⟩
  · rintro ⟨hn, he, hs⟩
    rw [dif_pos hn]
    exact congrArg some (Multiplexer.ext he.symm hs.symm)

lemma exists_move (ha : a ≠ .absent) (hs : s.standing n = a) : ∃ s', s.move n a b = some s' := by
  have hn : n < s.entered := by
    by_contra hlt
    exact ha (hs.symm.trans (s.absent n (by omega)))
  exact ⟨_, dif_pos ⟨hn, hs⟩⟩

section Words

lemma word_append_ne (h : e.about n = false) : word n (es ++ [e]) = word n es := by
  simp [word, h]

lemma word_append_self (h : e.about n = true) : word n (es ++ [e]) = word n es ++ [e] := by
  simp [word, h]

lemma rounds_succ {k : ℕ} : rounds n (k + 1) = rounds n k ++ [.request n, .answer n] := by
  simp [rounds, List.replicate_succ']

lemma Spoken.other (h : Spoken n es a) (he : e.about n = false) : Spoken n (es ++ [e]) a := by
  cases a with
  | absent | lost | awaiting | answering | gone => simpa only [Spoken, word_append_ne he] using h

lemma move_spoken (h : Spoken n es (s.standing n)) (hm : s.move m a b = some s')
    (he : e.about n = decide (m = n)) (hself : m = n → Spoken n es a → Spoken n (es ++ [e]) b) :
    Spoken n (es ++ [e]) (s'.standing n) := by
  obtain ⟨⟨-, ha⟩, -, hs'⟩ := move_eq_some.mp hm
  by_cases hn : m = n
  · subst hn
    rw [hs', Function.update_self]
    rw [ha] at h
    exact hself rfl h
  · rw [hs', Function.update_of_ne (Ne.symm hn)]
    exact h.other (by simp [he, hn])

lemma enter_spoken (h : Spoken n es (s.standing n)) :
    Spoken n (es ++ [.enter]) ((s.enter c).standing n) := by
  by_cases hn : n = s.entered
  · subst hn
    rw [s.absent _ le_rfl] at h
    have hnil : word s.entered (es ++ [.enter]) = [] := (word_append_ne rfl).trans h
    by_cases hc : s.seated.card < c
    · simpa [enter, hc, Spoken] using ⟨0, hnil⟩
    · simpa [enter, hc, Spoken] using hnil
  · have hs : (s.enter c).standing n = s.standing n := Function.update_of_ne hn _ _
    rw [hs]
    exact h.other rfl

lemma step_spoken (h : Spoken n es (s.standing n)) (he : act c s e = some s') :
    Spoken n (es ++ [e]) (s'.standing n) := by
  cases e with
  | enter =>
    obtain rfl := Option.some.inj he
    exact enter_spoken h
  | request m =>
    apply move_spoken h he rfl
    rintro rfl ⟨k, hk⟩
    exact ⟨k, by rw [word_append_self (by simp [Event.about]), hk]⟩
  | answer m =>
    apply move_spoken h he rfl
    rintro rfl ⟨k, hk⟩
    exact ⟨k + 1, by rw [word_append_self (by simp [Event.about]), hk, rounds_succ,
      List.append_assoc, List.singleton_append]⟩
  | leave m =>
    apply move_spoken h he rfl
    rintro rfl ⟨k, hk⟩
    exact ⟨k, by rw [word_append_self (by simp [Event.about]), hk]⟩

lemma run_spoken (n : ℕ) (h : (system c).Run empty es s) : Spoken n es (s.standing n) := by
  induction es using List.reverseRecOn generalizing s with
  | nil =>
    cases h
    rfl
  | append_singleton es e ih =>
    obtain ⟨u, hu, he⟩ := System.run_concat.mp h
    exact step_spoken (ih hu) he

end Words

end Multiplexer

end UnixProgramming.Library
