import Mathlib.Data.Stream.Init

/-! Loops that make one call a round, fed with an infinite sequence of outcomes: what
they settle on, and the outcomes whose insertion they do not notice. -/

namespace UnixProgramming.Library

universe u v w

variable {σ : Type u} {ω : Type v} {τ : Type w}

def feed (f : σ → ω → σ) : σ → Stream' ω → ℕ → σ
  | s, _, 0 => s
  | s, k, n + 1 => feed f (f s k.head) k.tail n

def Settles (f : σ → ω → σ) (g : σ → τ) (s : σ) (k : Stream' ω) (a : τ) : Prop :=
  ∃ n, ∀ m, n ≤ m → g (feed f s k m) = a

/-- The sequences that `k` becomes when `i` is inserted finitely often: each mark tells
whether an `i` or the next outcome of `k` follows. -/
def interrupt (i : ω) : List Bool → Stream' ω → Stream' ω
  | [], k => k
  | true :: marks, k => .cons i (interrupt i marks k)
  | false :: marks, k => .cons k.head (interrupt i marks k.tail)

/-- The outcomes before the first one that `skip` does not cover are followed by one in `P`. -/
def Comes (skip P : ω → Prop) (k : Stream' ω) : Prop :=
  ∃ n, (∀ m, m < n → skip (k.get m)) ∧ P (k.get n)

variable {f : σ → ω → σ} {g : σ → τ} {s t : σ} {k : Stream' ω} {a b : τ} {i : ω} {n m : ℕ}
  {I : σ → Prop} {marks : List Bool} {skip P : ω → Prop}

lemma feed_succ : feed f s k (n + 1) = f (feed f s k n) (k.get n) := by
  induction n generalizing s k with
  | zero => rfl
  | succ n ih =>
    have hnext := ih (s := f s k.head) (k := k.tail)
    rwa [Stream'.get_tail] at hnext

lemma feed_fixed (h : ∀ o, f s o = s) : feed f s k n = s := by
  induction n generalizing k with
  | zero => rfl
  | succ n ih => rw [feed, h, ih]

lemma settles_head : Settles f g s k a ↔ Settles f g (f s k.head) k.tail a := by
  constructor
  · rintro ⟨n, h⟩
    exact ⟨n, fun m hm => h (m + 1) (Nat.le_succ_of_le hm)⟩
  · rintro ⟨n, h⟩
    refine ⟨n + 1, fun m hm => ?_⟩
    obtain ⟨m, rfl⟩ : ∃ l, m = l + 1 := ⟨m - 1, by omega⟩
    exact h m (Nat.le_of_succ_le_succ hm)

lemma settles_fixed (h : ∀ o, f s o = s) : Settles f g s k a ↔ g s = a := by
  constructor
  · rintro ⟨n, hn⟩
    simpa only [feed_fixed h] using hn n le_rfl
  · rintro rfl
    exact ⟨0, fun m _ => by rw [feed_fixed h]⟩

lemma Settles.unique (h : Settles f g s k a) (h' : Settles f g s k b) : a = b := by
  obtain ⟨n, hn⟩ := h
  obtain ⟨m, hm⟩ := h'
  exact (hn (max n m) (le_max_left n m)).symm.trans (hm (max n m) (le_max_right n m))

lemma settles_congr (hI : ∀ s o, I s → I (f s o))
    (hf : ∀ s t o, I s → I t → g s = g t → g (f s o) = g (f t o))
    (hs : I s) (ht : I t) (h : g s = g t) : Settles f g s k a ↔ Settles f g t k a := by
  have hfeed : ∀ n, g (feed f s k n) = g (feed f t k n) := by
    intro n
    induction n generalizing s t k with
    | zero => exact h
    | succ n ih => exact ih (hI s _ hs) (hI t _ ht) (hf s t _ hs ht h)
  simp only [Settles, hfeed]

/-- A loop that shows the same after an `i` shows in the end what it shows without. -/
lemma settles_interrupt (hI : ∀ s o, I s → I (f s o))
    (hf : ∀ s t o, I s → I t → g s = g t → g (f s o) = g (f t o))
    (hi : ∀ s, I s → g (f s i) = g s) (hs : I s) :
    Settles f g s (interrupt i marks k) a ↔ Settles f g s k a := by
  induction marks generalizing s k with
  | nil => rfl
  | cons mark marks ih =>
    cases mark with
    | true =>
      have hstay := settles_congr (a := a) (k := k) hI hf (hI s i hs) hs (hi s hs)
      rw [settles_head, interrupt, Stream'.head_cons, Stream'.tail_cons, ih (hI s i hs), hstay]
    | false =>
      rw [settles_head, interrupt, Stream'.head_cons, Stream'.tail_cons, ih (hI s _ hs),
        ← settles_head]

lemma comes_head : Comes skip P k ↔ P k.head ∨ skip k.head ∧ Comes skip P k.tail := by
  constructor
  · rintro ⟨n, hskip, hP⟩
    cases n with
    | zero => exact Or.inl hP
    | succ n =>
      exact Or.inr ⟨hskip 0 n.succ_pos, n, fun m hm => hskip (m + 1) (Nat.succ_lt_succ hm), hP⟩
  · rintro (hP | ⟨hskip, n, hrest, hP⟩)
    · exact ⟨0, fun m hm => absurd hm (Nat.not_lt_zero m), hP⟩
    · refine ⟨n + 1, fun m hm => ?_, hP⟩
      cases m with
      | zero => exact hskip
      | succ m => exact hrest m (Nat.lt_of_succ_lt_succ hm)

end UnixProgramming.Library
