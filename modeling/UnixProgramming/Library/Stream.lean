import Mathlib.Data.List.Basic

/-! Reliable ordered streams: what was read is a prefix of what was written. -/

namespace UnixProgramming.Library

universe u

variable {α : Type u}

@[ext] structure Stream (α : Type u) where
  written : List α
  consumed : ℕ
  closed : Bool
  le : consumed ≤ written.length

namespace Stream

def empty : Stream α where
  written := []
  consumed := 0
  closed := false
  le := Nat.le_refl 0

@[simp] lemma empty_written : (empty : Stream α).written = [] := rfl

@[simp] lemma empty_consumed : (empty : Stream α).consumed = 0 := rfl

def unread (s : Stream α) : List α :=
  s.written.drop s.consumed

def write (s : Stream α) (bs : List α) : Option (Stream α) :=
  if s.closed = false then
    some { s with
      written := s.written ++ bs
      le := by
        rw [List.length_append]
        exact Nat.le_trans s.le (Nat.le_add_right _ _) }
  else none

def read (s : Stream α) (k : ℕ) : Option (List α × Stream α) :=
  if h : 0 < k ∧ k ≤ s.unread.length then
    some (s.unread.take k, { s with
      consumed := s.consumed + k
      le := by
        have hk : k ≤ s.written.length - s.consumed := by simpa [unread] using h.2
        have hle := s.le
        omega })
  else none

def close (s : Stream α) : Stream α :=
  { s with closed := true }

def AtEnd (s : Stream α) : Prop :=
  s.closed = true ∧ s.unread = []

instance [DecidableEq α] (s : Stream α) : Decidable s.AtEnd :=
  inferInstanceAs (Decidable (_ ∧ _))

variable {s t : Stream α} {bs : List α} {k : ℕ}

lemma unread_length : s.unread.length = s.written.length - s.consumed := by
  simp [unread]

lemma write_eq_some : s.write bs = some t ↔
    s.closed = false ∧ t.written = s.written ++ bs ∧ t.consumed = s.consumed ∧
      t.closed = false := by
  simp only [write]
  constructor
  · intro h
    split_ifs at h with hc
    obtain rfl := Option.some.inj h
    exact ⟨hc, rfl, rfl, hc⟩
  · rintro ⟨hc, hw, hk, ht⟩
    rw [if_pos hc]
    exact congrArg some (Stream.ext hw.symm hk.symm (hc.trans ht.symm))

lemma read_eq_some : s.read k = some (bs, t) ↔
    (0 < k ∧ k ≤ s.unread.length) ∧ bs = s.unread.take k ∧ t.written = s.written ∧
      t.consumed = s.consumed + k ∧ t.closed = s.closed := by
  simp only [read]
  constructor
  · intro h
    split_ifs at h with hk
    obtain ⟨rfl, rfl⟩ := Prod.mk.inj (Option.some.inj h)
    exact ⟨hk, rfl, rfl, rfl, rfl⟩
  · rintro ⟨hk, hb, hw, hc, ht⟩
    rw [dif_pos hk]
    exact congrArg some (Prod.ext hb.symm (Stream.ext hw.symm hc.symm ht.symm))

lemma AtEnd.consumed (h : s.AtEnd) : s.consumed = s.written.length := by
  have hlen := congrArg List.length h.2
  rw [unread_length, List.length_nil] at hlen
  exact Nat.le_antisymm s.le (Nat.sub_eq_zero_iff_le.mp hlen)

lemma AtEnd.no_read (h : s.AtEnd) : s.read k = none := by
  apply dif_neg
  rw [h.2, List.length_nil]
  omega

lemma AtEnd.no_write (h : s.AtEnd) : s.write bs = none :=
  if_neg (by simp [h.1])

end Stream

section Frames

/-! Messages laid end to end: where each one begins. -/

def offset : List ℕ → ℕ → ℕ
  | n :: ns, i + 1 => n + offset ns i
  | _, 0 | [], _ + 1 => 0

variable {ns : List ℕ} {ls : List (List α)} {l w : List α} {i k p : ℕ}

@[simp] lemma offset_zero : offset ns 0 = 0 := by
  cases ns <;> rfl

lemma offset_succ (h : ns[i]? = some k) : offset ns (i + 1) = offset ns i + k := by
  induction ns generalizing i with
  | nil => cases h
  | cons n ns ih =>
    cases i with
    | zero =>
      obtain rfl := Option.some.inj h
      simp [offset]
    | succ i =>
      have hrest := ih h
      simp only [offset] at hrest ⊢
      omega

lemma slice_flatten (h : ls[i]? = some l) :
    (ls.flatten.drop (offset (ls.map List.length) i)).take l.length = l := by
  induction ls generalizing i with
  | nil => cases h
  | cons m ls ih =>
    cases i with
    | zero =>
      obtain rfl := Option.some.inj h
      simp
    | succ i =>
      have hskip : (m ++ ls.flatten).drop (m.length + offset (ls.map List.length) i) =
          ls.flatten.drop (offset (ls.map List.length) i) := List.drop_length_add_append _
      rw [List.map_cons, offset, List.flatten_cons, hskip]
      exact ih h

lemma slice_prefix (hw : w <+: ls.flatten) (h : ls[i]? = some l) :
    (w.drop (offset (ls.map List.length) i)).take l.length =
      l.take (w.length - offset (ls.map List.length) i) := by
  rw [List.prefix_iff_eq_take.mp hw, List.drop_take, List.take_take, Nat.min_comm,
    ← List.take_take, slice_flatten h, ← List.prefix_iff_eq_take.mp hw]

lemma take_extend (h : ls[i]? = some l) (hk : p + k ≤ l.length) :
    ls.flatten.take (offset (ls.map List.length) i + p + k) =
      ls.flatten.take (offset (ls.map List.length) i + p) ++ (l.drop p).take k := by
  rw [List.take_add, ← List.drop_drop]
  congr 1
  conv_rhs => rw [← slice_flatten h, List.drop_take, List.take_take]
  rw [Nat.min_eq_left (by omega)]

end Frames

end UnixProgramming.Library
