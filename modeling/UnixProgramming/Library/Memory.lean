import Mathlib.Data.List.Basic
import Mathlib.Data.List.Range

/-! Byte buffers, and the strings that a zero byte ends. -/

namespace UnixProgramming.Library

def store (buf : ℕ → UInt8) (ptr : ℕ) (bs : List UInt8) : ℕ → UInt8 :=
  fun i => if h : ptr ≤ i ∧ i - ptr < bs.length then bs[i - ptr] else buf i

def load (buf : ℕ → UInt8) (n : ℕ) : List UInt8 :=
  (List.range n).map buf

/-- The string in a buffer of `n` bytes, unless no zero byte ends it. -/
def string (buf : ℕ → UInt8) (n : ℕ) : Option (List UInt8) :=
  if 0 ∈ load buf n then some ((load buf n).takeWhile (· ≠ 0)) else none

/-- What `%s` prints of an array, unless no zero byte ends it. -/
def asString (array : List UInt8) : Option (List UInt8) :=
  if 0 ∈ array then some (array.takeWhile (· ≠ 0)) else none

structure Holds (buf : ℕ → UInt8) (l : List UInt8) : Prop where
  bytes : load buf l.length = l
  zero : buf l.length = 0

variable {buf : ℕ → UInt8} {ptr i k n : ℕ} {bs l : List UInt8}

@[simp] lemma load_length : (load buf n).length = n := by
  simp [load]

@[simp] lemma store_nil : store buf ptr [] = buf := by
  funext i
  simp [store]

lemma store_after (h : ptr + bs.length ≤ i) : store buf ptr bs i = buf i :=
  dif_neg (by omega)

lemma store_get (h : i < bs.length) : store buf 0 bs i = bs[i] :=
  dif_pos ⟨Nat.zero_le i, h⟩

lemma load_store : load (store buf ptr bs) (ptr + bs.length) = load buf ptr ++ bs := by
  apply List.ext_getElem
  · simp
  · intro i hi hi'
    by_cases hlt : i < ptr
    · simp [load, store, List.getElem_append_left, hlt, Nat.not_le.mpr hlt]
    · have hin : ptr ≤ i ∧ i - ptr < bs.length := by
        rw [load_length] at hi
        omega
      simp [load, store, List.getElem_append_right, hin]

lemma load_store_first : load (store buf 0 bs) bs.length = bs := by
  have h : load (store buf 0 bs) (0 + bs.length) = load buf 0 ++ bs := load_store
  rwa [Nat.zero_add] at h

lemma load_add : load buf (n + k) = load buf n ++ load (fun i => buf (n + i)) k := by
  rw [load, load, load, List.range_add, List.map_append, List.map_map]
  rfl

lemma string_eq_asString : string buf n = asString (load buf n) :=
  rfl

lemma load_zero : load (fun _ => 0) n = List.replicate n 0 := by
  simp [load]

lemma asString_mem (h : 0 ∈ bs) : asString bs = some (bs.takeWhile (· ≠ 0)) :=
  if_pos h

lemma takeWhile_append_zero : (bs ++ 0 :: l).takeWhile (· ≠ 0) = bs.takeWhile (· ≠ 0) := by
  induction bs with
  | nil => simp
  | cons b bs ih =>
    by_cases hb : b = 0
    · simp [hb]
    · rw [List.cons_append, List.takeWhile_cons_of_pos (by simpa using hb), ih,
        List.takeWhile_cons_of_pos (by simpa using hb)]

lemma asString_padded : asString (bs ++ List.replicate k 0) = some (bs.takeWhile (· ≠ 0)) ↔
    0 < k ∨ 0 ∈ bs := by
  cases k with
  | zero =>
    rw [List.replicate_zero, List.append_nil]
    constructor
    · intro h
      by_contra hn
      rw [asString, if_neg (fun hz => hn (Or.inr hz))] at h
      cases h
    · rintro (h | h)
      · cases h
      · exact asString_mem h
  | succ k =>
    rw [List.replicate_succ, asString_mem (by simp), takeWhile_append_zero]
    exact iff_of_true rfl (Or.inl k.succ_pos)

lemma Holds.string (h : Holds buf l) (hl : 0 ∉ l) (hn : l.length < n) : string buf n = some l := by
  obtain ⟨k, rfl⟩ : ∃ k, n = l.length + (k + 1) := ⟨n - l.length - 1, by omega⟩
  have hload : load buf (l.length + (k + 1)) =
      l ++ 0 :: load (fun i => buf (l.length + (i + 1))) k := by
    rw [load_add, h.bytes, load, List.range_succ_eq_map, List.map_cons, Nat.add_zero, h.zero,
      List.map_map]
    rfl
  rw [Library.string, hload, if_pos (by simp), List.takeWhile_append_of_pos, List.takeWhile_cons]
  · simp
  · intro b hb
    have hne : b ≠ 0 := by
      rintro rfl
      exact hl hb
    simpa using hne

lemma holds_store : Holds (store buf 0 (l ++ [0])) l where
  bytes := by
    apply List.ext_getElem
    · simp
    · intro i hi hi'
      have hin : i < (l ++ [0]).length := by
        rw [List.length_append]
        omega
      simp only [load, List.getElem_map, List.getElem_range, store_get hin,
        List.getElem_append_left hi']
  zero := by
    rw [store_get (by simp)]
    simp

lemma Holds.store (h : Holds buf l) (hlen : bs.length = l.length) :
    Holds (store buf 0 bs) bs where
  bytes := load_store_first
  zero := by rw [store_after (Nat.le_of_eq (Nat.zero_add _)), hlen, h.zero]

end UnixProgramming.Library
