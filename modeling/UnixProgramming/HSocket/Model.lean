import Mathlib.Tactic

/-! `HSocket.c`: the loops of `WriteN` and `ReadN`, one underlying call at a time. -/

namespace UnixProgramming.HSocket

def EINTR : ℤ := 4

def SSIZE_MAX : ℕ := 2 ^ 63 - 1

/-- The conversions to `size_t` and `ssize_t`, both of 64 bits. -/
def size_t (x : ℤ) : ℤ :=
  x % 2 ^ 64

def ssize_t (x : ℤ) : ℤ :=
  Int.bmod x (2 ^ 64)

lemma size_t_eq {x : ℤ} (h₀ : 0 ≤ x) (hx : x ≤ SSIZE_MAX) : size_t x = x := by
  apply Int.emod_eq_of_lt h₀
  simp only [SSIZE_MAX] at hx
  omega

lemma ssize_t_eq {x : ℤ} (h₀ : 0 ≤ x) (hx : x ≤ SSIZE_MAX) : ssize_t x = x := by
  simp only [SSIZE_MAX] at hx
  simp only [ssize_t, Int.bmod]
  omega

/-- An existing object: none is longer than `SSIZE_MAX`. -/
structure Object where
  bytes : List UInt8
  fits : bytes.length ≤ SSIZE_MAX
  deriving DecidableEq

def Object.size (o : Object) : ℕ :=
  o.bytes.length

inductive Flow (σ : Type)
  | next (call : σ)
  | stop (call : σ)
  | ret (value : ℤ)

structure WriteN where
  vptr : Object
  sz : ℕ
  ptr : ℕ
  nleft : ℤ

namespace WriteN

def call (vptr : Object) (sz : ℕ) : WriteN where
  vptr := vptr
  sz := sz
  ptr := 0
  nleft := sz

def guard (c : WriteN) : Prop :=
  c.nleft > 0

instance (c : WriteN) : Decidable c.guard :=
  inferInstanceAs (Decidable (_ > _))

def request (c : WriteN) : List UInt8 :=
  (c.vptr.bytes.drop c.ptr).take c.nleft.toNat

def advance (c : WriteN) (nwritten : ℤ) : WriteN :=
  { c with nleft := size_t (c.nleft - nwritten), ptr := c.ptr + nwritten.toNat }

def body (c : WriteN) (nwritten errno : ℤ) : Flow WriteN :=
  if nwritten ≤ 0 then
    if nwritten < 0 ∧ errno = EINTR then .next (c.advance 0) else .ret (-1)
  else .next (c.advance nwritten)

def result (c : WriteN) : ℤ :=
  ssize_t c.sz

structure Sound (c : WriteN) : Prop where
  size : c.sz = c.vptr.size
  le : c.ptr ≤ c.vptr.size
  left : c.nleft = c.vptr.size - c.ptr

variable {c : WriteN} {nwritten : ℤ}

lemma call_sound (vptr : Object) : (call vptr vptr.size).Sound :=
  ⟨rfl, Nat.zero_le _, by simp [call]⟩

lemma Sound.request_eq (h : c.Sound) : c.request = c.vptr.bytes.drop c.ptr := by
  apply List.take_of_length_le
  rw [List.length_drop, h.left, Object.size]
  omega

lemma Sound.request_length (h : c.Sound) : (c.request.length : ℤ) = c.nleft := by
  have hle := h.le
  rw [h.request_eq, List.length_drop, h.left, Object.size] at *
  omega

lemma Sound.advance (h : c.Sound) (h₀ : 0 ≤ nwritten) (hle : nwritten ≤ c.nleft) :
    (c.advance nwritten).Sound := by
  have hleft := h.left
  have hfits := c.vptr.fits
  change c.vptr.size ≤ SSIZE_MAX at hfits
  have hsize : size_t (c.nleft - nwritten) = c.nleft - nwritten :=
    size_t_eq (by omega) (by omega)
  refine ⟨h.size, ?_, ?_⟩
  · change c.ptr + nwritten.toNat ≤ c.vptr.size
    omega
  · change size_t (c.nleft - nwritten) = c.vptr.size - ((c.ptr + nwritten.toNat : ℕ) : ℤ)
    omega

lemma Sound.finished (h : c.Sound) (hg : ¬ c.guard) : c.ptr = c.vptr.size := by
  have hle := h.le
  have hleft := h.left
  simp only [guard] at hg
  omega

lemma Sound.result_eq (h : c.Sound) : c.result = c.vptr.size := by
  rw [result, h.size]
  exact ssize_t_eq (Int.natCast_nonneg _) (by exact_mod_cast c.vptr.fits)

end WriteN

-- The memory behind `vptr` is a state of its own.
structure ReadN where
  sz : ℕ
  ptr : ℕ
  nleft : ℤ

namespace ReadN

def call (sz : ℕ) : ReadN where
  sz := sz
  ptr := 0
  nleft := ssize_t sz

def guard (c : ReadN) : Prop :=
  c.nleft > 0

instance (c : ReadN) : Decidable c.guard :=
  inferInstanceAs (Decidable (_ > _))

def request (c : ReadN) : ℤ :=
  size_t c.nleft

def advance (c : ReadN) (nread : ℤ) : ReadN :=
  { c with nleft := c.nleft - nread, ptr := c.ptr + nread.toNat }

def body (c : ReadN) (nread errno : ℤ) : Flow ReadN :=
  if nread < 0 then
    if errno = EINTR then .next c else .ret (-1)
  else if nread = 0 then .stop c
  else .next (c.advance nread)

def result (c : ReadN) : ℤ :=
  ssize_t (size_t (c.sz - c.nleft))

structure Sound (c : ReadN) : Prop where
  fits : c.sz ≤ SSIZE_MAX
  le : c.ptr ≤ c.sz
  left : c.nleft = c.sz - c.ptr

variable {c : ReadN} {nread : ℤ}

lemma call_sound {sz : ℕ} (h : sz ≤ SSIZE_MAX) : (call sz).Sound where
  fits := h
  le := Nat.zero_le _
  left := by simpa [call] using ssize_t_eq (Int.natCast_nonneg sz) (by exact_mod_cast h)

lemma Sound.request_eq (h : c.Sound) : c.request = c.nleft := by
  have hle := h.le
  have hfits := h.fits
  have hleft := h.left
  exact size_t_eq (by omega) (by omega)

lemma Sound.advance (h : c.Sound) (h₀ : 0 ≤ nread) (hle : nread ≤ c.nleft) :
    (c.advance nread).Sound := by
  have hleft := h.left
  refine ⟨h.fits, ?_, ?_⟩
  · change c.ptr + nread.toNat ≤ c.sz
    omega
  · change c.nleft - nread = c.sz - ((c.ptr + nread.toNat : ℕ) : ℤ)
    omega

lemma Sound.finished (h : c.Sound) (hg : ¬ c.guard) : c.ptr = c.sz := by
  have hle := h.le
  have hleft := h.left
  simp only [guard] at hg
  omega

lemma Sound.result_eq (h : c.Sound) : c.result = c.ptr := by
  have hle := h.le
  have hfits := h.fits
  have hleft := h.left
  have hread : (c.sz : ℤ) - c.nleft = c.ptr := by omega
  have hmax : (c.ptr : ℤ) ≤ SSIZE_MAX := by omega
  rw [result, hread, size_t_eq (Int.natCast_nonneg _) hmax,
    ssize_t_eq (Int.natCast_nonneg _) hmax]

end ReadN

end UnixProgramming.HSocket
