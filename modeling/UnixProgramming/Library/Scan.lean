import UnixProgramming.Library.Machine
import Mathlib.Tactic
import Mathlib.Data.List.TakeWhile

/-! Decimal numbers in texts, as `strtol`, `atoi` and `sscanf` read them. -/

namespace UnixProgramming.Library

def LLONG_MIN : ℤ :=
  -(2 ^ 63)

def LLONG_MAX : ℤ :=
  2 ^ 63 - 1

def bytes (text : String) : List UInt8 :=
  text.toList.map fun c => c.toNat.toUInt8

/-- In the C locale. -/
def isspace (b : UInt8) : Bool :=
  b = 32 || (9 ≤ b && b ≤ 13)

def isdigit (b : UInt8) : Bool :=
  48 ≤ b && b ≤ 57

inductive Sign
  | none
  | plus
  | minus
  deriving DecidableEq, Repr

def Sign.text : Sign → List UInt8
  | .none => []
  | .plus => bytes "+"
  | .minus => bytes "-"

def Sign.apply : Sign → ℤ → ℤ
  | .none, x | .plus, x => x
  | .minus, x => -x

def sign : List UInt8 → Sign × List UInt8
  | 43 :: s => (.plus, s)
  | 45 :: s => (.minus, s)
  | s => (.none, s)

def digitsValue (ds : List UInt8) : ℤ :=
  ds.foldl (fun v d => 10 * v + (d.toNat - 48)) 0

def clamp (x : ℤ) : ℤ :=
  max LLONG_MIN (min LLONG_MAX x)

/-- The number that begins a text, after white space, and the text after it. -/
def strtol (s : List UInt8) : Option (ℤ × List UInt8) :=
  let (sgn, s) := sign (s.dropWhile isspace)
  if s.takeWhile isdigit = [] then none
  else some (clamp (sgn.apply (digitsValue (s.takeWhile isdigit))), s.dropWhile isdigit)

def atoi (s : List UInt8) : ℤ :=
  int ((strtol s).elim 0 Prod.fst)

/-- The number that begins a text, of any size, and 0 where there is none. -/
def number (s : List UInt8) : ℤ :=
  let (sgn, s) := sign (s.dropWhile isspace)
  sgn.apply (digitsValue (s.takeWhile isdigit))

inductive Directive
  | char
  | space
  | lld
  deriving DecidableEq, Repr

inductive Field
  | char (c : UInt8)
  | lld (x : ℤ)
  deriving DecidableEq, Repr

/-- The fields that `sscanf` has assigned when it returns. -/
def sscanf : List Directive → List UInt8 → List Field
  | [], _ => []
  | .space :: format, s => sscanf format (s.dropWhile isspace)
  | .char :: _, [] => []
  | .char :: format, c :: s => .char c :: sscanf format s
  | .lld :: format, s =>
    (strtol s).elim [] fun r => .lld r.1 :: sscanf format r.2

structure Numeral where
  sign : Sign
  digits : List UInt8
  nonempty : digits ≠ []
  decimal : ∀ d ∈ digits, isdigit d

def Numeral.text (n : Numeral) : List UInt8 :=
  n.sign.text ++ n.digits

def Numeral.value (n : Numeral) : ℤ :=
  n.sign.apply (digitsValue n.digits)

variable {b c : UInt8} {s gap rest : List UInt8} {x : ℤ} {n : Numeral} {format : List Directive}
  {fields : List Field}

def Halts (p : UInt8 → Bool) (s : List UInt8) : Prop :=
  ∀ b ∈ s.head?, p b = false

lemma isspace_of_isdigit (h : isdigit b) : isspace b = false := by
  simp only [isdigit, isspace, Bool.and_eq_true, decide_eq_true_eq, Bool.or_eq_false_iff,
    Bool.and_eq_false_iff, decide_eq_false_iff_not, UInt8.le_iff_toNat_le,
    ← UInt8.toNat_inj] at *
  have h32 : (32 : UInt8).toNat = 32 := rfl
  have h9 : (9 : UInt8).toNat = 9 := rfl
  have h13 : (13 : UInt8).toNat = 13 := rfl
  have h48 : (48 : UInt8).toNat = 48 := rfl
  omega

lemma isdigit_of_isspace (h : isspace b) : isdigit b = false := by
  by_contra hd
  rw [isspace_of_isdigit (Bool.eq_true_of_not_eq_false hd)] at h
  exact absurd h Bool.false_ne_true

lemma takeWhile_halts {p : UInt8 → Bool} (hs : ∀ b ∈ s, p b) (hr : Halts p rest) :
    (s ++ rest).takeWhile p = s := by
  rw [List.takeWhile_append_of_pos hs]
  cases rest with
  | nil => exact List.append_nil s
  | cons b rest => simp [hr b rfl]

lemma dropWhile_halts {p : UInt8 → Bool} (hs : ∀ b ∈ s, p b) (hr : Halts p rest) :
    (s ++ rest).dropWhile p = rest := by
  rw [List.dropWhile_append_of_pos hs]
  cases rest with
  | nil => rfl
  | cons b rest => simp [hr b rfl]

lemma clamp_eq (h : LLONG_MIN ≤ x) (h' : x ≤ LLONG_MAX) : clamp x = x := by
  rw [clamp, min_eq_right h', max_eq_right h]

lemma halts_append {p : UInt8 → Bool} (hs : ∀ b ∈ s, p b = false) (hr : Halts p rest) :
    Halts p (s ++ rest) := by
  intro b hb
  cases s with
  | nil => exact hr b hb
  | cons b' s =>
    cases hb
    exact hs b List.mem_cons_self

lemma halts_cons {p : UInt8 → Bool} (h : p c = false) : Halts p (c :: rest) := by
  intro b hb
  cases hb
  exact h

lemma Numeral.halts_isspace : Halts isspace (n.text ++ rest) := by
  intro b hb
  obtain ⟨sgn, digits, hne, hd⟩ := n
  cases sgn with
  | plus | minus =>
    cases hb
    decide
  | none =>
    cases digits with
    | nil => exact absurd rfl hne
    | cons d ds =>
      cases hb
      exact isspace_of_isdigit (hd b List.mem_cons_self)

lemma Numeral.sign_text : Library.sign (n.text ++ rest) = (n.sign, n.digits ++ rest) := by
  obtain ⟨sgn, digits, hne, hd⟩ := n
  cases sgn with
  | plus | minus => rfl
  | none =>
    cases digits with
    | nil => exact absurd rfl hne
    | cons d ds =>
      have hdigit := hd d List.mem_cons_self
      change Library.sign (d :: (ds ++ rest)) = (.none, d :: (ds ++ rest))
      unfold Library.sign
      split
      · next heq =>
        cases heq
        exact absurd hdigit (by decide)
      · next heq =>
        cases heq
        exact absurd hdigit (by decide)
      · rfl

theorem strtol_text (hgap : ∀ b ∈ gap, isspace b) (hr : Halts isdigit rest) :
    strtol (gap ++ (n.text ++ rest)) = some (clamp n.value, rest) := by
  have hskip : (gap ++ (n.text ++ rest)).dropWhile isspace = n.text ++ rest :=
    dropWhile_halts hgap n.halts_isspace
  have hdigits : (n.digits ++ rest).takeWhile isdigit = n.digits := takeWhile_halts n.decimal hr
  have hrest : (n.digits ++ rest).dropWhile isdigit = rest := dropWhile_halts n.decimal hr
  rw [strtol, hskip, n.sign_text]
  simp only [hdigits, hrest, if_neg n.nonempty, Numeral.value]

lemma number_text (hgap : ∀ b ∈ gap, isspace b) (hr : Halts isdigit rest) :
    number (gap ++ (n.text ++ rest)) = n.value := by
  have hskip : (gap ++ (n.text ++ rest)).dropWhile isspace = n.text ++ rest :=
    dropWhile_halts hgap n.halts_isspace
  have hdigits : (n.digits ++ rest).takeWhile isdigit = n.digits := takeWhile_halts n.decimal hr
  rw [number, hskip, n.sign_text]
  simp only [hdigits, Numeral.value]

lemma halts_dropWhile {p : UInt8 → Bool} : Halts p (s.dropWhile p) := by
  intro b hb
  have h := List.head?_dropWhile_not p s
  rw [hb] at h
  simpa using h

lemma sign_append : (Library.sign s).1.text ++ (Library.sign s).2 = s := by
  unfold Library.sign
  split <;> rfl

theorem strtol_some (h : strtol s = some (x, rest)) :
    ∃ gap n, s = gap ++ (Numeral.text n ++ rest) ∧ (∀ b ∈ gap, isspace b) ∧ Halts isdigit rest := by
  have hskip : s.takeWhile isspace ++ s.dropWhile isspace = s := List.takeWhile_append_dropWhile
  rw [strtol] at h
  generalize hs : Library.sign (s.dropWhile isspace) = r at h
  obtain ⟨sgn, s'⟩ := r
  simp only [Option.ite_none_left_eq_some, Option.some.injEq, Prod.mk.injEq] at h
  obtain ⟨hne, -, rfl⟩ := h
  have hsign : sgn.text ++ s' = s.dropWhile isspace := by
    have happ := sign_append (s := s.dropWhile isspace)
    rwa [hs] at happ
  have hdigits : s'.takeWhile isdigit ++ s'.dropWhile isdigit = s' :=
    List.takeWhile_append_dropWhile
  refine ⟨s.takeWhile isspace, ⟨sgn, s'.takeWhile isdigit, hne, fun d hd => ?_⟩, ?_, fun b hb => ?_,
    halts_dropWhile⟩
  · exact List.mem_takeWhile_imp hd
  · rw [Numeral.text, List.append_assoc, hdigits, hsign, hskip]
  · exact List.mem_takeWhile_imp hb

lemma atoi_number : atoi s = int (clamp (number s)) := by
  rw [atoi, strtol, number]
  by_cases h : (Library.sign (s.dropWhile isspace)).2.takeWhile isdigit = []
  · simp only [h, if_true, Option.elim_none]
    cases (Library.sign (s.dropWhile isspace)).1 <;> rfl
  · simp only [if_neg h, Option.elim_some]

lemma atoi_text : atoi n.text = int (clamp n.value) := by
  have h : strtol ([] ++ (n.text ++ [])) = some (clamp n.value, []) :=
    strtol_text (by simp) (by simp [Halts])
  rw [List.nil_append, List.append_nil] at h
  rw [atoi, h]
  rfl

def digit (n : ℕ) : UInt8 :=
  UInt8.ofNat (48 + n)

lemma digit_toNat {n : ℕ} (h : n < 10) : (digit n).toNat = 48 + n :=
  UInt8.toNat_ofNat_of_lt (Nat.lt_trans (Nat.add_lt_add_left h 48) (by decide))

lemma isdigit_digit {n : ℕ} (h : n < 10) : isdigit (digit n) := by
  have h48 : (48 : UInt8).toNat = 48 := rfl
  have h57 : (57 : UInt8).toNat = 57 := rfl
  simp only [isdigit, Bool.and_eq_true, decide_eq_true_eq, UInt8.le_iff_toNat_le, digit_toNat h]
  omega

lemma digitsValue_concat {ds : List UInt8} {d : UInt8} :
    digitsValue (ds ++ [d]) = 10 * digitsValue ds + (d.toNat - 48) := by
  rw [digitsValue, List.foldl_append]
  rfl

theorem Numeral.exists_value (k : ℕ) : ∃ n : Numeral, n.value = k := by
  suffices h : ∃ ds : List UInt8, ds ≠ [] ∧ (∀ d ∈ ds, isdigit d) ∧ digitsValue ds = k by
    obtain ⟨ds, hne, hd, hk⟩ := h
    exact ⟨⟨.none, ds, hne, hd⟩, hk⟩
  induction k using Nat.strongRecOn with
  | ind k ih =>
    have hlast : k % 10 < 10 := Nat.mod_lt k (by decide)
    by_cases hk : k < 10
    · refine ⟨[digit k], by simp, by simp [isdigit_digit hk], ?_⟩
      simp [digitsValue, digit_toNat hk]
    · obtain ⟨ds, -, hd, hv⟩ := ih (k / 10) (by omega)
      refine ⟨ds ++ [digit (k % 10)], by simp, ?_, ?_⟩
      · intro d hmem
        rcases List.mem_append.mp hmem with hmem | hmem
        · exact hd d hmem
        · rw [List.mem_singleton.mp hmem]
          exact isdigit_digit hlast
      · rw [digitsValue_concat, hv, digit_toNat hlast]
        omega

@[simp] lemma sscanf_char : sscanf (.char :: format) (c :: s) = .char c :: sscanf format s :=
  rfl

lemma sscanf_space (hgap : ∀ b ∈ gap, isspace b) (hr : Halts isspace rest) :
    sscanf (.space :: format) (gap ++ rest) = sscanf format rest := by
  rw [sscanf, dropWhile_halts hgap hr]

lemma sscanf_lld (hr : Halts isdigit rest) :
    sscanf (.lld :: format) (n.text ++ rest) = .lld (clamp n.value) :: sscanf format rest := by
  have h : strtol ([] ++ (n.text ++ rest)) = some (clamp n.value, rest) :=
    strtol_text (by simp) hr
  rw [List.nil_append] at h
  rw [sscanf, h]
  rfl

lemma sscanf_char_some (h : sscanf (.char :: format) s = .char c :: fields) :
    ∃ s', s = c :: s' ∧ sscanf format s' = fields := by
  cases s with
  | nil => cases h
  | cons b s =>
    rw [sscanf_char, List.cons.injEq, Field.char.injEq] at h
    obtain ⟨rfl, h⟩ := h
    exact ⟨s, rfl, h⟩

lemma sscanf_space_char (h : sscanf (.space :: .char :: format) s = .char c :: fields) :
    ∃ gap s', s = gap ++ c :: s' ∧ (∀ b ∈ gap, isspace b) ∧ sscanf format s' = fields := by
  rw [sscanf] at h
  obtain ⟨s', hs, h⟩ := sscanf_char_some h
  refine ⟨s.takeWhile isspace, s', ?_, fun b hb => List.mem_takeWhile_imp hb, h⟩
  rw [← hs, List.takeWhile_append_dropWhile]

lemma sscanf_space_lld (h : sscanf (.space :: .lld :: format) s = .lld x :: fields) :
    ∃ gap n s', s = gap ++ (Numeral.text n ++ s') ∧ (∀ b ∈ gap, isspace b) ∧ Halts isdigit s' ∧
      sscanf format s' = fields := by
  rw [sscanf, sscanf] at h
  cases hr : strtol (s.dropWhile isspace) with
  | none => simp [hr] at h
  | some r =>
    simp only [hr, Option.elim_some, List.cons.injEq] at h
    obtain ⟨gap, n, hs, hgap, hhalts⟩ := strtol_some hr
    refine ⟨s.takeWhile isspace ++ gap, n, r.2, ?_, fun b hb => ?_, hhalts, h.2⟩
    · rw [List.append_assoc, ← hs, List.takeWhile_append_dropWhile]
    · rcases List.mem_append.mp hb with hb | hb
      · exact List.mem_takeWhile_imp hb
      · exact hgap b hb

end UnixProgramming.Library
