import Mathlib.Data.Fintype.Card
import Mathlib.Algebra.BigOperators.Group.Finset.Piecewise
import Mathlib.Algebra.Order.BigOperators.Group.Finset

/-! How many entries of a table have a given state, when one entry changes. -/

namespace UnixProgramming.Library

variable {ι α : Type*} [Fintype ι] [DecidableEq ι] [DecidableEq α]
variable {f : ι → α} {i : ι} {a b : α}

def census (f : ι → α) (a : α) : ℕ :=
  (Finset.univ.filter fun i => f i = a).card

omit [DecidableEq ι] in
lemma census_eq_sum : census f a = ∑ i, if f i = a then 1 else 0 :=
  Finset.card_filter _ _

lemma census_update : census (Function.update f i b) a + (if f i = a then 1 else 0) =
    census f a + (if b = a then 1 else 0) := by
  have hother : ∀ j ∈ Finset.univ.erase i,
      (if Function.update f i b j = a then 1 else 0) = if f j = a then 1 else 0 := by
    intro j hj
    rw [Function.update_of_ne (Finset.ne_of_mem_erase hj)]
  have hsplit : ∀ g : ι → α, census g a =
      (∑ j ∈ Finset.univ.erase i, if g j = a then 1 else 0) + if g i = a then 1 else 0 := by
    intro g
    rw [census_eq_sum, Finset.sum_erase_add _ _ (Finset.mem_univ i)]
  rw [hsplit (Function.update f i b), hsplit f, Finset.sum_congr rfl hother, Function.update_self]
  omega

lemma census_enter (hi : f i ≠ a) : census (Function.update f i a) a = census f a + 1 := by
  simpa [hi] using census_update (f := f) (i := i) (b := a) (a := a)

lemma census_leave (hi : f i = a) (hb : b ≠ a) :
    census (Function.update f i b) a + 1 = census f a := by
  simpa [hi, hb] using census_update (f := f) (i := i) (b := b) (a := a)

omit [DecidableEq ι] in
lemma census_pos : 0 < census f a ↔ ∃ i, f i = a := by
  simp [census, Finset.card_pos, Finset.Nonempty]

omit [DecidableEq ι] in
lemma census_le : census f a ≤ Fintype.card ι :=
  Finset.card_le_univ _

omit [DecidableEq ι] in
lemma census_eq_card : census f a = Fintype.card ι ↔ ∀ i, f i = a := by
  rw [census, Finset.card_eq_iff_eq_univ, Finset.filter_eq_self]
  simp

omit [DecidableEq ι] in
lemma card_ne_add_census :
    (Finset.univ.filter fun i => f i ≠ a).card + census f a = Fintype.card ι := by
  rw [Nat.add_comm]
  exact Finset.card_filter_add_card_filter_not _

omit [DecidableEq α] in
lemma sum_update_lt {w : α → ℕ} (h : w b < w (f i)) :
    ∑ j, w (Function.update f i b j) < ∑ j, w (f j) := by
  apply Finset.sum_lt_sum
  · intro j _
    by_cases hj : j = i
    · rw [hj, Function.update_self]
      exact h.le
    · rw [Function.update_of_ne hj]
  · exact ⟨i, Finset.mem_univ i, by rwa [Function.update_self]⟩

end UnixProgramming.Library
