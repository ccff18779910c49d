import UnixProgramming.ThreadInc.Bounds

/-! Schedules of the two threads that reach both bounds. -/

namespace UnixProgramming.ThreadInc

open Library Library.Transition

def Prints (arg : Option (List UInt8)) (v : ℤ) : Prop :=
  ∃ s, (system arg).Reachable s ∧ s.printed = some v

/-- Both threads have been created, and `main` joins the first one. -/
def racing (N glob : ℤ) (f : Thread → Local) : State where
  glob := glob
  loops := N
  thread := f
  main := .join .thr1
  printed := none

def both (v₁ v₂ : Local) : Thread → Local
  | .thr1 => v₁
  | .thr2 => v₂

variable (arg : Option (List UInt8)) {t : Thread} {N g r : ℤ} {f : Thread → Local} {i k n : ℕ}

lemma both_thr1 {v₁ v₂ v : Local} : Function.update (both v₁ v₂) .thr1 v = both v v₂ := by
  funext t
  cases t <;> rfl

lemma both_thr2 {v₁ v₂ v : Local} : Function.update (both v₁ v₂) .thr2 v = both v₁ v := by
  funext t
  cases t <;> rfl

lemma iterate_enter (h : f t = ⟨.test, N, i, r⟩) (hi : i < N) :
    (system arg).Reaches (racing N g f) (racing N g (Function.update f t ⟨.store, N, i, g⟩)) := by
  refine ⟨[.threadFunc t, .threadFunc t], System.run_iff_exec.mpr ?_⟩
  simp [System.exec, system, step, threadStep, racing, State.set, h, hi]

lemma iterate_leave (h : f t = ⟨.store, N, i, r⟩) (hr : 0 ≤ r) (hmax : r < INT_MAX) :
    (system arg).Reaches (racing N g f)
      (racing N (r + 1) (Function.update f t ⟨.test, N, i + 1, r⟩)) := by
  have hint : int (r + 1) = r + 1 := int_of_nonneg (by omega) hmax
  refine ⟨[.threadFunc t], System.run_iff_exec.mpr ?_⟩
  simp [System.exec, system, step, threadStep, racing, State.set, h, hint]

lemma iterate_once (h : f t = ⟨.test, N, i, r⟩) (hi : i < N) (hg : 0 ≤ g) (hmax : g < INT_MAX) :
    (system arg).Reaches (racing N g f)
      (racing N (g + 1) (Function.update f t ⟨.test, N, i + 1, g⟩)) := by
  have hstore : Function.update f t ⟨.store, N, i, g⟩ t = ⟨.store, N, i, g⟩ :=
    Function.update_self ..
  have hleave : (system arg).Reaches (racing N g (Function.update f t ⟨.store, N, i, g⟩)) _ :=
    iterate_leave arg hstore hg hmax
  rw [Function.update_idem] at hleave
  exact (iterate_enter arg h hi).trans hleave

lemma iterate_many (h : f t = ⟨.test, N, i, r⟩) (hk : i + k ≤ N) (hg : 0 ≤ g)
    (hmax : g + k ≤ INT_MAX) : ∃ r', (system arg).Reaches (racing N g f)
      (racing N (g + k) (Function.update f t ⟨.test, N, i + k, r'⟩)) := by
  induction k with
  | zero =>
    refine ⟨r, ?_⟩
    have hsame : Function.update f t ⟨.test, N, i + 0, r⟩ = f := by
      rw [Nat.add_zero, ← h, Function.update_eq_self]
    rw [hsame, Nat.cast_zero, Int.add_zero]
    exact .refl
  | succ k ih =>
    push_cast at hk hmax
    obtain ⟨r', hr⟩ := ih (by omega) (by omega)
    have hself : Function.update f t ⟨.test, N, i + k, r'⟩ t = ⟨.test, N, i + k, r'⟩ :=
      Function.update_self ..
    have hlt : ((i + k : ℕ) : ℤ) < N := by
      push_cast
      omega
    have hlast := hr.trans (iterate_once arg hself hlt (by omega) (by omega))
    rw [Function.update_idem] at hlast
    refine ⟨g + k, ?_⟩
    rw [Nat.cast_succ, ← Int.add_assoc]
    exact hlast

variable {arg}

lemma prints {r₁ r₂ : ℤ}
    (h : (system arg).Reachable (racing n g (both ⟨.test, n, n, r₁⟩ ⟨.test, n, n, r₂⟩))) :
    Prints arg g := by
  have hend : ((system arg).exec (racing n g (both ⟨.test, n, n, r₁⟩ ⟨.test, n, n, r₂⟩))
      [.threadFunc .thr1, .threadFunc .thr2, .main, .main, .main]).map State.printed =
        some (some g) := by
    simp [System.exec, system, step, threadStep, mainStep, racing, State.set, both]
  obtain ⟨s, he, hs⟩ := Option.map_eq_some_iff.mp hend
  exact ⟨s, h.reaches (.exec he), hs⟩

lemma starts_racing (hn : loops arg = n) (hpos : 1 ≤ n) :
    (system arg).Reachable (racing n 0 (both ⟨.test, n, 0, 0⟩ ⟨.test, n, 0, 0⟩)) := by
  have hinit : ¬ (arg.isSome ∧ (n : ℤ) ≤ 0) := fun h => absurd h.2 (by omega)
  refine ⟨start, rfl, [.main, .create, .create, .threadFunc .thr1, .threadFunc .thr2],
    System.run_iff_exec.mpr ?_⟩
  simp only [System.exec, system, step, mainStep, initStep, createStep, threadStep, start, racing,
    State.set, hn, hinit, if_false, Option.bind_some, Function.update_self, reduceCtorEq, or_self,
    if_true, Function.update_of_ne, ne_eq, not_false_eq_true]
  simp only [Option.some.injEq, State.mk.injEq, true_and, and_true]
  funext t
  cases t <;> rfl

lemma prints_twice (hn : loops arg = n) (hpos : 1 ≤ n) (hmax : 2 * (n : ℤ) ≤ INT_MAX) :
    Prints arg (2 * n) := by
  have hstart := starts_racing hn hpos
  obtain ⟨r₁, h₁⟩ := iterate_many arg (t := .thr1) (N := n) (i := 0) (k := n) (g := 0)
    (f := both ⟨.test, n, 0, 0⟩ ⟨.test, n, 0, 0⟩) rfl (by simp) (Int.le_refl 0) (by omega)
  rw [both_thr1, Nat.zero_add, Int.zero_add] at h₁
  obtain ⟨r₂, h₂⟩ := iterate_many arg (t := .thr2) (N := n) (i := 0) (k := n) (g := n)
    (f := both ⟨.test, n, n, r₁⟩ ⟨.test, n, 0, 0⟩) rfl (by simp) (by omega) (by omega)
  rw [both_thr2, Nat.zero_add, ← Int.two_mul] at h₂
  exact prints (hstart.reaches (h₁.trans h₂))

lemma prints_one (hn : loops arg = (1 : ℕ)) : Prints arg 1 := by
  have hstart := starts_racing hn Nat.le.refl
  have h₁ := iterate_enter arg (t := .thr1) (N := 1) (i := 0) (g := 0)
    (f := both ⟨.test, 1, 0, 0⟩ ⟨.test, 1, 0, 0⟩) rfl (by decide)
  rw [both_thr1] at h₁
  have h₂ := iterate_enter arg (t := .thr2) (N := 1) (i := 0) (g := 0)
    (f := both ⟨.store, 1, 0, 0⟩ ⟨.test, 1, 0, 0⟩) rfl (by decide)
  rw [both_thr2] at h₂
  have h₃ := iterate_leave arg (t := .thr1) (N := 1) (i := 0) (g := 0) (r := 0)
    (f := both ⟨.store, 1, 0, 0⟩ ⟨.store, 1, 0, 0⟩) rfl (by decide) (by decide)
  rw [both_thr1] at h₃
  have h₄ := iterate_leave arg (t := .thr2) (N := 1) (i := 0) (g := 1) (r := 0)
    (f := both ⟨.test, 1, 1, 0⟩ ⟨.store, 1, 0, 0⟩) rfl (by decide) (by decide)
  rw [both_thr2] at h₄
  exact prints (n := 1) (hstart.reaches (h₁.trans (h₂.trans (h₃.trans h₄))))

/-- The second thread's first stores are lost when the first thread stores 1, and the first
thread's other stores when the second thread stores 2. -/
lemma prints_two (hn : loops arg = (n + 2 : ℕ)) (hmax : 2 * ((n + 2 : ℕ) : ℤ) ≤ INT_MAX) :
    Prints arg 2 := by
  have hstart := starts_racing hn (by omega)
  generalize hN : n + 2 = N at *
  have h₁ := iterate_enter arg (t := .thr1) (N := N) (i := 0) (g := 0)
    (f := both ⟨.test, N, 0, 0⟩ ⟨.test, N, 0, 0⟩) rfl (by omega)
  rw [both_thr1] at h₁
  obtain ⟨r₂, h₂⟩ := iterate_many arg (t := .thr2) (N := N) (i := 0) (k := n + 1) (g := 0)
    (f := both ⟨.store, N, 0, 0⟩ ⟨.test, N, 0, 0⟩) rfl (by omega) (Int.le_refl 0) (by omega)
  rw [both_thr2, Nat.zero_add, Int.zero_add] at h₂
  have h₃ := iterate_leave arg (t := .thr1) (N := N) (i := 0) (g := (n + 1 : ℕ)) (r := 0)
    (f := both ⟨.store, N, 0, 0⟩ ⟨.test, N, (n + 1 : ℕ), r₂⟩) rfl (by decide) (by decide)
  rw [both_thr1, Int.zero_add, Nat.zero_add] at h₃
  have h₄ := iterate_enter arg (t := .thr2) (N := N) (i := n + 1) (g := 1)
    (f := both ⟨.test, N, 1, 0⟩ ⟨.test, N, (n + 1 : ℕ), r₂⟩) rfl (by omega)
  rw [both_thr2] at h₄
  obtain ⟨r₁, h₅⟩ := iterate_many arg (t := .thr1) (N := N) (i := 1) (k := n + 1) (g := 1)
    (f := both ⟨.test, N, 1, 0⟩ ⟨.store, N, (n + 1 : ℕ), 1⟩) rfl (by omega) (by decide) (by omega)
  rw [both_thr1] at h₅
  have h₆ := iterate_leave arg (t := .thr2) (N := N) (i := n + 1) (g := 1 + (n + 1 : ℕ)) (r := 1)
    (f := both ⟨.test, N, 1 + (n + 1), r₁⟩ ⟨.store, N, (n + 1 : ℕ), 1⟩) rfl (by decide) (by decide)
  rw [both_thr2] at h₆
  have hcount : 1 + (n + 1) = N := by omega
  rw [hcount] at h₅ h₆
  have hcount' : n + 1 + 1 = N := by omega
  rw [hcount'] at h₆
  exact prints (hstart.reaches (h₁.trans (h₂.trans (h₃.trans (h₄.trans (h₅.trans h₆))))))

lemma exists_arg {N : ℤ} (hN : 0 ≤ N) (hmax : N ≤ INT_MAX) : ∃ arg, loops arg = N := by
  obtain ⟨n, rfl⟩ := Int.eq_ofNat_of_zero_le hN
  obtain ⟨m, hm⟩ := Numeral.exists_value n
  refine ⟨some m.text, ?_⟩
  have hclamp : clamp n = n :=
    clamp_eq (Int.le_trans (by decide) hN) (Int.le_trans hmax (by decide))
  rw [loops, atoi_text, hm, hclamp, int_of_nonneg hN hmax]

theorem glob_printed (N : ℤ) (hN : 1 ≤ N) (hmax : 2 * N ≤ INT_MAX) :
    (∃ arg, loops arg = N) ∧ ∀ arg, loops arg = N →
      (∀ v, Prints arg v → min N 2 ≤ v ∧ v ≤ 2 * N) ∧
        Prints arg (min N 2) ∧ Prints arg (2 * N) := by
  refine ⟨exists_arg (by omega) (by omega), fun arg harg => ⟨?_, ?_, ?_⟩⟩
  · rintro v ⟨s, hs, hv⟩
    rw [← harg] at hN hmax ⊢
    exact ((bounded_inductive (by omega) hmax).reachable hs).printed v hv
  · by_cases hone : N = 1
    · subst hone
      exact prints_one harg
    · obtain ⟨n, hn⟩ := Int.eq_ofNat_of_zero_le (show 0 ≤ N - 2 by omega)
      obtain rfl : N = (n + 2 : ℕ) := by
        push_cast
        omega
      have htwo : min ((n + 2 : ℕ) : ℤ) 2 = 2 := by omega
      rw [htwo]
      exact prints_two harg hmax
  · obtain ⟨n, rfl⟩ := Int.eq_ofNat_of_zero_le (show 0 ≤ N by omega)
    exact prints_twice harg (by omega) hmax

theorem glob_printed_thousand : (∃ arg, loops arg = 1000) ∧ ∀ arg, loops arg = 1000 →
    (∀ v, Prints arg v → min 1000 2 ≤ v ∧ v ≤ 2 * 1000) ∧
      Prints arg (min 1000 2) ∧ Prints arg (2 * 1000) :=
  glob_printed 1000 (by decide) (by decide)

end UnixProgramming.ThreadInc
