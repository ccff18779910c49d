import UnixProgramming.ReadersWriters.Coherence

/-! The lock is always given back: whatever has happened, each thread can still come to
print the next line, and `main` waits for its first thread for ever. -/

namespace UnixProgramming.ReadersWriters

open Library Library.Transition

variable {n r : ℕ} {s s' : State n} {i j : Fin n}

namespace Point

def left : Point → ℕ
  | .evaluate => 3
  | .printf => 2
  | .unlock => 1
  | .unborn | .lock | .returned => 0

end Point

def held (s : State n) : ℕ :=
  ∑ i, (s.thread i).point.left

/-- What has been printed stays, and `main` does not move. -/
structure Follows (r : ℕ) (s s' : State n) : Prop where
  reaches : (system n r).Reaches s s'
  out : s.out <+: s'.out
  main : s'.main = s.main

lemma Follows.refl : Follows r s s :=
  ⟨.refl, List.prefix_refl _, rfl⟩

lemma Follows.trans {t : State n} (h : Follows r s s') (h' : Follows r s' t) : Follows r s t :=
  ⟨h.reaches.trans h'.reaches, h.out.trans h'.out, h'.main.trans h.main⟩

lemma threadStep_enabled (hk : Kept r s) (hi : (s.thread i).point.inside = true) :
    ∃ s', threadStep (function r i) s i = some s' := by
  cases hp : (s.thread i).point with
  | evaluate => exact ⟨_, by simp only [threadStep, hp]; rfl⟩
  | printf => exact ⟨_, by simp only [threadStep, hp]; rfl⟩
  | unlock =>
    obtain ⟨l, hl⟩ : ∃ l, s.rwlock.unlock i = some l := by
      cases hf : function r i with
      | reader =>
        obtain ⟨l, hl, -⟩ := RwLock.unlock_reader ((hk.reader i).mpr ⟨hf, hi⟩)
        exact ⟨l, hl⟩
      | writer => exact ⟨_, RwLock.unlock_writer ((hk.writer i).mpr ⟨hf, hi⟩)⟩
    exact ⟨_, by simp only [threadStep, hp, hl]; rfl⟩
  | unborn | lock | returned => simp [hp, Point.inside] at hi

lemma threadStep_frame {f : Function} (he : threadStep f s i = some s')
    (hi : (s.thread i).point.inside = true) :
    s'.main = s.main ∧ s.out <+: s'.out ∧ ∃ t, s'.thread = Function.update s.thread i t ∧
      t.point.left < (s.thread i).point.left := by
  cases hp : (s.thread i).point with
  | evaluate =>
    simp only [threadStep, hp, Option.some.injEq] at he
    subst he
    exact ⟨rfl, List.prefix_refl _, _, rfl, by simp [Point.left]⟩
  | printf =>
    simp only [threadStep, hp, Option.some.injEq] at he
    subst he
    exact ⟨rfl, List.prefix_append _ _, _, rfl, by simp [Point.left]⟩
  | unlock =>
    simp only [threadStep, hp] at he
    obtain ⟨l, -, rfl⟩ := Option.map_eq_some_iff.mp he
    exact ⟨rfl, List.prefix_refl _, _, rfl, by simp [Point.left]⟩
  | unborn | lock | returned => simp [hp, Point.inside] at hi

lemma inside_steps (hk : Kept r s) (hm : s.main ≠ .exited)
    (hi : (s.thread i).point.inside = true) : ∃ s', Follows r s s' ∧ held s' < held s := by
  obtain ⟨t, ht⟩ := threadStep_enabled hk hi
  obtain ⟨hmain, hout, u, hthread, hlt⟩ := threadStep_frame ht hi
  have hstep : (system n r).step s (.thread i) = some t := (if_neg hm).trans ht
  refine ⟨t, ⟨⟨[.thread i], .cons hstep (.nil t)⟩, hout, hmain⟩, ?_⟩
  rw [held, hthread]
  exact sum_update_lt (f := s.thread) (w := fun t => t.point.left) hlt

lemma drain (hk : Kept r s) (hm : s.main ≠ .exited) :
    ∃ s', Follows r s s' ∧ ∀ i, (s'.thread i).point.inside = false := by
  induction hN : held s using Nat.strong_induction_on generalizing s with
  | _ N ih =>
    by_cases hin : ∃ i, (s.thread i).point.inside = true
    · obtain ⟨i, hi⟩ := hin
      obtain ⟨t, hst, hlt⟩ := inside_steps hk hm hi
      have hkt : Kept r t := (kept_inductive n r).reaches hk hst.reaches
      obtain ⟨u, htu, hu⟩ := ih (held t) (hN ▸ hlt) hkt (by rw [hst.main]; exact hm) rfl
      exact ⟨u, hst.trans htu, hu⟩
    · exact ⟨s, .refl, fun i => by simpa using fun hi => hin ⟨i, hi⟩⟩

lemma create_all {k idx : ℕ} (hk : Kept r s) (hm : s.main = .create idx) (hidx : idx + k = n) :
    ∃ s', (system n r).Reaches s s' ∧ s'.out = s.out ∧ s'.main = .join 0 := by
  induction k generalizing s idx with
  | zero =>
    have hstep : step r s .main = some { s with main := .join 0 } := by
      simp [step, mainStep, hm, show ¬ idx < n by omega]
    exact ⟨_, ⟨[.main], .cons hstep (.nil _)⟩, rfl, rfl⟩
  | succ k ih =>
    have hlt : idx < n := by omega
    obtain ⟨t, hstep, hout, hmt⟩ : ∃ t, step r s .main = some t ∧ t.out = s.out ∧
        t.main = .create (idx + 1) := by
      refine ⟨{ s.set ⟨idx, hlt⟩ ⟨.lock, 0⟩ with main := .create (idx + 1) }, ?_, rfl, rfl⟩
      simp only [step, mainStep, hm, dif_pos hlt, reduceCtorEq, if_false]
    have hkt : Kept r t := (kept_inductive n r).step s .main t hk hstep
    obtain ⟨u, hr, hu, hmu⟩ := ih hkt hmt (by omega)
    exact ⟨u, .trans ⟨[.main], .cons hstep (.nil t)⟩ hr, hu.trans hout, hmu⟩

lemma take_turn (hk : Kept r s) (hm : s.main ≠ .exited)
    (hfree : ∀ j, (s.thread j).point.inside = false) (hp : (s.thread i).point = .lock) :
    ∃ s' v, (system n r).Reaches s s' ∧ s'.out = s.out ++ [⟨function r i, i, v⟩] := by
  have hr : s.rwlock.readers = ∅ := by
    apply Finset.eq_empty_of_forall_notMem
    intro j hj
    simpa [hfree j] using (hk.reader j).mp hj
  have hw : s.rwlock.writer = none := by
    cases hw : s.rwlock.writer with
    | none => rfl
    | some j => simpa [hfree j] using (hk.writer j).mp hw
  obtain ⟨l, hl⟩ : ∃ l, lockStep (function r i) s.rwlock i = some l := by
    cases function r i with
    | reader => exact ⟨_, dif_pos hw⟩
    | writer => exact ⟨_, dif_pos ⟨hw, hr⟩⟩
  have hrun : ((system n r).exec s [.thread i, .thread i, .thread i]).map State.out =
      some (s.out ++ [⟨function r i, i, evaluated (function r i) s.beginnum⟩]) := by
    simp [System.exec, system, step, threadStep, hm, hp, hl, State.set]
  obtain ⟨t, ht, hout⟩ := Option.map_eq_some_iff.mp hrun
  exact ⟨t, _, .exec ht, hout⟩

lemma join_waits (hk : Kept r s) {idx : ℕ} (hm : s.main = .join idx) (hi : idx < n) :
    mainStep s = none := by
  simp only [mainStep, hm, dif_pos hi, if_neg (hk.running _)]

lemma waits_inductive (n r : ℕ) (hn : 0 < n) :
    (system n r).Inductive fun s => Kept r s ∧ s.main ≠ .exited := by
  apply (kept_inductive n r).and
  · rintro _ rfl
    simp [start]
  · intro s l t hk _ hm he hx
    simp only [system, step, if_neg hm] at he
    cases l with
    | main =>
      cases hmain : s.main with
      | create idx =>
        simp only [mainStep, hmain] at he
        split_ifs at he
        · obtain rfl := Option.some.inj he
          cases hx
        · obtain rfl := Option.some.inj he
          cases hx
      | join idx =>
        obtain rfl := hk.main idx hmain
        rw [join_waits hk hmain hn] at he
        cases he
      | exited => exact hm hmain
    | thread i =>
      have hmain : t.main = s.main := by
        cases hp : (s.thread i).point with
        | lock | unlock =>
          simp only [threadStep, hp] at he
          obtain ⟨l, -, rfl⟩ := Option.map_eq_some_iff.mp he
          rfl
        | evaluate | printf =>
          simp only [threadStep, hp, Option.some.injEq] at he
          rw [← he]
          rfl
        | unborn | returned => simp [threadStep, hp] at he
      exact hm (hmain.symm.trans hx)

lemma all_created (hk : Kept r s) (hm : s.main ≠ .exited) :
    ∃ s', (system n r).Reaches s s' ∧ s'.out = s.out ∧ s'.main = .join 0 := by
  cases hmain : s.main with
  | create idx =>
    by_cases hle : idx ≤ n
    · exact create_all hk hmain (Nat.add_sub_of_le hle)
    · have hstep : (system n r).step s .main = some { s with main := .join 0 } := by
        simp [system, step, mainStep, hmain, show ¬ idx < n by omega]
      exact ⟨_, ⟨[.main], .cons hstep (.nil _)⟩, rfl, rfl⟩
  | join idx =>
    obtain rfl := hk.main idx hmain
    exact ⟨s, .refl, rfl, hmain⟩
  | exited => exact absurd hmain hm

/-- No thread is shut out for good: from every state it can come to print the next line.
`main` never gets past its first join. -/
theorem prints_again (n r : ℕ) (s : State n) (h : (system n r).Reachable s) (i : Fin n) :
    (s.main ≠ .exited ∧ ∀ k, s.main = .join k → k = 0) ∧
    ∃ s' o v, (system n r).Reaches s s' ∧ s'.out = s.out ++ o ++ [⟨function r i, i, v⟩] := by
  obtain ⟨hk, hm⟩ := (waits_inductive n r (Nat.zero_lt_of_lt i.isLt)).reachable h
  obtain ⟨t, hst, hout, hjoin⟩ := all_created hk hm
  have hkt : Kept r t := (kept_inductive n r).reaches hk hst
  obtain ⟨u, hu, hfree⟩ := drain hkt (by simp [hjoin])
  have hku : Kept r u := (kept_inductive n r).reaches hkt hu.reaches
  have hmain : u.main = .join 0 := hu.main.trans hjoin
  have hpoint : (u.thread i).point = .lock := by
    have hborn := (hku.created i).not.mpr (by simp [hmain])
    have hrun := hku.running i
    have hin := hfree i
    cases hp : (u.thread i).point with
    | lock => rfl
    | unborn => exact absurd hp hborn
    | returned => exact absurd hp hrun
    | evaluate | printf | unlock => simp [hp, Point.inside] at hin
  obtain ⟨w, v, huw, hw⟩ := take_turn hku (by simp [hmain]) hfree hpoint
  obtain ⟨o, ho⟩ := hu.out
  refine ⟨⟨hm, hk.main⟩, w, o, v, (hst.trans hu.reaches).trans huw, ?_⟩
  rw [hw, ← ho, hout]

theorem prints_again_two : ∃ s, (system 2 1).Reachable s ∧ (s.thread 1).point = .printf ∧
    (s.main ≠ .exited ∧ ∀ k, s.main = .join k → k = 0) ∧ ∃ s' o v, (system 2 1).Reaches s s' ∧
      s'.out = s.out ++ o ++ [⟨function 1 (0 : Fin 2), 0, v⟩] := by
  have hrun : ((system 2 1).exec (start 2) [.main, .main, .thread 1, .thread 1]).map
      (fun s => (s.thread 1).point) = some .printf := by decide
  obtain ⟨s, hs, hp⟩ := System.Reachable.observe rfl hrun
  exact ⟨s, hs, hp, prints_again 2 1 s hs 0⟩

end UnixProgramming.ReadersWriters
