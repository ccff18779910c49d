import UnixProgramming.ReadersWriters.Model
import UnixProgramming.Library.Census
import Mathlib.Tactic

/-! The lines that the threads print are those of a counter that is read and incremented
by one thread at a time, in the order in which they are printed. -/

namespace UnixProgramming.ReadersWriters

open Library Library.Transition

variable {n r : ℕ} {s s' : State n} {i j : Fin n} {v : ℤ} {l : RwLock (Fin n)}

namespace Point

def inside : Point → Bool
  | .evaluate | .printf | .unlock => true
  | .unborn | .lock | .returned => false

end Point

/-- The counter that the lines are read from. -/
def counter (n : ℕ) : System ℤ (Line n) where
  initial v := v = 1000
  step v line := if line.beginnum = evaluated line.function v then some line.beginnum else none

structure Kept (r : ℕ) (s : State n) : Prop where
  reader : ∀ i, i ∈ s.rwlock.readers ↔
    function r i = .reader ∧ (s.thread i).point.inside = true
  writer : ∀ i, s.rwlock.writer = some i ↔
    function r i = .writer ∧ (s.thread i).point.inside = true
  fresh : ∀ i, (s.thread i).point = .printf → (s.thread i).value = s.beginnum
  running : ∀ i, (s.thread i).point ≠ .returned
  created : ∀ i, (s.thread i).point = .unborn ↔ ∃ idx, s.main = .create idx ∧ idx ≤ i.val
  main : ∀ idx, s.main = .join idx → idx = 0

def Printing (r : ℕ) (s : State n) : Prop :=
  ∃ i, function r i = .writer ∧ (s.thread i).point = .printf

/-- A writer that has incremented `beginnum` is ahead of the lines. -/
structure Shown (r : ℕ) (s : State n) (v : ℤ) : Prop where
  run : (counter n).Run 1000 s.out v
  named : ∀ line ∈ s.out, line.function = function r line.self
  ahead : Printing r s → s.beginnum = int (v + 1)
  level : ¬ Printing r s → s.beginnum = v

lemma start_kept (n r : ℕ) : Kept r (start n) where
  reader i := by simp [start, Point.inside]
  writer i := by simp [start, Point.inside]
  fresh i h := by cases h
  running i := by simp [start]
  created i := by simp [start]
  main idx h := by cases h

lemma Kept.exclusive (h : Kept r s) (hf : function r i = .writer)
    (hi : (s.thread i).point.inside = true) (hj : (s.thread j).point.inside = true) : j = i := by
  have hw : s.rwlock.writer = some i := (h.writer i).mpr ⟨hf, hi⟩
  cases hfj : function r j with
  | reader =>
    have hr : j ∈ s.rwlock.readers := (h.reader j).mpr ⟨hfj, hj⟩
    simp [s.rwlock.exclusive i hw] at hr
  | writer =>
    have hwj : s.rwlock.writer = some j := (h.writer j).mpr ⟨hfj, hj⟩
    exact Option.some.inj (hwj.symm.trans hw)

@[simp] lemma set_rwlock {t : Thread} : (s.set i t).rwlock = s.rwlock := rfl

@[simp] lemma set_beginnum {t : Thread} : (s.set i t).beginnum = s.beginnum := rfl

@[simp] lemma set_main {t : Thread} : (s.set i t).main = s.main := rfl

@[simp] lemma set_out {t : Thread} : (s.set i t).out = s.out := rfl

@[simp] lemma set_thread_self {t : Thread} : (s.set i t).thread i = t :=
  Function.update_self ..

@[simp] lemma set_thread {t : Thread} (h : j ≠ i) : (s.set i t).thread j = s.thread j :=
  Function.update_of_ne h ..

lemma Kept.move {t : Thread} {o : List (Line n)} (h : Kept r s)
    (hborn : (s.thread i).point ≠ .unborn) (ht : t.point ≠ .unborn ∧ t.point ≠ .returned)
    (hr : ∀ j, j ∈ l.readers ↔ (if j = i then function r i = .reader ∧ t.point.inside = true
      else j ∈ s.rwlock.readers))
    (hw : ∀ j, l.writer = some j ↔ (if j = i then function r i = .writer ∧ t.point.inside = true
      else s.rwlock.writer = some j))
    (hv : t.point = .printf → t.value = v)
    (hb : ∀ j, j ≠ i → (s.thread j).point = .printf → v = s.beginnum) :
    Kept r { s.set i t with rwlock := l, beginnum := v, out := o } := by
  refine ⟨fun j => ?_, fun j => ?_, fun j => ?_, fun j => ?_, fun j => ?_, h.main⟩
  · by_cases hj : j = i
    · subst hj
      simpa using hr j
    · simpa [hj] using (hr j).trans (by rw [if_neg hj]; exact h.reader j)
  · by_cases hj : j = i
    · subst hj
      simpa using hw j
    · simpa [hj] using (hw j).trans (by rw [if_neg hj]; exact h.writer j)
  · by_cases hj : j = i
    · subst hj
      simpa using hv
    · intro hp
      simp only [ne_eq, hj, not_false_eq_true, set_thread] at hp ⊢
      rw [h.fresh j hp, hb j hj hp]
  · by_cases hj : j = i
    · subst hj
      simpa using ht.2
    · simpa [hj] using h.running j
  · have hc := h.created j
    by_cases hj : j = i
    · subst hj
      simp only [set_thread_self, set_main]
      exact iff_of_false ht.1 (hc.not.mp hborn)
    · simpa [hj] using hc

lemma Kept.stay {t : Thread} {o : List (Line n)} (h : Kept r s)
    (hi : (s.thread i).point.inside = true) (ht : t.point.inside = true)
    (hv : t.point = .printf → t.value = v)
    (hb : ∀ j, j ≠ i → (s.thread j).point = .printf → v = s.beginnum) :
    Kept r { s.set i t with beginnum := v, out := o } := by
  apply h.move (l := s.rwlock) _ _ _ _ hv hb
  · intro hp
    simp [hp, Point.inside] at hi
  · constructor
    · intro hp
      simp [hp, Point.inside] at ht
    · intro hp
      simp [hp, Point.inside] at ht
  · intro j
    by_cases hj : j = i
    · rw [if_pos hj, hj, h.reader i, hi, ht]
    · rw [if_neg hj]
  · intro j
    by_cases hj : j = i
    · rw [if_pos hj, hj, h.writer i, hi, ht]
    · rw [if_neg hj]

lemma lock_kept (h : Kept r s) (hp : (s.thread i).point = .lock)
    (he : lockStep (function r i) s.rwlock i = some l) :
    Kept r { s.set i ⟨.evaluate, (s.thread i).value⟩ with rwlock := l } := by
  apply h.move (v := s.beginnum) (o := s.out) (by simp [hp]) (by simp) _ _ (by simp)
    (fun _ _ _ => rfl)
  · intro j
    cases hf : function r i with
    | reader =>
      rw [hf] at he
      obtain ⟨-, -, hr⟩ := RwLock.rdlock_eq_some.mp he
      by_cases hj : j = i
      · simp [hr, hj, Point.inside]
      · simp [hr, hj]
    | writer =>
      rw [hf] at he
      obtain ⟨⟨-, hold⟩, -, hr⟩ := RwLock.wrlock_eq_some.mp he
      simp [hr, hold]
  · intro j
    cases hf : function r i with
    | reader =>
      rw [hf] at he
      obtain ⟨hold, hw, -⟩ := RwLock.rdlock_eq_some.mp he
      simp [hw, hold]
    | writer =>
      rw [hf] at he
      obtain ⟨⟨hold, -⟩, hw, -⟩ := RwLock.wrlock_eq_some.mp he
      by_cases hj : j = i
      · simp [hw, hj, Point.inside]
      · simp [hw, hold, hj, Ne.symm hj]

lemma unlock_kept (h : Kept r s) (hp : (s.thread i).point = .unlock)
    (he : s.rwlock.unlock i = some l) :
    Kept r { s.set i ⟨.lock, (s.thread i).value⟩ with rwlock := l } := by
  have hi : (s.thread i).point.inside = true := by rw [hp]; rfl
  apply h.move (v := s.beginnum) (o := s.out) (by simp [hp]) (by simp) _ _ (by simp)
    (fun _ _ _ => rfl)
  · intro j
    cases hf : function r i with
    | reader =>
      obtain ⟨l', hl, -, hr⟩ := RwLock.unlock_reader ((h.reader i).mpr ⟨hf, hi⟩)
      obtain rfl := Option.some.inj (he.symm.trans hl)
      by_cases hj : j = i
      · simp [hr, hj, Point.inside]
      · simp [hr, hj]
    | writer =>
      have hw := (h.writer i).mpr ⟨hf, hi⟩
      rw [RwLock.unlock_writer hw] at he
      obtain rfl := Option.some.inj he
      simp [s.rwlock.exclusive i hw]
  · intro j
    cases hf : function r i with
    | reader =>
      have hmem := (h.reader i).mpr ⟨hf, hi⟩
      obtain ⟨l', hl, hw, -⟩ := RwLock.unlock_reader hmem
      obtain rfl := Option.some.inj (he.symm.trans hl)
      have hnone : ∀ j, s.rwlock.writer ≠ some j := by
        intro j hj
        simp [s.rwlock.exclusive j hj] at hmem
      simp [hw, hnone]
    | writer =>
      have hw := (h.writer i).mpr ⟨hf, hi⟩
      rw [RwLock.unlock_writer hw] at he
      obtain rfl := Option.some.inj he
      by_cases hj : j = i
      · simp [hj, Point.inside]
      · simp [hw, hj, Ne.symm hj]

/-- Nobody else is about to print the value that a thread changes. -/
lemma Kept.evaluates (h : Kept r s) (hp : (s.thread i).point = .evaluate) (hne : j ≠ i)
    (hj : (s.thread j).point = .printf) : evaluated (function r i) s.beginnum = s.beginnum := by
  cases hf : function r i with
  | reader => rfl
  | writer =>
    have hij : j = i := h.exclusive hf (by rw [hp]; rfl) (by rw [hj]; rfl)
    exact absurd hij hne

lemma threadStep_kept (h : Kept r s) (he : threadStep (function r i) s i = some s') :
    Kept r s' := by
  cases hp : (s.thread i).point with
  | lock =>
    simp only [threadStep, hp] at he
    obtain ⟨l, hl, rfl⟩ := Option.map_eq_some_iff.mp he
    exact lock_kept h hp hl
  | evaluate =>
    simp only [threadStep, hp, Option.some.injEq] at he
    subst he
    exact h.stay (o := s.out) (by rw [hp]; rfl) rfl (fun _ => rfl)
      fun j hne hj => h.evaluates hp hne hj
  | printf =>
    simp only [threadStep, hp, Option.some.injEq] at he
    subst he
    exact h.stay (v := s.beginnum) (by rw [hp]; rfl) rfl (by simp) fun _ _ _ => rfl
  | unlock =>
    simp only [threadStep, hp] at he
    obtain ⟨l, hl, rfl⟩ := Option.map_eq_some_iff.mp he
    exact unlock_kept h hp hl
  | unborn | returned => simp [threadStep, hp] at he

lemma mainStep_kept (h : Kept r s) (he : mainStep s = some s') : Kept r s' := by
  cases hm : s.main with
  | create idx =>
    simp only [mainStep, hm] at he
    split_ifs at he with hidx
    · obtain rfl := Option.some.inj he
      have hpoint : (s.thread ⟨idx, hidx⟩).point = .unborn :=
        (h.created _).mpr ⟨idx, hm, le_rfl⟩
      refine ⟨fun j => ?_, fun j => ?_, fun j => ?_, fun j => ?_, fun j => ?_,
        fun k hk => by cases hk⟩
      · by_cases hj : j = ⟨idx, hidx⟩
        · subst hj
          simpa [hpoint, Point.inside] using h.reader ⟨idx, hidx⟩
        · simpa [hj] using h.reader j
      · by_cases hj : j = ⟨idx, hidx⟩
        · subst hj
          simpa [hpoint, Point.inside] using h.writer ⟨idx, hidx⟩
        · simpa [hj] using h.writer j
      · by_cases hj : j = ⟨idx, hidx⟩
        · simp [hj]
        · simpa [hj] using h.fresh j
      · by_cases hj : j = ⟨idx, hidx⟩
        · simp [hj]
        · simpa [hj] using h.running j
      · by_cases hj : j = ⟨idx, hidx⟩
        · simp [hj]
        · have hval : j.val ≠ idx := fun hv => hj (Fin.ext hv)
          have hc := h.created j
          simp only [hm, MainPc.create.injEq, exists_eq_left'] at hc
          simp only [ne_eq, hj, not_false_eq_true, set_thread, hc, MainPc.create.injEq,
            exists_eq_left']
          omega
    · obtain rfl := Option.some.inj he
      refine ⟨h.reader, h.writer, h.fresh, h.running, fun j => ?_, fun k hk => ?_⟩
      · have hc := h.created j
        have hj := j.isLt
        simp only [hm, MainPc.create.injEq, exists_eq_left'] at hc
        simp only [hc, reduceCtorEq, false_and, exists_false, iff_false]
        omega
      · exact (MainPc.join.inj hk).symm
  | join idx =>
    simp only [mainStep, hm] at he
    split_ifs at he with hidx hret
    · exact absurd hret (h.running _)
    · obtain rfl := Option.some.inj he
      refine ⟨h.reader, h.writer, h.fresh, h.running, fun j => ?_, fun k hk => by cases hk⟩
      simpa [hm] using h.created j
  | exited => simp [mainStep, hm] at he

lemma kept_inductive (n r : ℕ) : (system n r).Inductive (Kept r) where
  initial s hs := hs ▸ start_kept n r
  step s l t h he := by
    simp only [system, step, Option.ite_none_left_eq_some] at he
    cases l with
    | main => exact mainStep_kept h he.2
    | thread i => exact threadStep_kept h he.2

section Lines

lemma start_shown (n r : ℕ) : Shown r (start n) 1000 where
  run := .nil 1000
  named line h := by cases h
  ahead h := by
    obtain ⟨i, -, hi⟩ := h
    simp [start] at hi
  level _ := rfl

lemma Shown.congr (h : Shown r s v) (ho : s'.out = s.out) (hb : s'.beginnum = s.beginnum)
    (hp : Printing r s' ↔ Printing r s) : Shown r s' v := by
  refine ⟨?_, ?_, fun hw => ?_, fun hw => ?_⟩
  · rw [ho]
    exact h.run
  · rw [ho]
    exact h.named
  · rw [hb]
    exact h.ahead (hp.mp hw)
  · rw [hb]
    exact h.level (hp.not.mp hw)

lemma printing_other (hp : (s.thread i).point ≠ .printf) (hp' : (s'.thread i).point ≠ .printf)
    (ho : ∀ j, j ≠ i → s'.thread j = s.thread j) : Printing r s' ↔ Printing r s := by
  have hpoint : ∀ j, (s'.thread j).point = .printf ↔ (s.thread j).point = .printf := by
    intro j
    by_cases hj : j = i
    · rw [hj]
      exact iff_of_false hp' hp
    · rw [ho j hj]
  exact exists_congr fun j => and_congr_right fun _ => hpoint j

lemma Kept.quiet (h : Kept r s) (hi : (s.thread i).point.inside = true)
    (hp : function r i = .reader ∨ (s.thread i).point ≠ .printf) : ¬ Printing r s := by
  rintro ⟨j, hf, hj⟩
  have hij : i = j := h.exclusive hf (by rw [hj]; rfl) hi
  subst hij
  rcases hp with hr | hp
  · cases hf.symm.trans hr
  · exact hp hj

lemma evaluate_shown (hk : Kept r s) (h : Shown r s v) (hp : (s.thread i).point = .evaluate) :
    Shown r { s.set i ⟨.printf, evaluated (function r i) s.beginnum⟩ with
      beginnum := evaluated (function r i) s.beginnum } v := by
  have hquiet := hk.quiet (i := i) (by rw [hp]; rfl) (Or.inr (by simp [hp]))
  have hv := h.level hquiet
  refine ⟨h.run, h.named, fun ⟨j, hf, hj⟩ => ?_, fun hw => ?_⟩
  · have hji : j = i := by
      by_contra hne
      exact hquiet ⟨j, hf, by simpa [hne] using hj⟩
    subst hji
    simp [hf, evaluated, hv]
  · cases hf : function r i with
    | reader => exact hv
    | writer => exact absurd ⟨i, hf, by simp⟩ hw

lemma printf_shown (hk : Kept r s) (h : Shown r s v) (hp : (s.thread i).point = .printf) :
    ∃ v', Shown r { s.set i ⟨.unlock, (s.thread i).value⟩ with
      out := s.out ++ [⟨function r i, i, (s.thread i).value⟩] } v' := by
  have hvalue : evaluated (function r i) v = (s.thread i).value := by
    rw [hk.fresh i hp]
    cases hf : function r i with
    | reader => exact (h.level (hk.quiet (i := i) (by rw [hp]; rfl) (Or.inl hf))).symm
    | writer => exact (h.ahead ⟨i, hf, hp⟩).symm
  have hstep : (counter n).step v ⟨function r i, i, (s.thread i).value⟩ =
      some (s.thread i).value := if_pos hvalue.symm
  refine ⟨(s.thread i).value, h.run.append (.cons hstep (.nil _)), fun line hl => ?_,
    fun ⟨j, hf, hj⟩ => ?_, fun _ => (hk.fresh i hp).symm⟩
  · rcases List.mem_append.mp hl with hl | hl
    · exact h.named line hl
    · rw [List.mem_singleton.mp hl]
  · by_cases hji : j = i
    · simp [hji] at hj
    · simp only [ne_eq, hji, not_false_eq_true, set_thread] at hj
      have hij : i = j := hk.exclusive hf (by rw [hj]; rfl) (by rw [hp]; rfl)
      exact absurd hij.symm hji

lemma step_shown {a : Label n} (hk : Kept r s) (h : ∃ v, Shown r s v)
    (he : step r s a = some s') : ∃ v, Shown r s' v := by
  obtain ⟨v, h⟩ := h
  simp only [step, Option.ite_none_left_eq_some] at he
  obtain ⟨-, he⟩ := he
  cases a with
  | main =>
    cases hm : s.main with
    | create idx =>
      simp only [mainStep, hm] at he
      split_ifs at he with hidx
      · obtain rfl := Option.some.inj he
        have hpoint : (s.thread ⟨idx, hidx⟩).point = .unborn :=
          (hk.created _).mpr ⟨idx, hm, le_rfl⟩
        exact ⟨v, h.congr rfl rfl (printing_other (i := ⟨idx, hidx⟩) (by simp [hpoint])
          (by simp) fun j hj => set_thread hj)⟩
      · obtain rfl := Option.some.inj he
        exact ⟨v, h.congr rfl rfl Iff.rfl⟩
    | join idx =>
      simp only [mainStep, hm] at he
      split_ifs at he
      · obtain rfl := Option.some.inj he
        exact ⟨v, h.congr rfl rfl Iff.rfl⟩
      · obtain rfl := Option.some.inj he
        exact ⟨v, h.congr rfl rfl Iff.rfl⟩
    | exited => simp [mainStep, hm] at he
  | thread i =>
    cases hp : (s.thread i).point with
    | lock | unlock =>
      simp only [threadStep, hp] at he
      obtain ⟨l, -, rfl⟩ := Option.map_eq_some_iff.mp he
      exact ⟨v, h.congr rfl rfl (printing_other (i := i) (by simp [hp]) (by simp)
        fun j hj => set_thread hj)⟩
    | evaluate =>
      simp only [threadStep, hp, Option.some.injEq] at he
      exact ⟨v, he ▸ evaluate_shown hk h hp⟩
    | printf =>
      simp only [threadStep, hp, Option.some.injEq] at he
      exact he ▸ printf_shown hk h hp
    | unborn | returned => simp [threadStep, hp] at he

lemma shown_inductive (n r : ℕ) :
    (system n r).Inductive fun s => Kept r s ∧ ∃ v, Shown r s v := by
  apply (kept_inductive n r).and
  · rintro _ rfl
    exact ⟨1000, start_shown n r⟩
  · exact fun s l t hk _ h he => step_shown hk h he

def writes (lines : List (Line n)) : ℕ :=
  lines.countP fun line => line.function = .writer

/-- The counter's runs, read off the lines: each shows how many increments came before. -/
lemma counted {out : List (Line n)} {a b : ℤ} (ha : int a = a)
    (h : (counter n).Run a out b) : b = int (a + writes out) ∧
      ∀ (k : ℕ) (line : Line n), out[k]? = some line →
        line.beginnum = int (a + writes (out.take (k + 1))) := by
  induction h with
  | nil => simp [writes, ha]
  | @cons a c b line out he _ ih =>
    simp only [counter, Option.ite_none_right_eq_some, Option.some.injEq] at he
    obtain ⟨hline, rfl⟩ := he
    have hone : line.beginnum = int (a + writes [line]) := by
      rw [hline]
      cases hf : line.function with
      | reader => simp [evaluated, writes, hf, ha]
      | writer => simp [evaluated, writes, hf]
    have hcons : ∀ ls, int (line.beginnum + writes ls) = int (a + writes (line :: ls)) := by
      intro ls
      rw [hone, int_add]
      simp only [writes, List.countP_cons, List.countP_nil]
      congr 1
      push_cast
      ring
    have hint : int line.beginnum = line.beginnum := by
      rw [hone]
      exact int_eq int_range.1 int_range.2
    obtain ⟨hb, hlines⟩ := ih hint
    refine ⟨by rw [hb, hcons], fun k => ?_⟩
    cases k with
    | zero =>
      intro line' hl
      obtain rfl := Option.some.inj hl
      exact hone
    | succ k =>
      intro line' hl
      rw [hlines k line' hl, hcons]
      rfl

end Lines

/-- Threads that print at the same time are readers, and the lines are those of a
sequential counter: each shows 1000 and the number of the writers' lines so far. -/
theorem lines_coherent (n r : ℕ) (s : State n) (h : (system n r).Reachable s) :
    (∀ i j, function r i = .writer → (s.thread i).point.inside = true →
      (s.thread j).point.inside = true → j = i) ∧
    (∃ v, (counter n).Run 1000 s.out v) ∧
    ∀ (k : ℕ) (line : Line n), s.out[k]? = some line → line.function = function r line.self ∧
      line.beginnum = int (1000 + writes (s.out.take (k + 1))) := by
  obtain ⟨hk, v, hv⟩ := (shown_inductive n r).reachable h
  refine ⟨fun i j => hk.exclusive, ⟨v, hv.run⟩, fun k line hl => ⟨?_, ?_⟩⟩
  · exact hv.named line (List.mem_of_getElem? hl)
  · exact (counted (by decide) hv.run).2 k line hl

theorem lines_coherent_two : ∃ s, (system 2 1).Reachable s ∧
    s.out = [⟨.writer, 1, 1001⟩, ⟨.reader, 0, 1001⟩] ∧
    (∃ v, (counter 2).Run 1000 s.out v) ∧
    (1001 : ℤ) = int (1000 + writes (s.out.take 2)) := by
  have hrun : ((system 2 1).exec (start 2)
      [.main, .main, .thread 1, .thread 1, .thread 1, .thread 1, .thread 0, .thread 0,
        .thread 0]).map State.out = some [⟨.writer, 1, 1001⟩, ⟨.reader, 0, 1001⟩] := by
    decide
  obtain ⟨s, hs, ho⟩ := System.Reachable.observe rfl hrun
  obtain ⟨-, hv, hlines⟩ := lines_coherent 2 1 s hs
  exact ⟨s, hs, ho, hv, (hlines 1 ⟨.reader, 0, 1001⟩ (by rw [ho]; rfl)).2⟩

end UnixProgramming.ReadersWriters
