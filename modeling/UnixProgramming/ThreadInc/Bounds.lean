import UnixProgramming.ThreadInc.Model

/-! The values of `glob` that `thread_inc.c` can print. -/

namespace UnixProgramming.ThreadInc

open Library Library.Transition

def State.total (s : State) : ℤ :=
  (s.thread .thr1).i + (s.thread .thr2).i

/-- A thread that has stored before loads at least 1, and what it loads is at most the
number of all stores. -/
def Running (N total : ℤ) (v : Local) : Prop :=
  match v.pc with
  | .unborn | .start => v.i = 0
  | .test => v.loops = N ∧ v.i ≤ N
  | .load => v.loops = N ∧ v.i < N
  | .store => v.loops = N ∧ v.i < N ∧ min 1 (v.i : ℤ) ≤ v.loaded ∧ v.loaded ≤ total
  | .returned => v.i = N

structure Counted (s : State) : Prop where
  upper : s.glob ≤ s.total
  one : ∀ t, min 1 ((s.thread t).i : ℤ) ≤ s.glob
  two : min 2 (min ((s.thread .thr1).i : ℤ) (s.thread .thr2).i) ≤ s.glob

def Joined (N : ℤ) (s : State) : Prop :=
  match s.main with
  | .init => ∀ t, (s.thread t).pc = .unborn
  | .create .thr1 => s.loops = N ∧ ∀ t, (s.thread t).pc = .unborn
  | .create .thr2 => s.loops = N ∧ (s.thread .thr2).pc = .unborn
  | .join .thr1 => s.loops = N
  | .join .thr2 => s.loops = N ∧ (s.thread .thr1).pc = .returned
  | .print => ∀ t, (s.thread t).pc = .returned
  | .exited | .failed => True

structure Bounded (N : ℤ) (s : State) : Prop where
  thread : ∀ t, Running N s.total (s.thread t)
  counted : Counted s
  joined : Joined N s
  printed : ∀ v ∈ s.printed, min N 2 ≤ v ∧ v ≤ 2 * N

variable {arg : Option (List UInt8)} {s s' : State} {t : Thread} {l : Label} {v : Local}
  {N total : ℤ}

lemma Running.mono (h : Running N total v) {total' : ℤ} (hle : total ≤ total') :
    Running N total' v := by
  cases hpc : v.pc with
  | store =>
    simp only [Running, hpc] at h ⊢
    exact ⟨h.1, h.2.1, h.2.2.1, h.2.2.2.trans hle⟩
  | unborn | start | test | load | returned => simpa only [Running, hpc] using h

lemma Running.le (h : Running N total v) (hN : 0 ≤ N) : v.i ≤ N := by
  cases hpc : v.pc with
  | unborn | start =>
    simp only [Running, hpc] at h
    rw [h]
    exact hN
  | test =>
    simp only [Running, hpc] at h
    exact h.2
  | load =>
    simp only [Running, hpc] at h
    exact h.2.le
  | store =>
    simp only [Running, hpc] at h
    exact h.2.1.le
  | returned =>
    simp only [Running, hpc] at h
    exact h.le

@[simp] lemma set_self : (s.set t v).thread t = v :=
  Function.update_self ..

lemma set_of_ne {u : Thread} (hu : u ≠ t) : (s.set t v).thread u = s.thread u :=
  Function.update_of_ne hu ..

lemma set_total : (s.set t v).total = s.total - (s.thread t).i + v.i := by
  cases t with
  | thr1 =>
    rw [State.total, set_self, set_of_ne (by decide), State.total]
    ring
  | thr2 =>
    rw [State.total, set_self, set_of_ne (by decide), State.total]
    ring

lemma set_running (h : ∀ u, Running N s.total (s.thread u)) (hle : (s.thread t).i ≤ v.i)
    (hv : Running N (s.set t v).total v) :
    ∀ u, Running N (s.set t v).total ((s.set t v).thread u) := by
  intro u
  by_cases hu : u = t
  · subst hu
    rwa [set_self]
  · rw [set_of_ne hu]
    apply (h u).mono
    rw [set_total]
    omega

lemma Joined.set (h : Joined N s) (hu : (s.thread t).pc ≠ .unborn)
    (hr : (s.thread t).pc ≠ .returned) : Joined N (s.set t v) := by
  have hunborn : ∀ u, (s.thread u).pc = .unborn → (s.set t v).thread u = s.thread u := by
    intro u hpc
    exact set_of_ne fun hut => hu (hut ▸ hpc)
  have hreturned : ∀ u, (s.thread u).pc = .returned → (s.set t v).thread u = s.thread u := by
    intro u hpc
    exact set_of_ne fun hut => hr (hut ▸ hpc)
  have hmain : (s.set t v).main = s.main := rfl
  have hloops : (s.set t v).loops = s.loops := rfl
  cases hpc : s.main with
  | init =>
    simp only [Joined, hmain, hpc] at h ⊢
    exact fun u => (congrArg Local.pc (hunborn u (h u))).trans (h u)
  | create u =>
    cases u with
    | thr1 =>
      simp only [Joined, hmain, hpc, hloops] at h ⊢
      exact ⟨h.1, fun u => (congrArg Local.pc (hunborn u (h.2 u))).trans (h.2 u)⟩
    | thr2 =>
      simp only [Joined, hmain, hpc, hloops] at h ⊢
      exact ⟨h.1, (congrArg Local.pc (hunborn _ h.2)).trans h.2⟩
  | join u =>
    cases u with
    | thr1 => simpa only [Joined, hmain, hpc, hloops] using h
    | thr2 =>
      simp only [Joined, hmain, hpc, hloops] at h ⊢
      exact ⟨h.1, (congrArg Local.pc (hreturned _ h.2)).trans h.2⟩
  | print =>
    simp only [Joined, hmain, hpc] at h ⊢
    exact fun u => (congrArg Local.pc (hreturned u (h u))).trans (h u)
  | exited | failed => simp only [Joined, hmain, hpc]

lemma Joined.loops_eq (h : Joined N s) (hpc : (s.thread t).pc = .start)
    (hx : s.main ≠ .exited) (hf : s.main ≠ .failed) : s.loops = N := by
  cases hm : s.main with
  | init =>
    simp only [Joined, hm] at h
    have hu := h t
    simp [hpc] at hu
  | create u | join u =>
    cases u with
    | thr1 | thr2 =>
      simp only [Joined, hm] at h
      first
        | exact h.1
        | exact h
  | print =>
    simp only [Joined, hm] at h
    have hr := h t
    simp [hpc] at hr
  | exited => exact absurd hm hx
  | failed => exact absurd hm hf

lemma bounded_of_same (h : ∀ t, Running N s.total (s.thread t)) (hcounted : Counted s)
    (hglob : s'.glob = s.glob) (hthread : s'.thread = s.thread) (hj : Joined N s')
    (hprinted : ∀ v ∈ s'.printed, min N 2 ≤ v ∧ v ≤ 2 * N) : Bounded N s' := by
  have htotal : s'.total = s.total := by rw [State.total, hthread, State.total]
  refine ⟨?_, ⟨?_, ?_, ?_⟩, hj, hprinted⟩
  · rw [htotal, hthread]
    exact h
  · rw [hglob, htotal]
    exact hcounted.upper
  · rw [hglob, hthread]
    exact hcounted.one
  · rw [hglob, hthread]
    exact hcounted.two

lemma Bounded.main (h : Bounded N s) (hglob : s'.glob = s.glob) (hthread : s'.thread = s.thread)
    (hj : Joined N s') (hprinted : ∀ v ∈ s'.printed, min N 2 ≤ v ∧ v ≤ 2 * N) : Bounded N s' :=
  bounded_of_same h.thread h.counted hglob hthread hj hprinted

lemma set_counted (h : Counted s) (hi : v.i = (s.thread t).i) : Counted (s.set t v) := by
  have hsame : ∀ u, ((s.set t v).thread u).i = (s.thread u).i := by
    intro u
    by_cases hut : u = t
    · subst hut
      rw [set_self, hi]
    · rw [set_of_ne hut]
  refine ⟨?_, fun u => ?_, ?_⟩
  · rw [State.total, hsame, hsame]
    exact h.upper
  · rw [hsame]
    exact h.one u
  · rw [hsame, hsame]
    exact h.two

lemma set_threads (h : ∀ u, Running N s.total (s.thread u)) (hi : v.i = (s.thread t).i)
    (hv : Running N s.total v) :
    ∀ u, Running N (s.set t v).total ((s.set t v).thread u) := by
  apply set_running h hi.ge
  rwa [set_total, hi, Int.sub_add_cancel]

lemma set_bounded (h : Bounded N s) (hu : (s.thread t).pc ≠ .unborn)
    (hr : (s.thread t).pc ≠ .returned) (hi : v.i = (s.thread t).i)
    (hv : Running N s.total v) : Bounded N (s.set t v) :=
  ⟨set_threads h.thread hi hv, set_counted h.counted hi, h.joined.set hu hr, h.printed⟩

lemma store_counted (hv : v.i = (s.thread t).i + 1)
    (hone : min 1 ((s.thread t).i : ℤ) ≤ (s.thread t).loaded)
    (hle : (s.thread t).loaded ≤ s.total) :
    Counted { s.set t v with glob := (s.thread t).loaded + 1 } := by
  have htotal : (s.set t v).total = s.total + 1 := by
    rw [set_total, hv]
    push_cast
    ring
  have hother : ∀ u, u ≠ t → ((s.set t v).thread u).i = (s.thread u).i := by
    intro u hu
    rw [set_of_ne hu]
  have hself : ((s.set t v).thread t).i = (s.thread t).i + 1 := by rw [set_self, hv]
  refine ⟨?_, fun u => ?_, ?_⟩
  · change (s.thread t).loaded + 1 ≤ (s.set t v).total
    omega
  · change min 1 (((s.set t v).thread u).i : ℤ) ≤ (s.thread t).loaded + 1
    omega
  · change min 2 (min (((s.set t v).thread .thr1).i : ℤ) ((s.set t v).thread .thr2).i) ≤
      (s.thread t).loaded + 1
    cases t with
    | thr1 | thr2 => omega

lemma store_bounded (h : Bounded N s) (hN : 0 ≤ N) (hmax : 2 * N ≤ INT_MAX)
    (hpc : (s.thread t).pc = .store) :
    Bounded N { s.set t { s.thread t with pc := .test, i := (s.thread t).i + 1 } with
      glob := int ((s.thread t).loaded + 1) } := by
  have hrun := h.thread t
  simp only [Running, hpc] at hrun
  obtain ⟨hloops, hlt, hone, hle⟩ := hrun
  have hcounted := store_counted (v := { s.thread t with pc := .test, i := (s.thread t).i + 1 })
    rfl hone hle
  have hthread := set_running (v := { s.thread t with pc := .test, i := (s.thread t).i + 1 })
    h.thread (Nat.le_succ _) ⟨hloops, by simpa using hlt⟩
  have hjoined : Joined N (s.set t { s.thread t with pc := .test, i := (s.thread t).i + 1 }) :=
    h.joined.set (by simp [hpc]) (by simp [hpc])
  have hroom : s.total < 2 * N := by
    have h₁ := (h.thread .thr1).le hN
    have h₂ := (h.thread .thr2).le hN
    rw [State.total]
    cases t with
    | thr1 | thr2 => omega
  have hint : int ((s.thread t).loaded + 1) = (s.thread t).loaded + 1 :=
    int_of_nonneg (by omega) (by omega)
  rw [hint]
  exact ⟨hthread, hcounted, hjoined, h.printed⟩

lemma threadStep_bounded (h : Bounded N s) (hN : 0 ≤ N) (hmax : 2 * N ≤ INT_MAX)
    (hx : s.main ≠ .exited) (hf : s.main ≠ .failed) (he : threadStep s t = some s') :
    Bounded N s' := by
  have hrun := h.thread t
  cases hpc : (s.thread t).pc with
  | start =>
    simp only [threadStep, hpc, Option.some.injEq] at he
    simp only [Running, hpc] at hrun
    rw [← he]
    refine set_bounded h (by simp [hpc]) (by simp [hpc]) hrun.symm ?_
    exact ⟨h.joined.loops_eq hpc hx hf, by simpa using hN⟩
  | test =>
    simp only [threadStep, hpc, Option.some.injEq] at he
    simp only [Running, hpc] at hrun
    rw [← he]
    refine set_bounded h (by simp [hpc]) (by simp [hpc]) rfl ?_
    by_cases hlt : ((s.thread t).i : ℤ) < (s.thread t).loops
    · rw [if_pos hlt]
      exact ⟨hrun.1, hrun.1 ▸ hlt⟩
    · rw [if_neg hlt]
      exact Int.le_antisymm hrun.2 (hrun.1 ▸ Int.not_lt.mp hlt)
  | load =>
    simp only [threadStep, hpc, Option.some.injEq] at he
    simp only [Running, hpc] at hrun
    rw [← he]
    refine set_bounded h (by simp [hpc]) (by simp [hpc]) rfl ?_
    exact ⟨hrun.1, hrun.2, h.counted.one t, h.counted.upper⟩
  | store =>
    simp only [threadStep, hpc, Option.some.injEq] at he
    rw [← he]
    exact store_bounded h hN hmax hpc
  | unborn | returned => simp [threadStep, hpc] at he

lemma mainStep_bounded (h : Bounded (loops arg) s) (he : mainStep arg s = some s') :
    Bounded (loops arg) s' := by
  have hj := h.joined
  cases hpc : s.main with
  | init =>
    simp only [Joined, hpc] at hj
    simp only [mainStep, hpc, initStep, Option.some.injEq] at he
    split_ifs at he
    · subst he
      exact h.main rfl rfl trivial h.printed
    · subst he
      exact h.main rfl rfl ⟨rfl, hj⟩ h.printed
  | join t =>
    cases t with
    | thr1 =>
      simp only [Joined, hpc] at hj
      simp only [mainStep, hpc, Option.ite_none_right_eq_some, Option.some.injEq] at he
      obtain ⟨hr, rfl⟩ := he
      exact h.main rfl rfl ⟨hj, hr⟩ h.printed
    | thr2 =>
      simp only [Joined, hpc] at hj
      simp only [mainStep, hpc, Option.ite_none_right_eq_some, Option.some.injEq] at he
      obtain ⟨hr, rfl⟩ := he
      refine h.main rfl rfl (fun t => ?_) h.printed
      cases t with
      | thr1 => exact hj.2
      | thr2 => exact hr
  | print =>
    simp only [Joined, hpc] at hj
    simp only [mainStep, hpc, Option.some.injEq] at he
    subst he
    refine h.main rfl rfl trivial ?_
    have hall : ∀ t, ((s.thread t).i : ℤ) = loops arg := by
      intro t
      have hrun := h.thread t
      simpa only [Running, hj t] using hrun
    have h₁ := hall .thr1
    have h₂ := hall .thr2
    have hupper := h.counted.upper
    have htwo := h.counted.two
    rw [State.total] at hupper
    simp only [Option.mem_def, Option.some.injEq, forall_eq']
    omega
  | create t | exited | failed => simp [mainStep, hpc] at he

lemma createStep_bounded (h : Bounded N s) (he : createStep s = some s') : Bounded N s' := by
  have hj := h.joined
  have hcounted : ∀ t, Counted (s.set t { s.thread t with pc := .start }) :=
    fun t => set_counted h.counted rfl
  have hthread : ∀ t, (s.thread t).pc = .unborn → ∀ u,
      Running N (s.set t { s.thread t with pc := .start }).total
        ((s.set t { s.thread t with pc := .start }).thread u) := by
    intro t hu
    have hrun := h.thread t
    simp only [Running, hu] at hrun
    exact set_threads h.thread rfl hrun
  cases hpc : s.main with
  | create t =>
    simp only [createStep, hpc, Option.some.injEq] at he
    subst he
    cases t with
    | thr1 =>
      simp only [Joined, hpc] at hj
      have h₂ : ((s.set .thr1 { s.thread .thr1 with pc := .start }).thread .thr2).pc = .unborn := by
        rw [set_of_ne (by decide)]
        exact hj.2 .thr2
      exact bounded_of_same (hthread .thr1 (hj.2 .thr1)) (hcounted .thr1) rfl rfl ⟨hj.1, h₂⟩
        h.printed
    | thr2 =>
      simp only [Joined, hpc] at hj
      exact bounded_of_same (hthread .thr2 hj.2) (hcounted .thr2) rfl rfl hj.1 h.printed
  | init | join t | print | exited | failed => simp [createStep, hpc] at he

lemma createFails_bounded (h : Bounded N s) (he : createFails s = some s') : Bounded N s' := by
  cases hpc : s.main with
  | create t =>
    simp only [createFails, hpc, Option.some.injEq] at he
    subst he
    exact h.main rfl rfl trivial h.printed
  | init | join t | print | exited | failed => simp [createFails, hpc] at he

lemma step_bounded (h : Bounded (loops arg) s) (hN : 0 ≤ loops arg)
    (hmax : 2 * loops arg ≤ INT_MAX) (he : step arg s l = some s') : Bounded (loops arg) s' := by
  simp only [step, Option.ite_none_left_eq_some, not_or] at he
  obtain ⟨⟨hx, hf⟩, he⟩ := he
  cases l with
  | main => exact mainStep_bounded h he
  | create => exact createStep_bounded h he
  | createFails => exact createFails_bounded h he
  | threadFunc t => exact threadStep_bounded h hN hmax hx hf he

lemma start_bounded (N : ℤ) : Bounded N start := by
  refine ⟨fun t => rfl, ⟨?_, fun t => ?_, ?_⟩, fun t => rfl, fun v hv => by cases hv⟩
  · decide
  · simp [start]
  · decide

theorem bounded_inductive (hN : 0 ≤ loops arg) (hmax : 2 * loops arg ≤ INT_MAX) :
    (system arg).Inductive (Bounded (loops arg)) where
  initial _ hs := hs ▸ start_bounded _
  step _ _ _ h he := step_bounded h hN hmax he

end UnixProgramming.ThreadInc
