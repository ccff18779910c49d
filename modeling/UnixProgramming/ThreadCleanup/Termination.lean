import UnixProgramming.ThreadCleanup.Model
import Mathlib.Tactic

/-! The normal end of the thread: `main` signals before it sets `glob`, and holds no mutex
at either. -/

namespace UnixProgramming.ThreadCleanup

open Library Library.Transition

def Hung (s : State) : Prop :=
  s.main = .join ∧ .thr ∈ s.mtx.blocked

def MainPc.signalled : MainPc → Bool
  | .setGlob | .join => true
  | .create | .sleep | .cancel | .signal | .exited => false

/-- The thread does not start to wait once the signal is sent. -/
def WaitsInTime (s : State) (l : Label) : Prop :=
  l = .thread → s.thread = .wait → s.main.signalled = false

instance (s : State) (l : Label) : Decidable (WaitsInTime s l) :=
  inferInstanceAs (Decidable (_ → _))

structure Timely (s : State) : Prop where
  blocked : ∀ t ∈ s.mtx.blocked, t = .thr
  uncancelled : s.main ≠ .cancel
  woken : s.main.signalled = true → .thr ∉ s.mtx.blocked

variable {argc : ℤ} {s s' : State} {l : Label} {ls : List Label}

lemma step_running (he : step argc s l = some s') : s.main ≠ .exited := by
  intro hm
  simp [step, hm] at he

lemma mainStep_signalled (hargc : argc ≠ 1) (hc : s.main ≠ .cancel)
    (he : mainStep argc s = some s') :
    s'.mtx = s.mtx ∧ s'.main ≠ .cancel ∧ (s'.main.signalled = true → s.main.signalled = true) := by
  cases hm : s.main with
  | create | setGlob =>
    simp only [mainStep, hm, Option.some.injEq] at he
    subst he
    simp [MainPc.signalled]
  | sleep =>
    simp only [mainStep, hm, hargc, if_false, Option.some.injEq] at he
    subst he
    simp [MainPc.signalled]
  | join =>
    simp only [mainStep, hm, Option.ite_none_right_eq_some, Option.some.injEq] at he
    obtain ⟨-, rfl⟩ := he
    simp [MainPc.signalled]
  | cancel => exact absurd hm hc
  | signal | exited => simp [mainStep, hm] at he

lemma threadStep_blocked (he : threadStep s = some s') :
    s'.main = s.main ∧ s'.mtx.blocked ⊆ insert .thr s.mtx.blocked ∧
      (s.thread ≠ .wait → s'.mtx.blocked = s.mtx.blocked) := by
  cases ht : s.thread with
  | malloc | allocated | push | test | completed | pop | freeing | free | unlocking =>
    simp only [threadStep, ht, Option.some.injEq] at he
    subst he
    exact ⟨rfl, Finset.subset_insert _ _, fun _ => rfl⟩
  | lock | waiting | unlock =>
    simp only [threadStep, ht, Option.map_eq_some_iff] at he
    obtain ⟨m, hm, rfl⟩ := he
    have hb : m.blocked = s.mtx.blocked := by simp_all
    exact ⟨rfl, hb ▸ Finset.subset_insert _ _, fun _ => hb⟩
  | wait =>
    simp only [threadStep, ht, Option.map_eq_some_iff] at he
    obtain ⟨m, hm, rfl⟩ := he
    obtain ⟨-, -, hb, -⟩ := Monitor.wait_eq_some.mp hm
    exact ⟨rfl, hb.subset, fun h => absurd rfl h⟩
  | unborn | returned | cancelled => simp [threadStep, ht] at he

lemma cancelledStep_blocked (he : cancelledStep s = some s') :
    s'.main = s.main ∧ s'.mtx.blocked = s.mtx.blocked := by
  simp only [cancelledStep, Option.ite_none_right_eq_some] at he
  obtain ⟨-, he⟩ := he
  cases ht : s.thread with
  | allocated | wait | completed | freeing | unlocking =>
    simp only [ht, Option.some.injEq] at he
    subst he
    exact ⟨rfl, rfl⟩
  | waiting =>
    simp only [ht, Option.map_eq_some_iff] at he
    obtain ⟨m, hm, rfl⟩ := he
    obtain ⟨-, -, hb, -⟩ := Monitor.resume_eq_some.mp hm
    exact ⟨rfl, hb⟩
  | unborn | malloc | lock | push | test | pop | free | unlock | returned | cancelled =>
    simp [ht] at he

lemma Timely.not_hung (h : Timely s) : ¬ Hung s := by
  rintro ⟨hm, hb⟩
  exact h.woken (by rw [hm]; rfl) hb

lemma start_timely : Timely start where
  blocked := by simp [start]
  uncancelled := by simp [start]
  woken := by simp [start]

lemma step_timely (hargc : argc ≠ 1) (h : Timely s) (hg : WaitsInTime s l)
    (he : step argc s l = some s') : Timely s' := by
  simp only [step, if_neg (step_running he)] at he
  cases l with
  | main =>
    obtain ⟨hm, hc, hs⟩ := mainStep_signalled hargc h.uncancelled he
    exact ⟨hm ▸ h.blocked, hc, fun hsig => hm ▸ h.woken (hs hsig)⟩
  | createFails =>
    obtain ⟨-, rfl⟩ : s.main = .create ∧ { s with main := .exited } = s' := by
      simpa [createFails] using he
    exact ⟨h.blocked, nofun, nofun⟩
  | signal woken =>
    simp only [signalStep, Option.ite_none_right_eq_some, Option.map_eq_some_iff] at he
    obtain ⟨-, m, hm, rfl⟩ := he
    have hb : .thr ∉ m.blocked := Monitor.signal_unblocks h.blocked hm
    exact ⟨fun t ht => h.blocked t (Monitor.signal_blocked hm ht), nofun, fun _ => hb⟩
  | thread =>
    obtain ⟨hm, hsub, hb⟩ := threadStep_blocked he
    refine ⟨fun t ht => ?_, hm ▸ h.uncancelled, fun hsig => ?_⟩
    · rcases Finset.mem_insert.mp (hsub ht) with rfl | ht
      · rfl
      · exact h.blocked t ht
    · rw [hm] at hsig
      have hw : s.thread ≠ .wait := by
        intro hw
        rw [hg rfl hw] at hsig
        cases hsig
      rw [hb hw]
      exact h.woken hsig
  | spurious =>
    obtain ⟨m, hm, rfl⟩ := Option.map_eq_some_iff.mp he
    obtain ⟨-, -, hb, -⟩ := Monitor.wake_eq_some.mp hm
    have hsub : m.blocked ⊆ s.mtx.blocked := hb ▸ Finset.erase_subset _ _
    exact ⟨fun t ht => h.blocked t (hsub ht), h.uncancelled, fun hs ht => h.woken hs (hsub ht)⟩
  | cancelled =>
    obtain ⟨hm, hb⟩ := cancelledStep_blocked he
    exact ⟨hb ▸ h.blocked, hm ▸ h.uncancelled, fun hs => hb ▸ h.woken (hm ▸ hs)⟩

-- The thread blocks after the signal, and `main` goes on to join it.
lemma late_wait_hangs (hg : ¬ WaitsInTime s l) (he : step argc s l = some s') :
    ∃ t, (system argc).Reaches s' t ∧ Hung t := by
  have hx := step_running he
  simp only [WaitsInTime, Classical.not_imp, Bool.not_eq_false] at hg
  obtain ⟨rfl, hw, hsig⟩ := hg
  simp only [step, if_neg hx, threadStep, hw, Option.map_eq_some_iff] at he
  obtain ⟨m, hm, rfl⟩ := he
  obtain ⟨-, -, hb, -⟩ := Monitor.wait_eq_some.mp hm
  have ht : .thr ∈ m.blocked := by
    rw [hb]
    exact Finset.mem_insert_self _ _
  let waiting := { s with mtx := m, thread := .waiting }
  have hjoin : s.main = .setGlob ∨ s.main = .join := by
    cases hmain : s.main <;> simp_all [MainPc.signalled]
  rcases hjoin with hset | hjoin
  · have hrun : (system argc).exec waiting [.main] =
        some { waiting with glob := 1, main := .join } := by
      simp [System.exec, system, step, mainStep, hset, waiting]
    exact ⟨_, .exec hrun, rfl, ht⟩
  · exact ⟨waiting, .refl, hjoin, ht⟩

theorem hangs_only_late (hargc : argc ≠ 1) :
    (∀ ls t, (system argc).Run start ls t → (system argc).Guarded WaitsInTime start ls →
      (system argc).Along (fun s => ¬ Hung s) start ls) ∧
    ∀ s l s', (system argc).Reachable s → ¬ WaitsInTime s l →
      (system argc).step s l = some s' → ∃ t, (system argc).Reaches s' t ∧ Hung t := by
  constructor
  · intro ls t hr hg
    exact hg.along (fun s h => Timely.not_hung h) (fun s l s' h hc he => step_timely hargc h hc he)
      start_timely hr
  · intro s l s' _ hg he
    exact late_wait_hangs hg he

theorem hangs_only_late_resumed :
    (system 2).Along (fun s => ¬ Hung s) start
      [.main, .thread, .thread, .thread, .thread, .thread, .thread, .main, .signal (some .thr),
        .main, .thread, .thread, .thread, .thread, .thread, .thread, .thread, .thread, .main] := by
  obtain ⟨t, ht⟩ : ∃ t, (system 2).Run start
      [.main, .thread, .thread, .thread, .thread, .thread, .thread, .main, .signal (some .thr),
        .main, .thread, .thread, .thread, .thread, .thread, .thread, .thread, .thread,
        .main] t := System.exists_run (by decide)
  exact (hangs_only_late (by decide)).1 _ t ht (by decide)

theorem signal_before_glob_hangs :
    ¬ ∀ (argc : ℤ) (s : State), argc ≠ 1 → (system argc).Reachable s → ¬ Hung s := by
  intro h
  have hrun : ((system 2).exec start
      [.main, .thread, .thread, .thread, .thread, .thread, .thread, .main, .signal (some .thr),
        .thread, .thread, .thread, .main]).map (fun s => (s.main, s.mtx.blocked)) =
      some (.join, {.thr}) := by decide
  obtain ⟨s, hs, he⟩ := System.Reachable.observe rfl hrun
  obtain ⟨hm, hb⟩ := Prod.mk.inj he
  exact h 2 s (by decide) hs ⟨hm, by simp [hb]⟩

end UnixProgramming.ThreadCleanup
