import UnixProgramming.ThreadCleanup.Model
import Mathlib.Tactic

/-! The thread's block and its mutex at the end of the thread, for every cancellation point
at which a request can be acted on. -/

namespace UnixProgramming.ThreadCleanup

open Library Library.Transition

structure Released (s : State) : Prop where
  block : s.thread.ended = true → s.allocations = 1 ∧ s.frees = 1
  mutex : s.thread.ended = true → s.mtx.owner ≠ some .thr
  unlocks : s.thread = .unlock → s.mtx.owner = some .thr

/-- No request is acted on at the `printf` between `malloc` and the push of the handler. -/
def SparesBlock (s : State) (l : Label) : Prop :=
  l = .cancelled → s.thread ≠ .allocated

instance (s : State) (l : Label) : Decidable (SparesBlock s l) :=
  inferInstanceAs (Decidable (_ → _))

def ThreadPc.holds : ThreadPc → Bool
  | .push | .test | .wait | .completed | .pop | .freeing | .free | .unlocking | .unlock => true
  | .unborn | .malloc | .allocated | .lock | .waiting | .returned | .cancelled => false

def ThreadPc.pushed : ThreadPc → Bool
  | .test | .wait | .waiting | .completed | .pop => true
  | .unborn | .malloc | .allocated | .lock | .push | .freeing | .free | .unlocking | .unlock
  | .returned | .cancelled => false

def ThreadPc.past : ThreadPc → Bool
  | .completed | .pop | .freeing | .free | .unlocking | .unlock => true
  | .unborn | .malloc | .allocated | .lock | .push | .test | .wait | .waiting | .returned
  | .cancelled => false

def ThreadPc.allocations : ThreadPc → ℕ
  | .unborn | .malloc => 0
  | .allocated | .lock | .push | .test | .wait | .waiting | .completed | .pop | .freeing | .free
  | .unlocking | .unlock | .returned | .cancelled => 1

def ThreadPc.frees : ThreadPc → ℕ
  | .unlocking | .unlock | .returned | .cancelled => 1
  | .unborn | .malloc | .allocated | .lock | .push | .test | .wait | .waiting | .completed | .pop
  | .freeing | .free => 0

structure Held (s : State) : Prop where
  owner : s.mtx.owner = some .thr ↔ s.thread.holds = true
  handler : s.handler = s.thread.pushed
  allocations : s.allocations = s.thread.allocations
  frees : s.frees = s.thread.frees

/-- The argument decides between the request and the end of the wait. -/
structure Chosen (argc : ℤ) (s : State) : Prop where
  born : s.main = .create → s.thread = .unborn
  ends : argc = 1 → s.glob = 0 ∧ s.main ≠ .signal ∧ s.main ≠ .setGlob
  cancels : argc ≠ 1 → s.requested = false ∧ s.main ≠ .cancel
  past : s.thread.past = true → s.exiting = false → s.glob ≠ 0

variable {argc : ℤ} {s s' : State} {l : Label} {ls : List Label}

lemma Held.released (h : Held s) : Released s := by
  refine ⟨fun he => ?_, fun he => ?_, fun hu => ?_⟩
  · rw [h.allocations, h.frees]
    cases ht : s.thread <;> simp_all [ThreadPc.ended, ThreadPc.allocations, ThreadPc.frees]
  · rw [ne_eq, h.owner]
    cases ht : s.thread <;> simp_all [ThreadPc.ended, ThreadPc.holds]
  · rw [h.owner, hu]
    rfl

lemma threadStep_held (h : Held s) (he : threadStep s = some s') : Held s' := by
  have ⟨ho, hh, ha, hf⟩ := h
  cases ht : s.thread with
  | malloc =>
    simp only [threadStep, ht, Option.some.injEq] at he
    rw [ht] at ho hh ha hf
    subst he
    exact ⟨ho, hh, congrArg (· + 1) ha, hf⟩
  | allocated | completed | freeing | unlocking =>
    simp only [threadStep, ht, Option.some.injEq] at he
    rw [ht] at ho hh ha hf
    subst he
    exact ⟨ho, hh, ha, hf⟩
  | push | pop =>
    simp only [threadStep, ht, Option.some.injEq] at he
    rw [ht] at ho ha hf
    subst he
    exact ⟨ho, rfl, ha, hf⟩
  | free =>
    simp only [threadStep, ht, Option.some.injEq] at he
    rw [ht] at ho hh ha hf
    subst he
    exact ⟨ho, hh, ha, congrArg (· + 1) hf⟩
  | test =>
    simp only [threadStep, ht, Option.some.injEq] at he
    rw [ht] at ho hh ha hf
    subst he
    by_cases hg : s.glob = 0
    · simp only [hg, if_true]
      exact ⟨ho, hh, ha, hf⟩
    · simp only [hg, if_false]
      exact ⟨ho, hh, ha, hf⟩
  | lock | waiting =>
    simp only [threadStep, ht, Option.map_eq_some_iff] at he
    obtain ⟨m, hm, rfl⟩ := he
    have ho' : m.owner = some .thr := by simp_all
    rw [ht] at hh ha hf
    exact ⟨iff_of_true ho' rfl, hh, ha, hf⟩
  | wait =>
    simp only [threadStep, ht, Option.map_eq_some_iff] at he
    obtain ⟨m, hm, rfl⟩ := he
    obtain ⟨-, ho', -⟩ := Monitor.wait_eq_some.mp hm
    rw [ht] at hh ha hf
    exact ⟨by simp [ho', ThreadPc.holds], hh, ha, hf⟩
  | unlock =>
    simp only [threadStep, ht, Option.map_eq_some_iff] at he
    obtain ⟨m, hm, rfl⟩ := he
    obtain ⟨-, ho', -⟩ := Monitor.unlock_eq_some.mp hm
    rw [ht] at hh ha hf
    cases hx : s.exiting with
    | true => exact ⟨by simp [ho', ThreadPc.holds], hh, ha, hf⟩
    | false => exact ⟨by simp [ho', ThreadPc.holds], hh, ha, hf⟩
  | unborn | returned | cancelled => simp [threadStep, ht] at he

lemma threadStep_frame (he : threadStep s = some s') :
    s.thread ≠ .unborn ∧ s'.main = s.main ∧ s'.glob = s.glob ∧ s'.requested = s.requested ∧
      s'.exiting = s.exiting ∧ (s'.thread.past = true → s.thread.past = true ∨ s.glob ≠ 0) := by
  cases ht : s.thread with
  | malloc | allocated | push | completed | pop | freeing | free | unlocking =>
    simp only [threadStep, ht, Option.some.injEq] at he
    subst he
    simp [ThreadPc.past]
  | test =>
    simp only [threadStep, ht, Option.some.injEq] at he
    subst he
    by_cases hg : s.glob = 0 <;> simp [hg, ThreadPc.past]
  | lock | wait | waiting | unlock =>
    simp only [threadStep, ht, Option.map_eq_some_iff] at he
    obtain ⟨m, -, rfl⟩ := he
    simp [ThreadPc.past]
  | unborn | returned | cancelled => simp [threadStep, ht] at he

lemma threadStep_chosen (h : Chosen argc s) (he : threadStep s = some s') : Chosen argc s' := by
  obtain ⟨hborn, hm, hg, hr, hx, hpast⟩ := threadStep_frame he
  refine ⟨fun hc => ?_, fun ha => ?_, fun ha => ?_, fun hp hn => ?_⟩
  · rw [hm] at hc
    exact absurd (h.born hc) hborn
  · rw [hg, hm]
    exact h.ends ha
  · rw [hr, hm]
    exact h.cancels ha
  · rw [hg]
    rw [hx] at hn
    rcases hpast hp with hp | hne
    · exact h.past hp hn
    · exact hne

lemma exit_held (h : Held s) (hp : s.thread.pushed = true) {m : Monitor Thread}
    (ho : m.owner = some .thr) : Held (exit { s with mtx := m }) := by
  have hh : s.handler = true := h.handler.trans hp
  have ha : s.allocations = 1 := by
    rw [h.allocations]
    cases ht : s.thread <;> simp_all [ThreadPc.pushed, ThreadPc.allocations]
  have hf : s.frees = 0 := by
    rw [h.frees]
    cases ht : s.thread <;> simp_all [ThreadPc.pushed, ThreadPc.frees]
  simp only [exit, hh, if_true]
  exact ⟨iff_of_true ho rfl, rfl, ha, hf⟩

lemma cancelled_waits (h : Chosen argc s) (hreq : s.requested = true) (hx : s.exiting = false) :
    s.thread.past = false := by
  have hargc : argc = 1 := by
    by_contra hne
    have hno := (h.cancels hne).1
    rw [hreq] at hno
    cases hno
  by_contra hp
  exact h.past (Bool.eq_true_of_not_eq_false hp) hx (h.ends hargc).1

lemma cancelledStep_held (h : Held s) (hc : Chosen argc s) (hg : s.thread ≠ .allocated)
    (he : cancelledStep s = some s') : Held s' := by
  simp only [cancelledStep, Option.ite_none_right_eq_some, Bool.not_eq_true] at he
  obtain ⟨⟨hreq, hx⟩, he⟩ := he
  have hpast := cancelled_waits hc hreq hx
  cases ht : s.thread with
  | allocated => exact absurd ht hg
  | wait =>
    simp only [ht, Option.some.injEq] at he
    subst he
    exact exit_held h (by rw [ht]; rfl) (h.owner.mpr (by rw [ht]; rfl))
  | waiting =>
    simp only [ht, Option.map_eq_some_iff] at he
    obtain ⟨m, hm, rfl⟩ := he
    obtain ⟨-, ho, -⟩ := Monitor.resume_eq_some.mp hm
    exact exit_held h (by rw [ht]; rfl) ho
  | completed | freeing | unlocking =>
    rw [ht] at hpast
    cases hpast
  | unborn | malloc | lock | push | test | pop | free | unlock | returned | cancelled =>
    simp [ht] at he

lemma exit_chosen (h : Chosen argc s) (hb : s.thread ≠ .unborn) {m : Monitor Thread} :
    Chosen argc (exit { s with mtx := m }) :=
  ⟨fun hc => absurd (h.born hc) hb, h.ends, h.cancels, nofun⟩

lemma cancelledStep_chosen (h : Chosen argc s) (he : cancelledStep s = some s') :
    Chosen argc s' := by
  simp only [cancelledStep, Option.ite_none_right_eq_some] at he
  obtain ⟨-, he⟩ := he
  cases ht : s.thread with
  | allocated | wait | completed | freeing | unlocking =>
    simp only [ht, Option.some.injEq] at he
    subst he
    exact exit_chosen h (by simp [ht])
  | waiting =>
    simp only [ht, Option.map_eq_some_iff] at he
    obtain ⟨m, -, rfl⟩ := he
    exact exit_chosen h (by simp [ht])
  | unborn | malloc | lock | push | test | pop | free | unlock | returned | cancelled =>
    simp [ht] at he

lemma Held.same (h : Held s) (ho : s'.mtx.owner = s.mtx.owner) (ht : s'.thread = s.thread)
    (hh : s'.handler = s.handler) (ha : s'.allocations = s.allocations)
    (hf : s'.frees = s.frees) : Held s' :=
  ⟨by rw [ho, ht]; exact h.owner, by rw [hh, ht]; exact h.handler,
    by rw [ha, ht]; exact h.allocations, by rw [hf, ht]; exact h.frees⟩

lemma mainStep_sound (h : Held s) (hc : Chosen argc s) (he : mainStep argc s = some s') :
    Held s' ∧ Chosen argc s' := by
  cases hm : s.main with
  | create =>
    simp only [mainStep, hm, Option.some.injEq] at he
    have ⟨ho, hh, ha, hf⟩ := h
    rw [hc.born hm] at ho hh ha hf
    subst he
    refine ⟨⟨ho, hh, ha, hf⟩, nofun, fun h₁ => ⟨(hc.ends h₁).1, nofun, nofun⟩,
      fun h₁ => ⟨(hc.cancels h₁).1, nofun⟩, nofun⟩
  | sleep =>
    simp only [mainStep, hm, Option.some.injEq] at he
    subst he
    refine ⟨h.same rfl rfl rfl rfl rfl, ?_⟩
    by_cases h₁ : argc = 1
    · simp only [if_pos h₁]
      exact ⟨nofun, fun _ => ⟨(hc.ends h₁).1, nofun, nofun⟩, fun hne => absurd h₁ hne, hc.past⟩
    · simp only [if_neg h₁]
      exact ⟨nofun, fun he => absurd he h₁, fun _ => ⟨(hc.cancels h₁).1, nofun⟩, hc.past⟩
  | cancel =>
    simp only [mainStep, hm, Option.some.injEq] at he
    subst he
    refine ⟨h.same rfl rfl rfl rfl rfl, nofun, fun h₁ => ⟨(hc.ends h₁).1, nofun, nofun⟩,
      fun h₁ => absurd hm (hc.cancels h₁).2, hc.past⟩
  | setGlob =>
    simp only [mainStep, hm, Option.some.injEq] at he
    subst he
    refine ⟨h.same rfl rfl rfl rfl rfl, nofun, fun h₁ => absurd hm (hc.ends h₁).2.2,
      fun h₁ => ⟨(hc.cancels h₁).1, nofun⟩, fun _ _ => one_ne_zero⟩
  | join =>
    simp only [mainStep, hm, Option.ite_none_right_eq_some, Option.some.injEq] at he
    obtain ⟨-, rfl⟩ := he
    refine ⟨h.same rfl rfl rfl rfl rfl, nofun, fun h₁ => ⟨(hc.ends h₁).1, nofun, nofun⟩,
      fun h₁ => ⟨(hc.cancels h₁).1, nofun⟩, hc.past⟩
  | signal | exited => simp [mainStep, hm] at he

lemma step_sound (h : Held s) (hc : Chosen argc s) (hg : SparesBlock s l)
    (he : step argc s l = some s') : Held s' ∧ Chosen argc s' := by
  simp only [step, Option.ite_none_left_eq_some] at he
  obtain ⟨-, he⟩ := he
  cases l with
  | main => exact mainStep_sound h hc he
  | createFails =>
    obtain ⟨-, rfl⟩ : s.main = .create ∧ { s with main := .exited } = s' := by
      simpa [createFails] using he
    exact ⟨h.same rfl rfl rfl rfl rfl, nofun, fun h₁ => ⟨(hc.ends h₁).1, nofun, nofun⟩,
      fun h₁ => ⟨(hc.cancels h₁).1, nofun⟩, hc.past⟩
  | signal woken =>
    simp only [signalStep, Option.ite_none_right_eq_some, Option.map_eq_some_iff] at he
    obtain ⟨hm, m, hsig, rfl⟩ := he
    exact ⟨h.same (Monitor.signal_owner hsig) rfl rfl rfl rfl, nofun,
      fun h₁ => absurd hm (hc.ends h₁).2.1, fun h₁ => ⟨(hc.cancels h₁).1, nofun⟩, hc.past⟩
  | thread => exact ⟨threadStep_held h he, threadStep_chosen hc he⟩
  | spurious =>
    obtain ⟨m, hm, rfl⟩ := Option.map_eq_some_iff.mp he
    obtain ⟨-, ho, -⟩ := Monitor.wake_eq_some.mp hm
    exact ⟨h.same ho rfl rfl rfl rfl, hc.born, hc.ends, hc.cancels, hc.past⟩
  | cancelled => exact ⟨cancelledStep_held h hc (hg rfl) he, cancelledStep_chosen hc he⟩

lemma start_held : Held start :=
  ⟨by simp [start, ThreadPc.holds], rfl, rfl, rfl⟩

lemma start_chosen : Chosen argc start :=
  ⟨fun _ => rfl, fun _ => ⟨rfl, nofun, nofun⟩, fun _ => ⟨rfl, nofun⟩, nofun⟩

-- No handler is on the stack yet.
lemma early_cancel_leaks (h : Held s) (hg : ¬ SparesBlock s l) (he : step argc s l = some s') :
    ¬ Released s' := by
  simp only [SparesBlock, Classical.not_imp, not_not] at hg
  obtain ⟨rfl, ht⟩ := hg
  have hh : s.handler = false := h.handler.trans (by rw [ht]; rfl)
  have hf : s.frees = 0 := h.frees.trans (by rw [ht]; rfl)
  simp only [step, cancelledStep, ht, Option.ite_none_left_eq_some, Option.ite_none_right_eq_some,
    Option.some.injEq] at he
  obtain ⟨-, -, rfl⟩ := he
  intro hr
  have hone : s.frees = 1 := (hr.block (by simp [exit, hh, ThreadPc.ended])).2
  omega

theorem released_iff_spares (argc : ℤ) (ls : List Label) (s : State)
    (hr : (system argc).Run start ls s) :
    (system argc).Along Released start ls ↔ (system argc).Guarded SparesBlock start ls := by
  apply System.along_iff_guarded (K := fun s => Held s ∧ Chosen argc s) _ _ _
    ⟨start_held, start_chosen⟩ hr
  · exact fun s h => h.1.released
  · exact fun s l s' h hg he => step_sound h.1 h.2 hg he
  · exact fun s l s' h hg he => early_cancel_leaks h.1 hg he

/-- The thread is cancelled while it waits: it owns the mutex again, frees its block and
unlocks. -/
theorem released_iff_spares_waiting :
    ∃ s, (system 1).Run start [.main, .thread, .thread, .thread, .thread, .thread, .thread,
        .main, .main, .spurious, .cancelled, .thread, .thread, .thread, .thread, .main] s ∧
      ((system 1).Along Released start [.main, .thread, .thread, .thread, .thread, .thread,
          .thread, .main, .main, .spurious, .cancelled, .thread, .thread, .thread, .thread,
          .main] ↔
        (system 1).Guarded SparesBlock start [.main, .thread, .thread, .thread, .thread, .thread,
          .thread, .main, .main, .spurious, .cancelled, .thread, .thread, .thread, .thread,
          .main]) := by
  have hrun : ((system 1).exec start [.main, .thread, .thread, .thread, .thread, .thread,
      .thread, .main, .main, .spurious, .cancelled, .thread, .thread, .thread, .thread,
      .main]).isSome = true := by decide
  obtain ⟨s, hr⟩ := System.exists_run hrun
  exact ⟨s, hr, released_iff_spares 1 _ s hr⟩

theorem printf_before_push_leaks : ∃ s, (system 1).Reachable s ∧ s.thread = .cancelled ∧
    s.allocations = 1 ∧ s.frees = 0 ∧ ¬ Released s := by
  have hrun : ((system 1).exec start [.main, .main, .main, .thread, .cancelled]).map
      (fun s => (s.thread, s.allocations, s.frees)) = some (.cancelled, 1, 0) := by decide
  obtain ⟨s, hs, he⟩ := System.Reachable.observe rfl hrun
  simp only [Prod.mk.injEq] at he
  obtain ⟨ht, ha, hf⟩ := he
  refine ⟨s, hs, ht, ha, hf, fun h => ?_⟩
  have hone := (h.block (by rw [ht]; rfl)).2
  omega

end UnixProgramming.ThreadCleanup
