import UnixProgramming.ThreadServer.Slots

/-! Slot accounting: a set flag stands for a worker that has not cleared it. -/

namespace UnixProgramming.ThreadServer

open Library Library.Transition

variable {s s' : State} {t u : ℕ} {w v : Worker} {i : Slot}

def Occupied (s : State) (i : Slot) : Prop :=
  ∃ t w, s.threads t = some w ∧ w.slot = i ∧ w.pc.live = true

structure Accounted (s : State) : Prop where
  flag : (∀ j, s.main ≠ .assign j) → ∀ i, (s.socks i).on = 1 ↔ Occupied s i
  idle : (∀ t w, s.threads t = some w → w.pc.ended = true) → (∃ k, s.main = .scan k) →
    ∀ i, (s.socks i).on = 0

/-- `main` executes `on = 1` before the worker of the slot executes `on = 0`. -/
def SetsFirst (s : State) (l : Label) : Prop :=
  ∀ i, s.main = .assign i → l = .main → Occupied s i

structure Balanced (s : State) : Prop where
  exclusive : Exclusive s
  occupied : ∀ i, (s.socks i).on = 1 → Occupied s i

lemma ended_not_live {pc : WorkerPc} (h : pc.ended = true) : pc.live = false := by
  cases pc <;> first | rfl | cases h

lemma Balanced.accounted (h : Balanced s) : Accounted s := by
  have hflag : (∀ j, s.main ≠ .assign j) → ∀ i, (s.socks i).on = 1 ↔ Occupied s i := by
    refine fun hm i => ⟨h.occupied i, ?_⟩
    rintro ⟨t, w, ht, rfl, hl⟩
    rcases h.exclusive.busy t w ht hl with hon | ha
    · exact hon
    · exact absurd ha (hm _)
  refine ⟨hflag, fun hend _ i => ?_⟩
  rcases h.exclusive.flag i with hon | hon
  · exact hon
  · obtain ⟨t, w, ht, -, hl⟩ := h.occupied i hon
    rw [ended_not_live (hend t w ht)] at hl
    cases hl

lemma start_balanced (lfd : ℤ) (inherited : Finset ℤ) : Balanced (start lfd inherited) where
  exclusive := start_exclusive lfd inherited
  occupied _ hon := by cases hon

lemma Occupied.congr (h : Occupied s i) (ht : s'.threads = s.threads) : Occupied s' i := by
  obtain ⟨t, w, hw, hs⟩ := h
  exact ⟨t, w, ht ▸ hw, hs⟩

lemma Occupied.setWorker (h : Occupied s i) {pc : WorkerPc} (ht : s.threads t = some w)
    (hl : w.slot = i → w.pc.live = true → pc.live = true) :
    Occupied (s.setWorker t { w with pc := pc }) i := by
  obtain ⟨u, v, hu, hv, hlive⟩ := h
  by_cases hut : u = t
  · subst hut
    rw [ht] at hu
    cases hu
    exact ⟨u, { w with pc := pc }, by simp, hv, hl hv hlive⟩
  · exact ⟨u, v, by simpa [hut] using hu, hv, hlive⟩

lemma mainStep_occupied (h : ∀ i, (s.socks i).on = 1 → Occupied s i) (hc : SetsFirst s .main)
    (he : mainStep s = some s') : ∀ i, (s'.socks i).on = 1 → Occupied s' i := by
  cases mainStep_cases he with
  | @assigns i hm =>
    intro j hj
    by_cases hji : j = i
    · subst hji
      exact hc j hm rfl
    · apply h j
      simpa [State.setOn, hji] using hj
  | finds | passes | fills | detaches | suspends => exact h

lemma workerStep_occupied (h : ∀ i, (s.socks i).on = 1 → Occupied s i)
    (ht : s.threads t = some w) (he : workerStep s t w = some s') :
    ∀ i, (s'.socks i).on = 1 → Occupied s' i := by
  intro i hi
  cases workerStep_cases he with
  | starts => exact (h i hi).setWorker ht fun _ _ => rfl
  | frees =>
    have hne : i ≠ w.slot := by
      rintro rfl
      simp [State.setOn] at hi
    have hocc : Occupied (s.setOn w.slot 0) i :=
      (h i (by simpa [State.setOn, hne] using hi)).congr rfl
    exact hocc.setWorker ht fun hs => absurd hs.symm hne
  | closes =>
    have hocc : Occupied (s.setWorker t { w with pc := .clear }) i :=
      (h i hi).setWorker ht fun _ _ => rfl
    exact hocc.congr rfl
  | raises hpc =>
    have hocc : Occupied (s.setPending (raiseTarget t) true) i := (h i hi).congr rfl
    apply hocc.setWorker ht
    rw [hpc]
    exact fun _ hl => by cases hl
  | returns hpc =>
    apply (h i hi).setWorker ht
    rw [hpc]
    exact fun _ hl => by cases hl

lemma step_balanced {l : Label} (h : Balanced s) (hc : SetsFirst s l) (he : step s l = some s') :
    Balanced s' := by
  refine ⟨(exclusive_inductive 0 ∅).step s l s' h.exclusive he, ?_⟩
  obtain ⟨-, hm⟩ := step_cases he
  cases hm with
  | main hm => exact mainStep_occupied h.occupied hc hm
  | accept hm =>
    obtain ⟨j, r, hr, hs⟩ := acceptStep_cases hm
    obtain ⟨ht, -, -, ho, -⟩ := acceptInto_frame hr
    intro i hi
    rcases hs with ⟨-, rfl⟩ | ⟨-, rfl⟩ <;>
      exact (h.occupied i ((ho i).symm.trans hi)).congr ht
  | create hm =>
    obtain ⟨j, -, rfl⟩ := createStep_cases hm
    intro i hi
    have hon : (s.socks i).on = 1 := by
      by_cases hj : i = j <;> simpa [hj] using hi
    obtain ⟨u, v, hu, hv⟩ := h.occupied i hon
    have hne : u ≠ s.spawned := by
      rintro rfl
      simp [h.exclusive.spawned _ le_rfl] at hu
    exact ⟨u, v, by simpa [hne] using hu, hv⟩
  | worker ht hw => exact workerStep_occupied h.occupied ht hw
  | read ht _ hp =>
    intro i hi
    apply (h.occupied i hi).setWorker ht
    intro _ _
    fin_cases hp <;> rfl
  | write ht =>
    intro i hi
    exact (h.occupied i hi).setWorker ht fun _ _ => rfl
  | deliver hd =>
    obtain ⟨_, -, -, -, rfl⟩ := deliverStep_cases hd
    exact fun i hi => (h.occupied i hi).congr rfl
  | dies | kill => exact fun i hi => (h.occupied i hi).congr rfl

lemma sets_last_unbalanced {l : Label} (hc : ¬ SetsFirst s l) (he : step s l = some s') :
    ¬ Accounted s' := by
  simp only [SetsFirst, not_forall] at hc
  obtain ⟨i, hi, rfl, hocc⟩ := hc
  obtain ⟨-, hm⟩ := step_cases he
  cases hm with
  | main hm =>
    simp only [mainStep, hi, Option.some.injEq] at hm
    subst hm
    intro ha
    have hon : ((s.setOn i 1).socks i).on = 1 := by simp [State.setOn]
    have := (ha.flag (fun j hj => by cases hj) i).mp hon
    exact hocc (this.congr rfl)
  | dies hl => cases hl

theorem accounted_iff (lfd : ℤ) (inherited : Finset ℤ) (ls : List Label) (s : State)
    (hr : (system lfd inherited).Run (start lfd inherited) ls s) :
    (system lfd inherited).Along Accounted (start lfd inherited) ls ↔
      (system lfd inherited).Guarded SetsFirst (start lfd inherited) ls :=
  System.along_iff_guarded (K := Balanced) (fun _ h => h.accounted)
    (fun _ _ _ h hc he => step_balanced h hc he)
    (fun _ _ _ _ hc he => sets_last_unbalanced hc he) (start_balanced lfd inherited) hr

theorem accounted_iff_accepted : ∃ s,
    (system 3 {0, 1, 2}).Run (start 3 {0, 1, 2}) [.main, .accept 5 7, .create, .main] s ∧
    ((system 3 {0, 1, 2}).Along Accounted (start 3 {0, 1, 2})
        [.main, .accept 5 7, .create, .main] ↔
      (system 3 {0, 1, 2}).Guarded SetsFirst (start 3 {0, 1, 2})
        [.main, .accept 5 7, .create, .main]) := by
  have hrun : ((system 3 {0, 1, 2}).exec (start 3 {0, 1, 2})
      [.main, .accept 5 7, .create, .main]).isSome = true := by decide
  obtain ⟨s, hr⟩ := System.exists_run hrun
  exact ⟨s, hr, accounted_iff 3 {0, 1, 2} _ s hr⟩

/-- The worker ends before `main` writes `on = 1`, and the slot stays taken. -/
theorem lost_slot : ∃ s, (system 3 {0, 1, 2}).Reachable s ∧ s.main = .scan 0 ∧
    (∀ t w, s.threads t = some w → w.pc.ended = true) ∧ (s.socks 0).on = 1 ∧
    ¬ Accounted s := by
  have hrun : ((system 3 {0, 1, 2}).exec (start 3 {0, 1, 2})
      [.main, .accept 5 7, .create, .worker 0, .read 0 .eof, .worker 0, .worker 0, .worker 0,
        .deliver (.worker 0), .worker 0, .main, .main]).map
      (fun s => (s.main, (s.socks 0).on, s.spawned, s.threads 0)) =
        some (.scan 0, 1, 1, some ⟨0, some (.connection 0), .returned⟩) := by decide
  obtain ⟨s, hs, he⟩ := System.Reachable.observe rfl hrun
  simp only [Prod.mk.injEq] at he
  obtain ⟨hm, hon, hn, ht⟩ := he
  have hend : ∀ t w, s.threads t = some w → w.pc.ended = true := by
    intro t w hw
    by_cases h0 : t = 0
    · rw [h0, ht] at hw
      cases hw
      rfl
    · have hx := (exclusive_inductive 3 {0, 1, 2}).reachable hs
      rw [hx.spawned t (by omega)] at hw
      cases hw
  refine ⟨s, hs, hm, hend, hon, fun ha => ?_⟩
  have h0 : (s.socks 0).on = 0 := ha.idle hend ⟨0, hm⟩ 0
  omega

end UnixProgramming.ThreadServer
