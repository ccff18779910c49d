import UnixProgramming.ThreadServer.Slots

/-! Whether `main` can be left in `sigsuspend` while a slot is free. -/

namespace UnixProgramming.ThreadServer

open Library Library.Transition

variable {s s' : State} {t u : ℕ} {w v : Worker} {i : Slot}

def Target.reachesMain : Target → Bool
  | .process | .thread .main => true
  | .thread (.worker _) => false

def Notified (s : State) : Prop :=
  ∃ target, s.pending target = true ∧ target.reachesMain = true

-- The worker has its `raise` still before it.
def WorkerPc.raises : WorkerPc → Bool
  | .start | .read | .closing | .reply | .clear | .raise => true
  | .failed | .raised | .exited | .returned => false

def WillNotify (s : State) : Prop :=
  ∃ t w, s.threads t = some w ∧ w.pc.raises = true ∧ (raiseTarget t).reachesMain = true

def Vacant (s : State) : Prop :=
  ∃ i, (s.socks i).on = 0

structure Stuck (s : State) : Prop where
  alive : s.alive = true
  main : s.main = .suspended
  notified : ¬ Notified s
  sending : ¬ WillNotify s
  vacant : Vacant s

/-- `main` suspends only while it is notified or no slot is free, and while it is
suspended without a notification no worker frees a slot; nor does a worker take
the process's signal from it when a slot is free. -/
def Wakes (s : State) : Label → Prop
  | .main => s.main = .busy → Notified s ∨ ¬ Vacant s
  | .worker t => s.main = .suspended →
    (∃ w, s.threads t = some w ∧ (w.pc = .failed ∨ w.pc = .clear)) → Notified s
  | .deliver (.worker t) => s.main = .suspended → s.pending (.thread (.worker t)) = false →
    s.pending (.thread .main) = true ∨ ¬ Vacant s
  | _ => True

lemma not_willNotify : ¬ WillNotify s := by
  rintro ⟨_, _, _, _, hm⟩
  cases hm

lemma Notified.congr (h : Notified s) (hp : s'.pending = s.pending) : Notified s' := by
  obtain ⟨target, ht, hm⟩ := h
  exact ⟨target, hp ▸ ht, hm⟩

lemma notified_iff :
    Notified s ↔ s.pending .process = true ∨ s.pending (.thread .main) = true := by
  constructor
  · rintro ⟨_ | _ | _, ht, hm⟩
    · exact Or.inl ht
    · exact Or.inr ht
    · cases hm
  · rintro (ht | ht)
    · exact ⟨_, ht, rfl⟩
    · exact ⟨_, ht, rfl⟩

lemma stuck_iff (ha : s.alive = true) :
    Stuck s ↔ s.main = .suspended ∧ ¬ Notified s ∧ Vacant s := by
  constructor
  · intro h
    exact ⟨h.main, h.notified, h.vacant⟩
  · rintro ⟨hm, hn, hv⟩
    exact ⟨ha, hm, hn, not_willNotify, hv⟩

lemma Stuck.of_frame (h : Stuck s') (ha : s.alive = true)
    (ho : ∀ i, (s'.socks i).on = (s.socks i).on)
    (hp : ∀ target, s.pending target = true → s'.pending target = true)
    (hm : s'.main = .suspended → s.main = .suspended) : Stuck s := by
  refine (stuck_iff ha).mpr ⟨hm h.main, ?_, ?_⟩
  · rintro ⟨target, ht, hr⟩
    exact h.notified ⟨target, hp target ht, hr⟩
  · obtain ⟨i, hi⟩ := h.vacant
    exact ⟨i, (ho i).symm.trans hi⟩

lemma mainStep_stuck (ha : s.alive = true) (he : mainStep s = some s') :
    Stuck s' ↔ ¬ Wakes s .main := by
  have hne : s'.main ≠ .suspended → s.main ≠ .busy → (Stuck s' ↔ ¬ Wakes s .main) := by
    intro hs hm
    constructor
    · intro h
      exact absurd h.main hs
    · intro h
      exact absurd (fun hb => absurd hb hm) h
  cases mainStep_cases he with
  | finds _ hm | passes hm | fills hm | assigns hm | detaches hm =>
    apply hne
    · exact fun hc => by cases hc
    · simp [hm]
  | suspends hm =>
    have hframe : Stuck { s with main := .suspended } ↔ ¬ Notified s ∧ Vacant s := by
      rw [stuck_iff (by exact ha)]
      exact ⟨fun h => h.2, fun h => ⟨rfl, h⟩⟩
    rw [hframe]
    simp only [Wakes, hm, true_imp_iff, not_or, not_not]

lemma workerStep_stuck (ha : s.alive = true) (hs : ¬ Stuck s) (ht : s.threads t = some w)
    (he : workerStep s t w = some s') : Stuck s' ↔ ¬ Wakes s (.worker t) := by
  have hkeep : w.pc ≠ .failed → w.pc ≠ .clear → (Stuck s' → Stuck s) →
      (Stuck s' ↔ ¬ Wakes s (.worker t)) := by
    intro hf hc h
    constructor
    · intro h'
      exact absurd (h h') hs
    · intro hw
      refine absurd ?_ hw
      rintro - ⟨v, hv, hpc⟩
      rw [ht] at hv
      cases hv
      rcases hpc with hpc | hpc
      · exact absurd hpc hf
      · exact absurd hpc hc
  cases workerStep_cases he with
  | starts hpc | closes hpc | returns hpc =>
    apply hkeep (by simp [hpc]) (by simp [hpc])
    exact fun h => h.of_frame ha (fun _ => rfl) (fun _ hp => hp) fun hm => hm
  | frees hpc =>
    have hpc' : w.pc = .failed ∨ w.pc = .clear := hpc.imp And.left And.left
    rw [stuck_iff (by exact ha)]
    simp only [Wakes, Classical.not_imp]
    constructor
    · rintro ⟨hm, hn, -⟩
      exact ⟨hm, ⟨w, ht, hpc'⟩, fun h => hn (h.congr rfl)⟩
    · rintro ⟨hm, -, hn⟩
      exact ⟨hm, fun h => hn (h.congr rfl), w.slot, by simp [State.setOn]⟩
  | raises hpc =>
    apply hkeep (by simp [hpc]) (by simp [hpc])
    refine fun h => h.of_frame ha (fun _ => rfl) (fun target hp => ?_) fun hm => hm
    by_cases ht' : target = raiseTarget t
    · simp [ht']
    · simpa [ht'] using hp

lemma deliverStep_worker (he : deliverStep s (.worker t) = some s') :
    ∃ target, s.pending target = true ∧ s' = s.setPending target false ∧
      target = if s.pending (.thread (.worker t)) then Target.thread (.worker t) else .process := by
  obtain ⟨target, hp, -, ht, rfl⟩ := deliverStep_cases he
  refine ⟨target, hp, ?_, ht⟩
  rw [if_neg fun h => by cases h.1]
  rfl

lemma deliverStep_stuck {t : Thread} (ha : s.alive = true) (hs : ¬ Stuck s)
    (he : deliverStep s t = some s') : Stuck s' ↔ ¬ Wakes s (.deliver t) := by
  cases t with
  | main =>
    obtain ⟨_, -, -, -, rfl⟩ := deliverStep_cases he
    constructor
    · intro h
      have hm := h.main
      dsimp only at hm
      split_ifs at hm with hc
      exact absurd ⟨rfl, hm⟩ hc
    · intro h
      exact absurd trivial h
  | worker t =>
    obtain ⟨target, hp, rfl, htarget⟩ := deliverStep_worker he
    rw [stuck_iff (by exact ha)]
    simp only [Wakes, Classical.not_imp, not_or, not_not]
    cases hown : s.pending (.thread (.worker t)) with
    | true =>
      rw [hown, if_pos rfl] at htarget
      subst htarget
      constructor
      · rintro ⟨hm, hn, hv⟩
        refine absurd ((stuck_iff ha).mpr ⟨hm, fun h => hn ?_, hv⟩) hs
        rw [notified_iff] at h ⊢
        simpa using h
      · rintro ⟨-, hf, -⟩
        cases hf
    | false =>
      rw [hown, if_neg Bool.false_ne_true] at htarget
      subst htarget
      have hvac : Vacant (s.setPending .process false) ↔ Vacant s := Iff.rfl
      simp [notified_iff, hvac]

lemma step_stuck {l : Label} (hs : ¬ Stuck s) (he : step s l = some s') :
    Stuck s' ↔ ¬ Wakes s l := by
  obtain ⟨ha, hm⟩ := step_cases he
  have hkeep : (Stuck s' → Stuck s) → Wakes s l → (Stuck s' ↔ ¬ Wakes s l) := by
    intro h hw
    exact ⟨fun h' => absurd (h h') hs, fun hn => absurd hw hn⟩
  cases hm with
  | main hm => exact mainStep_stuck ha hm
  | accept hm =>
    obtain ⟨j, r, hr, hc⟩ := acceptStep_cases hm
    apply hkeep _ trivial
    intro h
    have hm' := h.main
    rcases hc with ⟨-, rfl⟩ | ⟨-, rfl⟩
    · dsimp only at hm'
      split_ifs at hm'
    · cases hm'
  | create hm =>
    obtain ⟨j, -, rfl⟩ := createStep_cases hm
    exact hkeep (fun h => by cases h.main) trivial
  | dies hl =>
    refine hkeep (fun h => by cases h.alive) ?_
    cases l <;> trivial
  | worker ht hw => exact workerStep_stuck ha hs ht hw
  | read | write =>
    exact hkeep (fun h => h.of_frame ha (fun _ => rfl) (fun _ hp => hp) fun hm => hm) trivial
  | @kill target =>
    apply hkeep _ trivial
    refine fun h => h.of_frame ha (fun _ => rfl) (fun o hp => ?_) fun hm => hm
    by_cases ho : o = target
    · simp [ho]
    · simpa [ho] using hp
  | deliver hd => exact deliverStep_stuck ha hs hd

theorem never_stuck_iff (lfd : ℤ) (inherited : Finset ℤ) (ls : List Label) (s : State)
    (hr : (system lfd inherited).Run (start lfd inherited) ls s) :
    (system lfd inherited).Along (fun r => ¬ Stuck r) (start lfd inherited) ls ↔
      (system lfd inherited).Guarded Wakes (start lfd inherited) ls := by
  have h₀ : ¬ Stuck (start lfd inherited) := fun h => by cases h.main
  apply System.along_iff_guarded (K := fun r => ¬ Stuck r) (fun _ h => h) _ _ h₀ hr
  · intro s l t hs hc he ht
    exact (step_stuck hs he).mp ht hc
  · intro s l t hs hc he ht
    exact ht ((step_stuck hs he).mpr hc)

/-- All slots are taken, `main` suspends, a worker frees its slot and a signal from outside wakes
`main`. -/
def woken : List Label :=
  [.main, .accept 5 7, .create, .main, .main, .main, .main, .accept 6 8, .create, .main, .main,
    .main, .main, .main, .accept 7 9, .create, .main, .main, .main, .main, .main, .main, .main,
    .worker 0, .read 0 .eof, .worker 0, .kill .process, .worker 0, .worker 0,
    .deliver (.worker 0), .deliver .main, .main]

theorem never_stuck_iff_accepted : ∃ s,
    (system 3 {0, 1, 2}).Run (start 3 {0, 1, 2}) woken s ∧ s.main = .accept 0 ∧
    ((system 3 {0, 1, 2}).Along (fun r => ¬ Stuck r) (start 3 {0, 1, 2}) woken ↔
      (system 3 {0, 1, 2}).Guarded Wakes (start 3 {0, 1, 2}) woken) := by
  have hrun : ((system 3 {0, 1, 2}).exec (start 3 {0, 1, 2}) woken).map (fun s => s.main) =
      some (.accept 0) := by decide
  obtain ⟨s, hs, hm⟩ := Option.map_eq_some_iff.mp hrun
  have hr := System.run_iff_exec.mpr hs
  exact ⟨s, hr, hm, never_stuck_iff 3 {0, 1, 2} _ s hr⟩

theorem suspended_with_free_slot : ∃ s, (system 3 {0, 1, 2}).Reachable s ∧ Stuck s := by
  have hrun : ((system 3 {0, 1, 2}).exec (start 3 {0, 1, 2})
      [.main, .accept 5 7, .create, .main, .main,
        .main, .main, .accept 6 8, .create, .main, .main,
        .main, .main, .main, .accept 7 9, .create, .main, .main,
        .main, .main, .main, .main, .main,
        .worker 0, .read 0 .eof, .worker 0, .worker 0, .worker 0, .deliver (.worker 0),
        .worker 0]).map
      (fun s => (s.alive, s.main, s.pending .process, s.pending (.thread .main),
        (s.socks 0).on)) = some (true, .suspended, false, false, 0) := by decide
  obtain ⟨s, hs, he⟩ := System.Reachable.observe rfl hrun
  simp only [Prod.mk.injEq] at he
  obtain ⟨ha, hm, hp, hq, hon⟩ := he
  refine ⟨s, hs, (stuck_iff ha).mpr ⟨hm, ?_, 0, hon⟩⟩
  rw [notified_iff, hp, hq]
  simp

end UnixProgramming.ThreadServer
