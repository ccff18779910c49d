import UnixProgramming.MultiJoin.OneSweep

/-! Every run of `thread_multijoin` comes to an end: it is never stuck before `main` has
exited, and only a spurious wakeup makes it longer. -/

namespace UnixProgramming.MultiJoin

open Library Library.Transition

variable {n k : ℕ} {args : Fin n → ℤ} {s s' : State n} {i : Fin n} {l : Label n}

def Enabled (args : Fin n → ℤ) (s : State n) : Prop :=
  ∃ l s', l ≠ .spurious ∧ l ≠ .createFails ∧ step args s l = some s'

def Running (s : State n) : Prop :=
  s.main ≠ .exited ∧ s.main ≠ .failed

lemma Running.step (h : Running s) : step args s l = match l with
    | .main => mainStep args s
    | .create => createStep s
    | .createFails => createFails s
    | .resume => resumeStep s
    | .spurious => (s.roster.monitor.wake none).map fun m =>
      { s with roster := s.roster.setMonitor m }
    | .threadFunc i a => (s.roster.act i a).map fun r => { s with roster := r } :=
  if_neg (not_or.mpr h)

lemma main_enabled (h : Running s) (he : ∃ s', mainStep args s = some s') : Enabled args s := by
  obtain ⟨s', he⟩ := he
  exact ⟨.main, s', by simp, by simp, h.step.trans he⟩

lemma thread_enabled (h : Running s) (hs : s.roster.Synced)
    (hi : s.roster.phase i ≠ .unborn ∧ s.roster.phase i ≠ .returned)
    (hl : s.roster.phase i = .lock → s.roster.monitor.owner = none) : Enabled args s := by
  obtain ⟨a, r, hr⟩ := hs.exists_act hi hl
  exact ⟨.threadFunc i a, { s with roster := r }, by simp, by simp,
    h.step.trans (Option.map_eq_some_iff.mpr ⟨r, hr, rfl⟩)⟩

lemma owner_enabled (h : Running s) (hs : s.roster.Synced)
    (ho : s.roster.monitor.owner = some (some i)) : Enabled args s := by
  have hholds := (hs.owner i).mp ho
  apply thread_enabled (i := i) h hs
  · constructor
    · intro hp
      simp [hp, Phase.holds] at hholds
    · intro hp
      simp [hp, Phase.holds] at hholds
  · intro hp
    simp [hp, Phase.holds] at hholds

lemma create_enabled (h : Running s) (hg : Gathering s) (hm : s.main = .create i) :
    Enabled args s := by
  have hu : s.roster.phase i = .unborn := by
    rw [hg.tidy.created h.2, hm]
    exact le_rfl
  obtain ⟨r, hr⟩ : ∃ r, s.roster.create i .asleep = some r := ⟨_, if_pos hu⟩
  exact ⟨.create, _, by simp, by simp, h.step.trans (by simp only [createStep, hm, hr]; rfl)⟩

lemma lock_enabled (h : Running s) (hg : Gathering s) (hm : s.main = .lock) :
    Enabled args s := by
  cases ho : s.roster.monitor.owner with
  | none =>
    have hnot := hg.tidy.waiting.not.mpr (by simp [hm])
    obtain ⟨hb, hw⟩ := not_or.mp hnot
    obtain ⟨m, hlock, -⟩ := Monitor.lock_unlock ho hb hw
    exact main_enabled h (by simp [mainStep, hm, hlock])
  | some t =>
    cases t with
    | none =>
      have hholds := hg.tidy.holder.mp ho
      simp [hm, MainPc.holds] at hholds
    | some i => exact owner_enabled h hg.tidy.sound.synced ho

lemma guard_enabled (h : Running s) (hg : Gathering s) (hm : s.main = .guard) :
    Enabled args s := by
  by_cases hzero : s.roster.unjoined = 0
  · obtain ⟨m, hwait⟩ := Monitor.exists_wait (hg.tidy.holder.mpr (by rw [hm]; rfl))
    exact main_enabled h (by simp [mainStep, hm, hzero, hwait])
  · exact main_enabled h (by simp [mainStep, hm, hzero])

lemma Gathering.awake (hg : Gathering s) (hm : s.main = .waiting)
    (hall : ∀ i, s.roster.phase i = .returned) : none ∉ s.roster.monitor.blocked := by
  intro hb
  have hnone : ¬ 0 < s.roster.unjoined := by
    intro hpos
    obtain ⟨i, hi⟩ := hg.due hb hpos
    simp [hall i] at hi
  have hlate : s.roster.late = Fintype.card (Fin n) := by
    apply census_eq_card.mpr
    intro i
    rw [hall i]
    rfl
  have hpos := hg.enters (by rw [hm]; rfl)
  have hcount := hg.late
  rw [Fintype.card_fin] at hlate
  omega

lemma waiting_enabled (h : Running s) (hg : Gathering s) (hm : s.main = .waiting) :
    Enabled args s := by
  cases ho : s.roster.monitor.owner with
  | some t =>
    cases t with
    | none =>
      have hholds := hg.tidy.holder.mp ho
      simp [hm, MainPc.holds] at hholds
    | some i => exact owner_enabled h hg.tidy.sound.synced ho
  | none =>
    by_cases hw : none ∈ s.roster.monitor.woken
    · obtain ⟨m, hresume⟩ : ∃ m, s.roster.monitor.resume none = some m :=
        ⟨_, dif_pos ⟨hw, ho⟩⟩
      exact ⟨.resume, _, by simp, by simp,
        h.step.trans (by simp only [resumeStep, hm, hresume]; rfl)⟩
    · have hb := (hg.tidy.waiting.mpr hm).resolve_right hw
      obtain ⟨i, hi⟩ : ∃ i, s.roster.phase i ≠ .returned := by
        by_contra hall
        push Not at hall
        exact hg.awake hm hall hb
      have hborn := (hg.tidy.created h.2 i).not.mpr (by simp [hm, MainPc.ahead])
      exact thread_enabled h hg.tidy.sound.synced ⟨hborn, hi⟩ fun _ => ho

lemma Gathering.enabled (hg : Gathering s) (h : Running s) : Enabled args s := by
  cases hm : s.main with
  | init idx => exact main_enabled h (by simp [MultiJoin.mainStep, hm])
  | create i => exact create_enabled h hg hm
  | total => exact main_enabled h (by simp [MultiJoin.mainStep, hm])
  | test => exact main_enabled h (by simp [MultiJoin.mainStep, hm])
  | lock => exact lock_enabled h hg hm
  | guard => exact guard_enabled h hg hm
  | waiting => exact waiting_enabled h hg hm
  | failed => exact absurd hm h.2
  | sweep idx | join i | mark i | unlock | exited =>
    have hearly := hg.main
    simp [hm, MainPc.early] at hearly

lemma Sweeping.join_phase (hk : Sweeping s k) (hm : s.main = .join i) :
    s.roster.phase i = .signal ∨ s.roster.phase i = .returned := by
  have hpoint := hk.point
  simp only [SweepPoint, hm] at hpoint
  have hlate := (hk.alive i hpoint.1.le).not.mp (by simp [hpoint.2])
  have hfree := (hk.synced.owner i).not.mp (by simp [hk.owner])
  cases hp : s.roster.phase i with
  | unborn | start | asleep | lock | mark => simp [hp, Phase.early] at hlate
  | unlock => simp [hp, Phase.holds] at hfree
  | signal => exact Or.inl rfl
  | returned => exact Or.inr rfl

lemma Sweeping.enabled (hk : Sweeping s k) (h : Running s) : Enabled args s := by
  have hpoint := hk.point
  cases hm : s.main with
  | sweep idx => exact main_enabled h (by simp [MultiJoin.mainStep, hm])
  | mark i => exact main_enabled h (by simp [MultiJoin.mainStep, hm])
  | unlock =>
    obtain ⟨m, hunlock⟩ : ∃ m, s.roster.monitor.unlock none = some m := ⟨_, if_pos hk.owner⟩
    exact main_enabled h (by simp [MultiJoin.mainStep, hm, hunlock])
  | join i =>
    rcases hk.join_phase hm with hp | hp
    · exact thread_enabled (i := i) h hk.synced (by simp [hp]) (by simp [hp])
    · exact main_enabled h (by simp [MultiJoin.mainStep, hm, joinStep, hk.tid i, hp])
  | init idx | create i | total | test | lock | guard | waiting | exited | failed =>
    simp only [SweepPoint, hm] at hpoint

lemma Stage.enabled (hs : Stage s) (h : Running s) : Enabled args s := by
  rcases hs with hg | ⟨k, hk⟩ | hd
  · exact hg.enabled h
  · exact hk.enabled h
  · have hm : s.main = .test := hd.main.resolve_right h.1
    exact main_enabled h (by simp [MultiJoin.mainStep, hm])

def mainLeft (s : State n) : ℕ :=
  match s.main with
  | .init idx => 3 * n + 9 + 2 * (n - idx)
  | .create i => 3 * n + 8 + 2 * (n - i)
  | .total => 3 * n + 8
  | .test => if s.numLive > 0 then 3 * n + 7 else 1
  | .lock => 3 * n + 6
  | .guard => 3 * n + 5
  | .waiting => 3 * n + 4
  | .sweep idx => 3 * (n - idx) + 3
  | .join i => 3 * (n - i) + 2
  | .mark i => 3 * (n - i) + 1
  | .unlock => 2
  | .exited | .failed => 0

def left (s : State n) : ℕ :=
  s.roster.toll + mainLeft s

lemma mainStep_left (hs : Stage s) (he : mainStep args s = some s') : left s' + 1 ≤ left s := by
  cases hm : s.main with
  | init idx =>
    simp only [mainStep, hm, Option.some.injEq, initStep] at he
    subst he
    by_cases hidx : idx < n
    · simp only [dif_pos hidx, left, mainLeft, hm, Roster.toll, Roster.setStatus_phase,
        Roster.setStatus_monitor]
      omega
    · simp only [dif_neg hidx, left, mainLeft, hm]
      omega
  | total =>
    simp only [mainStep, hm, Option.some.injEq] at he
    subst he
    simp only [left, mainLeft, hm]
    split_ifs <;> omega
  | test =>
    simp only [mainStep, hm, Option.some.injEq] at he
    subst he
    simp only [left, mainLeft, hm]
    split_ifs <;> simp
  | lock =>
    simp only [mainStep, hm] at he
    obtain ⟨m, hlock, rfl⟩ := Option.map_eq_some_iff.mp he
    obtain ⟨-, -, -, hw⟩ := Monitor.lock_eq_some.mp hlock
    simp only [left, mainLeft, hm, Roster.toll_setMonitor hw]
    omega
  | guard =>
    simp only [mainStep, hm] at he
    split_ifs at he
    · obtain ⟨m, hwait, rfl⟩ := Option.map_eq_some_iff.mp he
      obtain ⟨-, -, -, hw⟩ := Monitor.wait_eq_some.mp hwait
      simp only [left, mainLeft, hm, Roster.toll_setMonitor hw]
      omega
    · obtain rfl := Option.some.inj he
      simp only [left, mainLeft, hm]
      omega
  | sweep idx =>
    simp only [mainStep, hm, Option.some.injEq] at he
    subst he
    simp only [left, sweepPc]
    split_ifs <;> simp only [mainLeft, hm] <;> omega
  | join i =>
    simp only [mainStep, joinStep, hm] at he
    obtain ⟨j, -, he⟩ := Option.bind_eq_some_iff.mp he
    simp only [Option.ite_none_right_eq_some, Option.some.injEq] at he
    obtain ⟨-, rfl⟩ := he
    simp only [left, mainLeft, hm]
    omega
  | mark i =>
    simp only [mainStep, hm, Option.some.injEq] at he
    subst he
    have hi := i.isLt
    simp only [left, mainLeft, hm, Roster.toll, Roster.retire, Roster.setStatus_phase,
      Roster.setStatus_monitor]
    omega
  | unlock =>
    have hswept : s.numLive = 0 := by
      rcases hs with hg | ⟨k, hk⟩ | hd
      · have hearly := hg.main
        simp [hm, MainPc.early] at hearly
      · have hpoint := hk.point
        simp only [SweepPoint, hm] at hpoint
        have hlive := hk.live
        omega
      · exact hd.live
    simp only [mainStep, hm] at he
    obtain ⟨m, hunlock, rfl⟩ := Option.map_eq_some_iff.mp he
    obtain ⟨-, -, -, hw⟩ := Monitor.unlock_eq_some.mp hunlock
    simp only [left, mainLeft, hm, hswept, Roster.toll_setMonitor hw]
    simp
  | create i | waiting | exited | failed => simp [mainStep, hm] at he

lemma resumeStep_left (he : resumeStep s = some s') : left s' + 1 ≤ left s := by
  simp only [resumeStep, Option.ite_none_right_eq_some] at he
  obtain ⟨hm, he⟩ := he
  obtain ⟨m, hresume, rfl⟩ := Option.map_eq_some_iff.mp he
  obtain ⟨⟨hwoken, -⟩, -, -, hw⟩ := Monitor.resume_eq_some.mp hresume
  simp only [left, mainLeft, hm, Roster.toll, Roster.setMonitor_phase, Roster.setMonitor_monitor,
    hw, Finset.mem_erase, ne_eq, not_true_eq_false, false_and, if_false, hwoken, if_true]
  omega

lemma step_left (hs : Stage s) (he : step args s l = some s') :
    left s' + 1 ≤ left s + if l = .spurious then 3 else 0 := by
  simp only [step, Option.ite_none_left_eq_some] at he
  obtain ⟨-, he⟩ := he
  cases l with
  | main => exact mainStep_left hs he
  | create =>
    cases hm : s.main with
    | create i =>
      simp only [createStep, hm] at he
      obtain ⟨r, hr, rfl⟩ := Option.map_eq_some_iff.mp he
      have htoll := Roster.create_toll hr (by simp)
      have hi := i.isLt
      simp only [left, mainLeft, hm, reduceCtorEq, if_false]
      omega
    | _ => simp [createStep, hm] at he
  | createFails =>
    cases hm : s.main with
    | create i =>
      simp only [createFails, hm, Option.some.injEq] at he
      subst he
      simp only [left, mainLeft, hm, reduceCtorEq, if_false]
      omega
    | _ => simp [createFails, hm] at he
  | resume => exact resumeStep_left he
  | spurious =>
    obtain ⟨m, hwake, rfl⟩ := Option.map_eq_some_iff.mp he
    simp only [left, mainLeft, Roster.toll, Roster.setMonitor_phase, Roster.setMonitor_monitor,
      if_true]
    split_ifs <;> omega
  | threadFunc i a =>
    obtain ⟨r, hr, rfl⟩ := Option.map_eq_some_iff.mp he
    have htoll := Roster.act_toll hr
    simp only [left, mainLeft, reduceCtorEq, if_false]
    omega

lemma start_left (n : ℕ) : left (start n) = 26 * n + 9 := by
  simp only [left, mainLeft, start, Roster.toll, Phase.left, Finset.sum_const, Finset.card_univ,
    Fintype.card_fin, Monitor.free_woken, Finset.notMem_empty, if_false, smul_eq_mul]
  omega

/-- A run that is not over can go on without a spurious wakeup, and a run is over after a
number of steps that only spurious wakeups raise. -/
theorem main_completes (args : Fin n → ℤ) (ls : List (Label n)) (s : State n)
    (hr : (system args).Run (start n) ls s) :
    ls.length ≤ 26 * n + 9 + 3 * ls.count .spurious ∧
    (s.main ≠ .exited → s.main ≠ .failed →
      ∃ l s', l ≠ .spurious ∧ l ≠ .createFails ∧ step args s l = some s') := by
  have h₀ : Stage (start n) := Or.inl (start_gathering n)
  constructor
  · have hlen := (stage_inductive args).length_le (μ := left) (a := .spurious) (c := 3)
      (fun s l t hs he => step_left hs he) h₀ hr
    rw [start_left] at hlen
    omega
  · have hs : Stage s := (stage_inductive args).run h₀ hr
    exact fun hx hf => hs.enabled ⟨hx, hf⟩

theorem main_completes_one : ∃ s, (system fun _ : Fin 1 => 3).Run (start 1)
    [.main, .create, .main, .main, .main, .main, .main] s ∧ s.main = .waiting ∧
    ∃ l s', l ≠ .spurious ∧ l ≠ .createFails ∧ step (fun _ : Fin 1 => 3) s l = some s' := by
  have hrun : ((system fun _ : Fin 1 => 3).exec (start 1)
      [.main, .create, .main, .main, .main, .main, .main]).map State.main = some .waiting := by
    decide
  obtain ⟨s, he, hm⟩ := Option.map_eq_some_iff.mp hrun
  have hr := System.run_iff_exec.mpr he
  exact ⟨s, hr, hm, (main_completes (fun _ : Fin 1 => 3) _ s hr).2 (by simp [hm]) (by simp [hm])⟩

end UnixProgramming.MultiJoin
