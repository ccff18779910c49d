import UnixProgramming.JoinTerm.Accounting

/-! The joiner is never stuck: no wakeup is lost, and the thread that it joins under
the mutex does not need it. -/

namespace UnixProgramming.JoinTerm

open Library Library.Transition

variable {n : ℕ} {s s' : State n} {i : Fin n}

lemma due_monitor {r : Roster (Fin n)} {m : Monitor (Option (Fin n))} (h : r.Due)
    (hb : none ∈ m.blocked → none ∈ r.monitor.blocked) : (r.setMonitor m).Due :=
  fun hm hu => h (hb hm) hu

lemma joinerStep_due (hk : Kept s) (hd : s.roster.Due) (he : joinerStep s = some s') :
    s'.roster.Due := by
  cases hm : s.joiner with
  | test | sweep =>
    simp only [joinerStep, hm, Option.some.injEq] at he
    subst he
    exact hd
  | lock =>
    simp only [joinerStep, hm] at he
    obtain ⟨m, hlock, rfl⟩ := Option.map_eq_some_iff.mp he
    obtain ⟨-, -, hb, -⟩ := Monitor.lock_eq_some.mp hlock
    apply due_monitor hd
    rw [hb]
    exact id
  | guard =>
    simp only [joinerStep, hm] at he
    split_ifs at he with hzero
    · obtain ⟨m, -, rfl⟩ := Option.map_eq_some_iff.mp he
      intro _ hu
      exact absurd hzero (ne_of_gt hu)
    · obtain rfl := Option.some.inj he
      exact hd
  | join i =>
    simp only [joinerStep, joinStep, hm] at he
    obtain ⟨k, -, he⟩ := Option.bind_eq_some_iff.mp he
    simp only [Option.ite_none_right_eq_some, Option.some.injEq] at he
    obtain ⟨-, rfl⟩ := he
    exact hd
  | mark i =>
    simp only [joinerStep, hm, Option.some.injEq] at he
    subst he
    -- the joiner runs, so it does not wait
    intro hb
    have hwait := hk.waiting.mp (Or.inl hb)
    rw [hm] at hwait
    cases hwait
  | unlock =>
    simp only [joinerStep, hm] at he
    obtain ⟨m, hunlock, rfl⟩ := Option.map_eq_some_iff.mp he
    obtain ⟨-, -, hb, -⟩ := Monitor.unlock_eq_some.mp hunlock
    apply due_monitor hd
    rw [hb]
    exact id
  | unborn | waiting | returned => simp [joinerStep, hm] at he

lemma create_due {r : Roster (Fin n)} (hd : s.roster.Due) (hr : s.roster.create i .start = some r) :
    r.Due := by
  simp only [Roster.create, Option.ite_none_right_eq_some, Option.some.injEq] at hr
  obtain ⟨hu, rfl⟩ := hr
  intro hb hpos
  obtain ⟨j, hj⟩ := hd hb hpos
  have hji : j ≠ i := by
    rintro rfl
    simp [hu] at hj
  exact ⟨j, by simpa [hji] using hj⟩

lemma mainStep_due (hd : s.roster.Due) (he : mainStep s = some s') : s'.roster.Due := by
  cases hm : s.main with
  | createJoiner =>
    simp only [mainStep, hm, Option.some.injEq] at he
    subst he
    exact hd
  | create idx =>
    simp only [mainStep, hm] at he
    split_ifs at he
    · obtain ⟨r, hr, rfl⟩ := Option.map_eq_some_iff.mp he
      exact create_due hd hr
    · obtain rfl := Option.some.inj he
      exact hd
  | exited | failed => simp [mainStep, hm] at he

lemma step_due {l : Label n} (hk : Kept s) (hd : s.roster.Due) (he : step s l = some s') :
    s'.roster.Due := by
  simp only [step, Option.ite_none_left_eq_some] at he
  obtain ⟨-, he⟩ := he
  cases l with
  | main => exact mainStep_due hd he
  | createFails =>
    rw [createFails_cases he]
    exact hd
  | joiner => exact joinerStep_due hk hd he
  | resume =>
    simp only [resumeStep, Option.ite_none_right_eq_some] at he
    obtain ⟨m, hresume, rfl⟩ := Option.map_eq_some_iff.mp he.2
    obtain ⟨-, -, hb, -⟩ := Monitor.resume_eq_some.mp hresume
    apply due_monitor hd
    rw [hb]
    exact id
  | spurious =>
    obtain ⟨m, hwake, rfl⟩ := Option.map_eq_some_iff.mp he
    obtain ⟨-, -, hb, -⟩ := Monitor.wake_eq_some.mp hwake
    apply due_monitor hd
    rw [hb]
    exact Finset.mem_of_mem_erase
  | simulation i a =>
    obtain ⟨r, hr, rfl⟩ := Option.map_eq_some_iff.mp he
    exact Roster.act_due hk.sound hd hr

lemma due_inductive (n : ℕ) : (system n).Inductive fun s => Kept s ∧ s.roster.Due := by
  apply (kept_inductive n).and
  · rintro _ rfl
    exact fun hb => by simp [start] at hb
  · exact fun s l s' hk _ hd he => step_due hk hd he

def Enabled (s : State n) : Prop :=
  ∃ l s', l ≠ .spurious ∧ l ≠ .createFails ∧ step s l = some s'

lemma joiner_enabled (ha : Alive s) (he : ∃ s', joinerStep s = some s') : Enabled s := by
  obtain ⟨s', he⟩ := he
  refine ⟨.joiner, s', by simp, by simp, ?_⟩
  simp only [step, if_neg (not_or.mpr ha), he]

lemma main_enabled (ha : Alive s) (he : ∃ s', mainStep s = some s') : Enabled s := by
  obtain ⟨s', he⟩ := he
  refine ⟨.main, s', by simp, by simp, ?_⟩
  simp only [step, if_neg (not_or.mpr ha), he]

lemma resume_enabled (ha : Alive s) (he : ∃ s', resumeStep s = some s') : Enabled s := by
  obtain ⟨s', he⟩ := he
  refine ⟨.resume, s', by simp, by simp, ?_⟩
  simp only [step, if_neg (not_or.mpr ha), he]

lemma thread_enabled (hk : Kept s) (ha : Alive s)
    (hi : s.roster.phase i ≠ .unborn ∧ s.roster.phase i ≠ .returned)
    (hl : s.roster.phase i = .lock → s.roster.monitor.owner = none) : Enabled s := by
  obtain ⟨a, r, hr⟩ := Roster.exists_act hk.sound hi hl
  refine ⟨.simulation i a, { s with roster := r }, by simp, by simp, ?_⟩
  simp only [step, if_neg (not_or.mpr ha), hr, Option.map_some]

lemma owner_enabled (hk : Kept s) (ha : Alive s)
    (ho : s.roster.monitor.owner = some (some i)) : Enabled s := by
  have hholds := (hk.sound.owner i).mp ho
  apply thread_enabled (i := i) hk ha
  · constructor
    · intro hp
      simp [hp, Phase.holds] at hholds
    · intro hp
      simp [hp, Phase.holds] at hholds
  · intro hp
    simp [hp, Phase.holds] at hholds

lemma lock_enabled (hk : Kept s) (ha : Alive s) (hm : s.joiner = .lock) : Enabled s := by
  cases ho : s.roster.monitor.owner with
  | none =>
    have hnot := hk.waiting.not.mpr (by simp [hm])
    obtain ⟨hb, hw⟩ := not_or.mp hnot
    obtain ⟨m, hlock, -⟩ := Monitor.lock_unlock ho hb hw
    exact joiner_enabled ha (by simp [joinerStep, hm, hlock])
  | some t =>
    cases t with
    | none =>
      have hholds := hk.holder.mp ho
      simp [hm, JoinerPc.holds] at hholds
    | some i => exact owner_enabled hk ha ho

lemma guard_enabled (hk : Kept s) (ha : Alive s) (hm : s.joiner = .guard) : Enabled s := by
  by_cases hzero : s.roster.unjoined = 0
  · obtain ⟨m, hwait⟩ := Monitor.exists_wait (hk.holder.mpr (by rw [hm]; rfl))
    exact joiner_enabled ha (by simp [joinerStep, hm, hzero, hwait])
  · exact joiner_enabled ha (by simp [joinerStep, hm, hzero])

lemma unlock_enabled (hk : Kept s) (ha : Alive s) (hm : s.joiner = .unlock) : Enabled s := by
  obtain ⟨m, hunlock⟩ : ∃ m, s.roster.monitor.unlock none = some m :=
    ⟨_, if_pos (hk.holder.mpr (by rw [hm]; rfl))⟩
  exact joiner_enabled ha (by simp [joinerStep, hm, hunlock])

lemma join_phase (hk : Kept s) (hm : s.joiner = .join i) :
    s.roster.phase i = .signal ∨ s.roster.phase i = .returned := by
  have hlate := (hk.sound.alive i).not.mp (by simp [hk.point.join i hm])
  have howner : s.roster.monitor.owner = some none := hk.holder.mpr (by rw [hm]; rfl)
  have hfree := (hk.sound.owner i).not.mp (by simp [howner])
  cases hp : s.roster.phase i with
  | unborn | start | asleep | lock | mark => simp [hp, Phase.early] at hlate
  | unlock => simp [hp, Phase.holds] at hfree
  | signal => exact Or.inl rfl
  | returned => exact Or.inr rfl

lemma join_enabled (hk : Kept s) (ha : Alive s) (hm : s.joiner = .join i) : Enabled s := by
  rcases join_phase hk hm with hp | hp
  · exact thread_enabled (i := i) hk ha (by simp [hp]) (by simp [hp])
  · have htid : s.tid i = some i := hk.own_tid (by simp [hk.point.join i hm])
    exact joiner_enabled ha (by simp [joinerStep, hm, joinStep, htid, hp])

lemma create_enabled {idx : ℕ} (hk : Kept s) (ha : Alive s) (hm : s.main = .create idx)
    (hidx : idx < n) : Enabled s := by
  have hu : s.roster.phase ⟨idx, hidx⟩ = .unborn := by
    rw [hk.created ha.2, hm]
    exact le_rfl
  obtain ⟨r, hr⟩ : ∃ r, s.roster.create ⟨idx, hidx⟩ .start = some r := ⟨_, if_pos hu⟩
  exact main_enabled ha (by simp [mainStep, hm, hidx, createStep, hr])

lemma all_returned (hk : Kept s) (hd : s.roster.Due) (hb : none ∈ s.roster.monitor.blocked)
    (hall : ∀ i, s.roster.phase i = .returned) : s.joinedNum = n := by
  have hnone : ¬ 0 < s.roster.unjoined := by
    intro hpos
    obtain ⟨i, hi⟩ := hd hb hpos
    simp [hall i] at hi
  apply hk.all_joined.mpr
  intro i
  cases hst : s.roster.status i with
  | joined => rfl
  | alive =>
    have hearly := (hk.sound.alive i).mp hst
    simp [hall i, Phase.early] at hearly
  | terminated =>
    have hpos : 0 < census s.roster.status .terminated := census_pos.mpr ⟨i, hst⟩
    have hcount := hk.sound.counted
    omega

lemma waiting_enabled (hk : Kept s) (hd : s.roster.Due) (ha : Alive s)
    (hm : s.joiner = .waiting) : Enabled s := by
  cases ho : s.roster.monitor.owner with
  | some t =>
    cases t with
    | none =>
      have hholds := hk.holder.mp ho
      simp [hm, JoinerPc.holds] at hholds
    | some i => exact owner_enabled hk ha ho
  | none =>
    rcases hk.waiting.mpr hm with hb | hw
    · by_cases hlive : ∃ i, s.roster.phase i ≠ .unborn ∧ s.roster.phase i ≠ .returned
      · obtain ⟨i, hi⟩ := hlive
        exact thread_enabled hk ha hi fun _ => ho
      · cases hmain : s.main with
        | createJoiner => exact main_enabled ha (by simp [mainStep, hmain])
        | create idx =>
          by_cases hidx : idx < n
          · exact create_enabled hk ha hmain hidx
          · have hall : ∀ i, s.roster.phase i = .returned := by
              intro i
              have hborn : s.roster.phase i ≠ .unborn := by
                rw [ne_eq, hk.created ha.2, hmain]
                exact fun hle => hidx (lt_of_le_of_lt hle i.isLt)
              by_contra hne
              exact hlive ⟨i, hborn, hne⟩
            exact absurd (all_returned hk hd hb hall) (hk.point.entering (by rw [hm]; rfl))
        | exited => exact absurd hmain ha.1
        | failed => exact absurd hmain ha.2
    · obtain ⟨m, hresume⟩ : ∃ m, s.roster.monitor.resume none = some m :=
        ⟨_, dif_pos ⟨hw, ho⟩⟩
      exact resume_enabled ha (by simp [resumeStep, hm, hresume])

lemma enabled (hk : Kept s) (hd : s.roster.Due) (hf : s.main ≠ .failed)
    (hr : s.joiner ≠ .returned) : Enabled s := by
  have ha : Alive s := ⟨fun hx => hr (hk.point.exited hx), hf⟩
  cases hm : s.joiner with
  | unborn =>
    have hmain : s.main = .createJoiner := (hk.point.unborn hm).resolve_right hf
    exact main_enabled ha (by simp [mainStep, hmain])
  | test => exact joiner_enabled ha (by simp [joinerStep, hm])
  | lock => exact lock_enabled hk ha hm
  | guard => exact guard_enabled hk ha hm
  | waiting => exact waiting_enabled hk hd ha hm
  | sweep idx => exact joiner_enabled ha (by simp [joinerStep, hm])
  | join i => exact join_enabled hk ha hm
  | mark i => exact joiner_enabled ha (by simp [joinerStep, hm])
  | unlock => exact unlock_enabled hk ha hm
  | returned => exact absurd hm hr

/-- A wakeup that is owed comes from a thread that has counted itself and not yet
signalled, whether or not it has unlocked the mutex. -/
theorem joiner_deadlock_free (n : ℕ) (s : State n) (h : (system n).Reachable s) :
    (s.main ≠ .failed → s.joiner ≠ .returned → Enabled s) ∧
    (s.joiner = .waiting → 0 < s.roster.unjoined → none ∈ s.roster.monitor.woken ∨
      ∃ i, s.roster.phase i = .unlock ∨ s.roster.phase i = .signal) ∧
    (∀ i, s.joiner = .join i → s.tid i = some i ∧
      (s.roster.phase i = .signal ∨ s.roster.phase i = .returned)) := by
  obtain ⟨hk, hd⟩ := (due_inductive n).reachable h
  refine ⟨enabled hk hd, fun hm hpos => ?_, fun i hm => ⟨?_, join_phase hk hm⟩⟩
  · rcases hk.waiting.mpr hm with hb | hw
    · exact Or.inr (hd hb hpos)
    · exact Or.inl hw
  · exact hk.own_tid (by simp [hk.point.join i hm])

theorem joiner_deadlock_free_one : ∃ s, (system 1).Reachable s ∧ s.joiner = .waiting ∧
    s.roster.unjoined = 1 ∧ Enabled s ∧ (none ∈ s.roster.monitor.woken ∨
      ∃ i, s.roster.phase i = .unlock ∨ s.roster.phase i = .signal) := by
  have hrun : ((system 1).exec (start 1)
      [.main, .main, .joiner, .joiner, .joiner, .simulation 0 .start, .simulation 0 .awake,
        .simulation 0 .lock, .simulation 0 .mark]).map
      (fun s => (s.joiner, s.roster.unjoined, s.main)) = some (.waiting, 1, .create 1) := rfl
  obtain ⟨s, hs, he⟩ := System.Reachable.observe rfl hrun
  simp only [Prod.mk.injEq] at he
  obtain ⟨hj, hone, hmain⟩ := he
  obtain ⟨hen, hwake, -⟩ := joiner_deadlock_free 1 s hs
  exact ⟨s, hs, hj, hone, hen (by simp [hmain]) (by simp [hj]), hwake hj (by simp [hone])⟩

theorem counted_before_unlock : ¬ ∀ (n : ℕ) (s : State n), 1 ≤ n → (system n).Reachable s →
    s.joiner = .waiting → 0 < s.roster.unjoined →
    none ∈ s.roster.monitor.woken ∨ ∃ i, s.roster.phase i = .signal := by
  intro hall
  have hrun : ((system 1).exec (start 1)
      [.main, .main, .joiner, .joiner, .joiner, .simulation 0 .start, .simulation 0 .awake,
        .simulation 0 .lock, .simulation 0 .mark]).map
      (fun s => (s.joiner, s.roster.unjoined, s.roster.monitor.woken, s.roster.phase 0)) =
      some (.waiting, 1, ∅, .unlock) := rfl
  obtain ⟨s, hs, he⟩ := System.Reachable.observe rfl hrun
  simp only [Prod.mk.injEq] at he
  obtain ⟨hj, hone, hwoken, hp⟩ := he
  rcases hall 1 s le_rfl hs hj (by simp [hone]) with hw | ⟨i, hi⟩
  · simp [hwoken] at hw
  · rw [Fin.fin_one_eq_zero i, hp] at hi
    cases hi

end UnixProgramming.JoinTerm
