import UnixProgramming.JoinTerm.Progress
import UnixProgramming.Library.RosterProgress

/-! Every run of `thread_joinTerm` comes to an end: each sweep joins a thread that no other
sweep joins, and only a spurious wakeup makes a run longer. -/

namespace UnixProgramming.JoinTerm

open Library Library.Transition

variable {n : ℕ} {s s' : State n} {i : Fin n} {l : Label n}

def unjoined (status : Fin n → Status) : ℕ :=
  n - census status .joined

/-- What a pass over the table costs, together with the steps until it starts. -/
def pass (n : ℕ) : ℕ :=
  3 * n + 5

/-- The pass that follows a sweep, once the sweep has joined a thread and so released what
was kept for it. -/
def nextPass (status : Fin n → Status) (idx : ℕ) : ℕ :=
  if ∃ j : Fin n, idx ≤ j.val ∧ status j = .terminated then 0 else pass n

def joinerLeft (s : State n) : ℕ :=
  unjoined s.roster.status * pass n +
    match s.joiner with
    | .unborn | .test => pass n
    | .lock => 3 * n + 4
    | .guard => 3 * n + 3
    | .waiting => 3 * n + 2
    | .sweep idx => 3 * (n - idx) + 2 + nextPass s.roster.status idx
    | .join i => 3 * (n - i) + 1
    | .mark i => 3 * (n - i)
    | .unlock => pass n + 1
    | .returned => 0

def mainLeft (s : State n) : ℕ :=
  match s.main with
  | .createJoiner => n + 2
  | .create idx => n - idx + 1
  | .exited | .failed => 0

def left (s : State n) : ℕ :=
  s.roster.toll + mainLeft s + joinerLeft s

lemma left_goto {m : Monitor (Option (Fin n))} {pc : JoinerPc n}
    (hw : m.woken = s.roster.monitor.woken)
    (hpc : joinerLeft { s with joiner := pc } + 1 ≤ joinerLeft s) :
    left { s with roster := s.roster.setMonitor m, joiner := pc } + 1 ≤ left s := by
  have hjoiner : joinerLeft { s with roster := s.roster.setMonitor m, joiner := pc } =
      joinerLeft { s with joiner := pc } := rfl
  have hmain : mainLeft { s with roster := s.roster.setMonitor m, joiner := pc } = mainLeft s := rfl
  have htoll := Roster.toll_setMonitor hw
  simp only [left, hjoiner, hmain, htoll]
  omega

lemma test_left (hm : s.joiner = .test) :
    joinerLeft { s with joiner := if s.joinedNum ≠ n then .lock else .returned } + 1 ≤
      joinerLeft s := by
  split_ifs <;> simp only [joinerLeft, hm, pass] <;> omega

lemma enter_left (hk : Kept s) (hm : s.joiner = .guard) (hne : s.roster.unjoined ≠ 0) :
    joinerLeft { s with joiner := .sweep 0 } + 1 ≤ joinerLeft s := by
  have hcount := hk.sound.counted
  have hpos : 0 < census s.roster.status .terminated := by omega
  obtain ⟨j, hj⟩ := census_pos.mp hpos
  have hnext : nextPass s.roster.status 0 = 0 := if_pos ⟨j, Nat.zero_le _, hj⟩
  simp only [joinerLeft, hm, hnext]
  omega

lemma nextPass_succ {status : Fin n → Status} {idx : ℕ} (hidx : idx < n)
    (hst : status ⟨idx, hidx⟩ ≠ .terminated) :
    nextPass status (idx + 1) = nextPass status idx := by
  have hiff : (∃ j : Fin n, idx + 1 ≤ j.val ∧ status j = .terminated) ↔
      ∃ j : Fin n, idx ≤ j.val ∧ status j = .terminated := by
    constructor
    · rintro ⟨j, hj, hterm⟩
      exact ⟨j, by omega, hterm⟩
    · rintro ⟨j, hj, hterm⟩
      have hne : j.val ≠ idx := by
        rintro rfl
        exact hst hterm
      exact ⟨j, by omega, hterm⟩
  simp only [nextPass, hiff]

lemma nextPass_end {status : Fin n → Status} {idx : ℕ} (hidx : ¬ idx < n) :
    nextPass status idx = pass n := by
  apply if_neg
  rintro ⟨j, hj, -⟩
  omega

lemma sweep_left {idx : ℕ} (hm : s.joiner = .sweep idx) :
    joinerLeft { s with joiner := sweepPc s idx } + 1 ≤ joinerLeft s := by
  by_cases hidx : idx < n
  · by_cases hst : s.roster.status ⟨idx, hidx⟩ = .terminated
    · simp only [joinerLeft, hm, sweepPc, dif_pos hidx, if_pos hst]
      omega
    · simp only [joinerLeft, hm, sweepPc, dif_pos hidx, if_neg hst, nextPass_succ hidx hst]
      omega
  · simp only [joinerLeft, hm, sweepPc, dif_neg hidx, nextPass_end hidx]
    omega

lemma mark_left (hk : Kept s) (hm : s.joiner = .mark i) : left (markStep s i) + 1 ≤ left s := by
  have hst := (hk.point.mark i hm).1
  have henter : census (Function.update s.roster.status i .joined) .joined =
      census s.roster.status .joined + 1 := census_enter (by simp [hst])
  have hle : census (Function.update s.roster.status i .joined) .joined ≤ n := by
    simpa using census_le (f := Function.update s.roster.status i Status.joined) (a := .joined)
  have hless : unjoined s.roster.status =
      unjoined (Function.update s.roster.status i .joined) + 1 := by
    simp only [unjoined]
    omega
  have hnext : nextPass (Function.update s.roster.status i .joined) (i + 1) ≤ pass n := by
    simp only [nextPass]
    split_ifs <;> omega
  have htoll : (markStep s i).roster.toll = s.roster.toll := rfl
  have hmain : mainLeft (markStep s i) = mainLeft s := rfl
  have hjoiner : joinerLeft (markStep s i) =
      unjoined (Function.update s.roster.status i .joined) * pass n +
        (3 * (n - (i + 1)) + 2 + nextPass (Function.update s.roster.status i .joined) (i + 1)) :=
    rfl
  have hold : joinerLeft s = unjoined (Function.update s.roster.status i .joined) * pass n +
      pass n + 3 * (n - i) := by
    simp only [joinerLeft, hm, hless, Nat.succ_mul]
  have hi := i.isLt
  simp only [left, htoll, hmain, hjoiner, hold]
  omega

lemma joinerStep_left (hk : Kept s) (he : joinerStep s = some s') : left s' + 1 ≤ left s := by
  have hgoto : ∀ pc, joinerLeft { s with joiner := pc } + 1 ≤ joinerLeft s →
      left { s with joiner := pc } + 1 ≤ left s :=
    fun _ hpc => left_goto (m := s.roster.monitor) rfl hpc
  cases hm : s.joiner with
  | test =>
    simp only [joinerStep, hm, Option.some.injEq] at he
    exact he ▸ hgoto _ (test_left hm)
  | lock =>
    simp only [joinerStep, hm] at he
    obtain ⟨m, hlock, rfl⟩ := Option.map_eq_some_iff.mp he
    obtain ⟨-, -, -, hw⟩ := Monitor.lock_eq_some.mp hlock
    apply left_goto hw
    simp only [joinerLeft, hm]
    omega
  | guard =>
    simp only [joinerStep, hm] at he
    split_ifs at he with hzero
    · obtain ⟨m, hwait, rfl⟩ := Option.map_eq_some_iff.mp he
      obtain ⟨-, -, -, hw⟩ := Monitor.wait_eq_some.mp hwait
      apply left_goto hw
      simp only [joinerLeft, hm]
      omega
    · obtain rfl := Option.some.inj he
      exact hgoto _ (enter_left hk hm hzero)
  | sweep idx =>
    simp only [joinerStep, hm, Option.some.injEq] at he
    exact he ▸ hgoto _ (sweep_left hm)
  | join i =>
    simp only [joinerStep, joinStep, hm] at he
    obtain ⟨j, -, he⟩ := Option.bind_eq_some_iff.mp he
    simp only [Option.ite_none_right_eq_some, Option.some.injEq] at he
    obtain ⟨-, rfl⟩ := he
    simp only [left, mainLeft, joinerLeft, hm]
    omega
  | mark i =>
    simp only [joinerStep, hm, Option.some.injEq] at he
    exact he ▸ mark_left hk hm
  | unlock =>
    simp only [joinerStep, hm] at he
    obtain ⟨m, hunlock, rfl⟩ := Option.map_eq_some_iff.mp he
    obtain ⟨-, -, -, hw⟩ := Monitor.unlock_eq_some.mp hunlock
    apply left_goto hw
    simp only [joinerLeft, hm]
    omega
  | unborn | waiting | returned => simp [joinerStep, hm] at he

lemma resumeStep_left (he : resumeStep s = some s') : left s' + 1 ≤ left s := by
  simp only [resumeStep, Option.ite_none_right_eq_some] at he
  obtain ⟨hm, he⟩ := he
  obtain ⟨m, hresume, rfl⟩ := Option.map_eq_some_iff.mp he
  obtain ⟨⟨hwoken, -⟩, -, -, hw⟩ := Monitor.resume_eq_some.mp hresume
  have hmain : mainLeft { s with roster := s.roster.setMonitor m, joiner := .guard } =
      mainLeft s := rfl
  have hjoiner : joinerLeft { s with roster := s.roster.setMonitor m, joiner := .guard } =
      unjoined s.roster.status * pass n + (3 * n + 3) := rfl
  have hold : joinerLeft s = unjoined s.roster.status * pass n + (3 * n + 2) := by
    simp only [joinerLeft, hm]
  simp only [left, hmain, hjoiner, hold, Roster.toll, Roster.setMonitor_phase,
    Roster.setMonitor_monitor, hw, Finset.mem_erase, ne_eq, not_true_eq_false, false_and,
    if_false, hwoken, if_true]
  omega

lemma mainStep_left (hk : Kept s) (he : mainStep s = some s') : left s' + 1 ≤ left s := by
  cases hm : s.main with
  | createJoiner =>
    have hj : s.joiner = .unborn := hk.point.newborn hm
    simp only [mainStep, hm, Option.some.injEq] at he
    subst he
    simp only [left, mainLeft, joinerLeft, hm, hj]
    omega
  | create idx =>
    simp only [mainStep, hm] at he
    split_ifs at he with hidx
    · simp only [createStep] at he
      obtain ⟨r, hr, rfl⟩ := Option.map_eq_some_iff.mp he
      have htoll := Roster.create_toll hr (by simp)
      simp only [Roster.create, Option.ite_none_right_eq_some, Option.some.injEq] at hr
      obtain ⟨-, rfl⟩ := hr
      have hjoiner : ∀ t m, joinerLeft { s with
          roster := s.roster.setPhase ⟨idx, hidx⟩ .start, tid := t, main := m } = joinerLeft s :=
        fun _ _ => rfl
      simp only [left, mainLeft, hm, hjoiner]
      omega
    · obtain rfl := Option.some.inj he
      have hjoiner : ∀ m, joinerLeft { s with main := m } = joinerLeft s := fun _ => rfl
      simp only [left, mainLeft, hm, hjoiner]
      omega
  | exited | failed => simp [mainStep, hm] at he

lemma act_left {a : Roster.Act (Fin n)} {r : Roster (Fin n)} (hk : Kept s)
    (hr : s.roster.act i a = some r) : left { s with roster := r } + 1 ≤ left s := by
  have hframe := Roster.act_frame hk.sound hr
  have htoll := Roster.act_toll hr
  have hjoined : ∀ j, r.status j = .joined ↔ s.roster.status j = .joined := by
    intro j
    by_cases hj : j = i
    · subst hj
      have hnot : s.roster.status j ≠ .joined := fun hj => hframe.live.2 (hk.ended j hj)
      rcases hframe.own with hown | hown
      · rw [hown]
      · exact iff_of_false (by simp [hown]) hnot
    · rw [hframe.status j hj]
  have hsame : unjoined r.status = unjoined s.roster.status := by
    have hcensus : census r.status .joined = census s.roster.status .joined :=
      congrArg Finset.card (Finset.filter_congr fun j _ => hjoined j)
    rw [unjoined, hcensus, unjoined]
  have hjoiner : joinerLeft { s with roster := r } = joinerLeft s := by
    cases hm : s.joiner with
    | sweep idx =>
      have hheld := hframe.held (hk.holder.mpr (by rw [hm]; rfl))
      simp only [joinerLeft, hm, hheld.1]
    | unborn | test | lock | guard | waiting | join i | mark i | unlock | returned =>
      simp only [joinerLeft, hm, hsame]
  have hmain : mainLeft { s with roster := r } = mainLeft s := rfl
  simp only [left, hjoiner, hmain]
  omega

lemma step_left (hk : Kept s) (he : step s l = some s') :
    left s' + 1 ≤ left s + if l = .spurious then 3 else 0 := by
  simp only [step, Option.ite_none_left_eq_some] at he
  obtain ⟨-, he⟩ := he
  cases l with
  | main => exact mainStep_left hk he
  | createFails =>
    have hmain : 0 < mainLeft s := by
      cases hm : s.main with
      | createJoiner | create idx => simp [mainLeft, hm]
      | exited | failed => simp [createFails, hm] at he
    rw [createFails_cases he]
    have hjoiner : ∀ m, joinerLeft { s with main := m } = joinerLeft s := fun _ => rfl
    have hfailed : mainLeft { s with main := .failed } = 0 := rfl
    simp only [left, hjoiner, hfailed, reduceCtorEq, if_false]
    omega
  | joiner => exact joinerStep_left hk he
  | resume => exact resumeStep_left he
  | spurious =>
    obtain ⟨m, hwake, rfl⟩ := Option.map_eq_some_iff.mp he
    have hjoiner : joinerLeft { s with roster := s.roster.setMonitor m } = joinerLeft s := rfl
    have hmain : mainLeft { s with roster := s.roster.setMonitor m } = mainLeft s := rfl
    simp only [left, hjoiner, hmain, Roster.toll, Roster.setMonitor_phase,
      Roster.setMonitor_monitor, if_true]
    split_ifs <;> omega
  | simulation i a =>
    obtain ⟨r, hr, rfl⟩ := Option.map_eq_some_iff.mp he
    exact act_left hk hr

lemma start_left (n : ℕ) : left (start n) = 3 * n ^ 2 + 30 * n + 7 := by
  have hcensus : census (fun _ : Fin n => Status.alive) .joined = 0 := by simp [census]
  simp only [left, mainLeft, joinerLeft, unjoined, start, Roster.toll, Phase.left, hcensus, pass,
    Finset.sum_const, Finset.card_univ, Fintype.card_fin, Monitor.free_woken,
    Finset.notMem_empty, if_false, smul_eq_mul, Nat.sub_zero]
  ring

lemma returned_enabled (hk : Kept s) (ha : Alive s) (hr : s.joiner = .returned) : Enabled s := by
  cases hm : s.main with
  | createJoiner => exact main_enabled ha (by simp [mainStep, hm])
  | create idx =>
    by_cases hidx : idx < n
    · exact create_enabled hk ha hm hidx
    · exact main_enabled ha (by simp [mainStep, hm, hidx, hr])
  | exited => exact absurd hm ha.1
  | failed => exact absurd hm ha.2

/-- A run that is not over can go on without a spurious wakeup, and a run is over after a
number of steps that only spurious wakeups raise. -/
theorem joiner_completes (n : ℕ) (ls : List (Label n)) (s : State n)
    (hr : (system n).Run (start n) ls s) :
    ls.length ≤ 3 * n ^ 2 + 30 * n + 7 + 3 * ls.count .spurious ∧
    (s.main ≠ .exited → s.main ≠ .failed →
      ∃ l s', l ≠ .spurious ∧ l ≠ .createFails ∧ step s l = some s') := by
  have h₀ : Kept (start n) ∧ (start n).roster.Due := (due_inductive n).initial _ rfl
  constructor
  · have hlen := (kept_inductive n).length_le (μ := left) (a := .spurious) (c := 3)
      (fun s l t hk he => step_left hk he) h₀.1 hr
    rw [start_left] at hlen
    omega
  · obtain ⟨hk, hd⟩ := (due_inductive n).run h₀ hr
    intro hx hf
    by_cases hj : s.joiner = .returned
    · exact returned_enabled hk ⟨hx, hf⟩ hj
    · exact enabled hk hd hf hj

theorem joiner_completes_one : ∃ s, (system 1).Run (start 1) [.main, .joiner, .joiner, .joiner] s ∧
    s.joiner = .waiting ∧ ∃ l s', l ≠ .spurious ∧ l ≠ .createFails ∧ step s l = some s' := by
  have hrun : ((system 1).exec (start 1) [.main, .joiner, .joiner, .joiner]).map
      (fun s => (s.joiner, s.main)) = some (.waiting, .create 0) := by decide
  obtain ⟨s, he, hm⟩ := Option.map_eq_some_iff.mp hrun
  simp only [Prod.mk.injEq] at hm
  have hr := System.run_iff_exec.mpr he
  exact ⟨s, hr, hm.1, (joiner_completes 1 _ s hr).2 (by simp [hm.2]) (by simp [hm.2])⟩

end UnixProgramming.JoinTerm
