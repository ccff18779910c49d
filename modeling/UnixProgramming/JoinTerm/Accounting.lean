import UnixProgramming.JoinTerm.Model

/-! The two counters against the statuses, over every schedule of creations, ends and
sweeps. -/

namespace UnixProgramming.JoinTerm

open Library Library.Transition

variable {n : ℕ} {s s' : State n} {i : Fin n} {pc : JoinerPc n}

namespace JoinerPc

def holds : JoinerPc n → Bool
  | .guard | .sweep _ | .join _ | .mark _ | .unlock => true
  | .unborn | .test | .lock | .waiting | .returned => false

def entering : JoinerPc n → Bool
  | .lock | .guard | .waiting => true
  | .unborn | .test | .sweep _ | .join _ | .mark _ | .unlock | .returned => false

end JoinerPc

-- The threads that are still to be created.
def MainPc.ahead (i : Fin n) : MainPc → Prop
  | .createJoiner => True
  | .create idx => idx ≤ i
  | .exited | .failed => False

structure Point (s : State n) : Prop where
  join : ∀ i, s.joiner = .join i → s.roster.status i = .terminated
  mark : ∀ i, s.joiner = .mark i → s.roster.status i = .terminated ∧ s.roster.phase i = .returned
  entering : s.joiner.entering = true → s.joinedNum ≠ n
  returned : s.joiner = .returned → s.joinedNum = n
  unborn : s.joiner = .unborn → s.main = .createJoiner ∨ s.main = .failed
  newborn : s.main = .createJoiner → s.joiner = .unborn
  exited : s.main = .exited → s.joiner = .returned

structure Kept (s : State n) : Prop where
  sound : s.roster.Sound
  holder : s.roster.monitor.owner = some none ↔ s.joiner.holds = true
  waiting : none ∈ s.roster.monitor.blocked ∨ none ∈ s.roster.monitor.woken ↔
    s.joiner = .waiting
  created : s.main ≠ .failed → ∀ i, s.roster.phase i = .unborn ↔ s.main.ahead i
  tid : ∀ i, s.roster.phase i ≠ .unborn → s.tid i = some i
  joined : s.joinedNum = census s.roster.status .joined
  joins : ∀ i, s.joins i = if s.roster.status i = .joined ∨ s.joiner = .mark i then 1 else 0
  ended : ∀ i, s.roster.status i = .joined → s.roster.phase i = .returned
  point : Point s

lemma start_kept (n : ℕ) : Kept (start n) where
  sound := ⟨fun i => by simp [start, Phase.holds], fun i => by simp [start],
    fun i => by simp [start, Phase.early], by simp [start, census]⟩
  holder := by simp [start, JoinerPc.holds]
  waiting := by simp [start]
  created _ i := by simp [start, MainPc.ahead]
  tid i hi := absurd rfl hi
  joined := by simp [start, census]
  joins i := by simp [start]
  ended i hi := by cases hi
  point := by constructor <;> simp [start, JoinerPc.entering]

lemma Kept.move (h : Kept s) {m : Monitor (Option (Fin n))}
    (hs : (s.roster.setMonitor m).Sound) (hh : m.owner = some none ↔ pc.holds = true)
    (hwait : none ∈ m.blocked ∨ none ∈ m.woken ↔ pc = .waiting)
    (hmark : ∀ j, s.joiner = .mark j ↔ pc = .mark j)
    (hp : Point { s with roster := s.roster.setMonitor m, joiner := pc }) :
    Kept { s with roster := s.roster.setMonitor m, joiner := pc } where
  sound := hs
  holder := hh
  waiting := hwait
  created := h.created
  tid := h.tid
  joined := h.joined
  joins j := by simpa only [hmark j, Roster.setMonitor_status] using h.joins j
  ended := h.ended
  point := hp

lemma Kept.goto (h : Kept s) (hh : pc.holds = s.joiner.holds) (hw : s.joiner ≠ .waiting)
    (hw' : pc ≠ .waiting) (hmark : ∀ j, s.joiner = .mark j ↔ pc = .mark j)
    (hp : Point { s with joiner := pc }) : Kept { s with joiner := pc } := by
  apply h.move (m := s.roster.monitor) h.sound _ _ hmark hp
  · rw [hh]
    exact h.holder
  · exact h.waiting.trans (iff_of_false hw hw')

lemma act_kept {a : Roster.Act (Fin n)} {r : Roster (Fin n)} (h : Kept s)
    (he : s.roster.act i a = some r) : Kept { s with roster := r } := by
  have hf := Roster.act_frame h.sound he
  have hjoined : ∀ j, r.status j = .joined ↔ s.roster.status j = .joined := by
    intro j
    by_cases hj : j = i
    · subst hj
      rcases hf.own with hown | hown
      · rw [hown]
      · exact iff_of_false (by simp [hown]) fun hs => hf.live.2 (h.ended j hs)
    · rw [hf.status j hj]
  have hcensus : census r.status .joined = census s.roster.status .joined := by
    simp only [census, hjoined]
  have hheld : s.joiner.holds = true → r.status = s.roster.status := by
    intro hj
    exact (hf.held (h.holder.mpr hj)).1
  refine ⟨Roster.act_sound h.sound he, hf.holder.trans h.holder, hf.waiting.trans h.waiting,
    fun hne j => (hf.unborn_iff j).trans (h.created hne j),
    fun j hj => h.tid j ((hf.unborn_iff j).not.mp hj), ?_, fun j => ?_,
    fun j hj => (hf.returned (h.ended j ((hjoined j).mp hj))).1, ?_⟩
  · rw [hcensus]
    exact h.joined
  · simp only [hjoined]
    exact h.joins j
  · refine ⟨fun j hj => ?_, fun j hj => ?_, h.point.entering, h.point.returned, h.point.unborn,
      h.point.newborn, h.point.exited⟩
    · rw [hheld (by rw [hj]; rfl)]
      exact h.point.join j hj
    · rw [hheld (by rw [hj]; rfl)]
      obtain ⟨hst, hret⟩ := h.point.mark j hj
      exact ⟨hst, (hf.returned hret).1⟩

lemma sweep_kept {idx : ℕ} (h : Kept s) (hm : s.joiner = .sweep idx) :
    Kept { s with joiner := sweepPc s idx } := by
  have hpc : (sweepPc s idx).holds = true ∧ (sweepPc s idx).entering = false ∧
      sweepPc s idx ≠ .waiting ∧ sweepPc s idx ≠ .returned ∧ sweepPc s idx ≠ .unborn ∧
      ∀ j, sweepPc s idx ≠ .mark j := by
    simp only [sweepPc]
    split_ifs <;> simp [JoinerPc.holds, JoinerPc.entering]
  obtain ⟨hholds, hent, hwait, hret, hunborn, hmark⟩ := hpc
  apply h.goto (by rw [hholds, hm]; rfl) (by simp [hm]) hwait
    fun j => iff_of_false (by simp [hm]) (hmark j)
  refine ⟨fun j hj => ?_, fun j hj => absurd hj (hmark j), fun he => ?_, fun hr => absurd hr hret,
    fun hu => absurd hu hunborn, fun hn => ?_, fun hx => ?_⟩
  · simp only [sweepPc] at hj
    split_ifs at hj with hidx hst
    cases hj
    exact hst
  · rw [hent] at he
    cases he
  · exact absurd (h.point.newborn hn) (by simp [hm])
  · exact absurd (h.point.exited hx) (by simp [hm])

lemma Point.goto (h : Point s) (hm : s.joiner ≠ .unborn) (hr : s.joiner ≠ .returned)
    (hjoin : ∀ j, pc ≠ .join j) (hmark : ∀ j, pc ≠ .mark j) (hu : pc ≠ .unborn)
    (hent : pc.entering = true → s.joinedNum ≠ n) (hret : pc = .returned → s.joinedNum = n)
    {r : Roster (Fin n)} : Point { s with roster := r, joiner := pc } where
  join j hj := absurd hj (hjoin j)
  mark j hj := absurd hj (hmark j)
  entering := hent
  returned := hret
  unborn hj := absurd hj hu
  newborn hn := absurd (h.newborn hn) hm
  exited hx := absurd (h.exited hx) hr

lemma lock_kept {m : Monitor (Option (Fin n))} (h : Kept s) (hm : s.joiner = .lock)
    (hlock : s.roster.monitor.lock none = some m) :
    Kept { s with roster := s.roster.setMonitor m, joiner := .guard } := by
  obtain ⟨hs, ho, hw⟩ := h.sound.lock hlock
  apply h.move hs (by simp [ho, JoinerPc.holds]) (iff_of_false hw (by simp)) (by simp [hm])
  exact h.point.goto (by simp [hm]) (by simp [hm]) (by simp) (by simp) (by simp)
    (fun _ => h.point.entering (by rw [hm]; rfl)) (by simp)

lemma guard_kept {m : Monitor (Option (Fin n))} (h : Kept s) (hm : s.joiner = .guard)
    (hwait : s.roster.monitor.wait none = some m) :
    Kept { s with roster := s.roster.setMonitor m, joiner := .waiting } := by
  obtain ⟨hs, ho, hw⟩ := h.sound.wait hwait
  apply h.move hs (by simp [ho, JoinerPc.holds]) (iff_of_true (Or.inl hw) rfl) (by simp [hm])
  exact h.point.goto (by simp [hm]) (by simp [hm]) (by simp) (by simp) (by simp)
    (fun _ => h.point.entering (by rw [hm]; rfl)) (by simp)

lemma unlock_kept {m : Monitor (Option (Fin n))} (h : Kept s) (hm : s.joiner = .unlock)
    (hunlock : s.roster.monitor.unlock none = some m) :
    Kept { s with roster := s.roster.setMonitor m, joiner := .test } := by
  obtain ⟨hs, ho, hw⟩ := h.sound.unlock hunlock
  apply h.move hs (by simp [ho, JoinerPc.holds]) (hw.trans (h.waiting.trans (by simp [hm])))
    (by simp [hm])
  exact h.point.goto (by simp [hm]) (by simp [hm]) (by simp) (by simp) (by simp)
    (fun he => by cases he) (by simp)

lemma resume_kept (h : Kept s) (he : resumeStep s = some s') : Kept s' := by
  simp only [resumeStep, Option.ite_none_right_eq_some] at he
  obtain ⟨hm, he⟩ := he
  obtain ⟨m, hresume, rfl⟩ := Option.map_eq_some_iff.mp he
  obtain ⟨hs, ho, hw⟩ := h.sound.resume hresume
  apply h.move hs (by simp [ho, JoinerPc.holds]) (iff_of_false hw (by simp)) (by simp [hm])
  exact h.point.goto (by simp [hm]) (by simp [hm]) (by simp) (by simp) (by simp)
    (fun _ => h.point.entering (by rw [hm]; rfl)) (by simp)

lemma spurious_kept {m : Monitor (Option (Fin n))} (h : Kept s)
    (hwake : s.roster.monitor.wake none = some m) :
    Kept { s with roster := s.roster.setMonitor m } := by
  have hm : s.joiner = .waiting := h.waiting.mp (Or.inl (Monitor.wake_eq_some.mp hwake).1)
  obtain ⟨hs, ho, hw⟩ := h.sound.wake hwake
  have hp : Point { s with roster := s.roster.setMonitor m, joiner := s.joiner } :=
    ⟨h.point.join, h.point.mark, h.point.entering, h.point.returned, h.point.unborn,
      h.point.newborn, h.point.exited⟩
  exact h.move hs (by rw [ho]; exact h.holder) (iff_of_true (Or.inr hw) hm) (fun _ => Iff.rfl) hp

lemma test_kept (h : Kept s) (hm : s.joiner = .test) :
    Kept { s with joiner := if s.joinedNum ≠ n then .lock else .returned } := by
  split_ifs with hne
  · exact h.goto (by simp [JoinerPc.holds, hm]) (by simp [hm]) (by simp) (by simp [hm])
      (h.point.goto (by simp [hm]) (by simp [hm]) (by simp) (by simp) (by simp) (fun _ => hne)
        (by simp))
  · exact h.goto (by simp [JoinerPc.holds, hm]) (by simp [hm]) (by simp) (by simp [hm])
      (h.point.goto (by simp [hm]) (by simp [hm]) (by simp) (by simp) (by simp)
        (fun he => by cases he) (fun _ => not_not.mp hne))

lemma Kept.own_tid (h : Kept s) (hst : s.roster.status i ≠ .alive) : s.tid i = some i := by
  apply h.tid
  intro hu
  exact hst ((h.sound.alive i).mpr (by rw [hu]; rfl))

lemma joinStep_kept (h : Kept s) (hm : s.joiner = .join i) (he : joinStep s i = some s') :
    Kept s' := by
  have hst := h.point.join i hm
  obtain ⟨j, htid, he⟩ := Option.bind_eq_some_iff.mp he
  simp only [Option.ite_none_right_eq_some, Option.some.injEq] at he
  obtain ⟨hret, rfl⟩ := he
  obtain rfl : i = j := by
    rw [h.own_tid (by simp [hst])] at htid
    exact Option.some.inj htid
  refine ⟨h.sound, h.holder.trans (by rw [hm]; rfl), h.waiting.trans (by simp [hm]), h.created,
    h.tid, h.joined, fun j => ?_, h.ended, ?_⟩
  · have hj := h.joins j
    by_cases hji : j = i
    · subst hji
      simp [hm, hst] at hj
      simp [hj]
    · simpa [hji, Ne.symm hji, hm] using hj
  · refine ⟨fun j hj => (by cases hj), fun j hj => ?_, fun hj => (by cases hj),
      fun hj => (by cases hj), fun hj => (by cases hj), fun hn => ?_, fun hx => ?_⟩
    · cases hj
      exact ⟨hst, hret⟩
    · exact absurd (h.point.newborn hn) (by simp [hm])
    · exact absurd (h.point.exited hx) (by simp [hm])

lemma mark_kept (h : Kept s) (hm : s.joiner = .mark i) : Kept (markStep s i) := by
  obtain ⟨hst, hret⟩ := h.point.mark i hm
  refine ⟨h.sound.retire hst, h.holder.trans (by rw [hm]; rfl),
    h.waiting.trans (by simp [hm, markStep]), h.created, h.tid, ?_, fun j => ?_, fun j hj => ?_, ?_⟩
  · have henter : census (Function.update s.roster.status i .joined) .joined =
        census s.roster.status .joined + 1 := census_enter (by simp [hst])
    have hjoined := h.joined
    change s.joinedNum + 1 = (census (Function.update s.roster.status i .joined) .joined : ℤ)
    omega
  · have hj := h.joins j
    by_cases hji : j = i
    · subst hji
      simp [hm] at hj
      simp [markStep, Roster.retire, hj]
    · have hij : i ≠ j := Ne.symm hji
      simp [hm, hij] at hj
      simp [markStep, Roster.retire, hji, hj]
  · by_cases hji : j = i
    · rw [hji]
      exact hret
    · exact h.ended j (by simpa [markStep, Roster.retire, hji] using hj)
  · refine ⟨fun j hj => (by cases hj), fun j hj => (by cases hj), fun hj => (by cases hj),
      fun hj => (by cases hj), fun hj => (by cases hj), fun hn => ?_, fun hx => ?_⟩
    · exact absurd (h.point.newborn hn) (by simp [hm])
    · exact absurd (h.point.exited hx) (by simp [hm])

lemma joinerStep_kept (h : Kept s) (he : joinerStep s = some s') : Kept s' := by
  cases hm : s.joiner with
  | test =>
    simp only [joinerStep, hm, Option.some.injEq] at he
    exact he ▸ test_kept h hm
  | lock =>
    simp only [joinerStep, hm] at he
    obtain ⟨m, hlock, rfl⟩ := Option.map_eq_some_iff.mp he
    exact lock_kept h hm hlock
  | guard =>
    simp only [joinerStep, hm] at he
    split_ifs at he with hzero
    · obtain ⟨m, hwait, rfl⟩ := Option.map_eq_some_iff.mp he
      exact guard_kept h hm hwait
    · obtain rfl := Option.some.inj he
      exact h.goto (by rw [hm]; rfl) (by simp [hm]) (by simp) (by simp [hm])
        (h.point.goto (by simp [hm]) (by simp [hm]) (by simp) (by simp) (by simp)
          (fun he => by cases he) (by simp))
  | sweep idx =>
    simp only [joinerStep, hm, Option.some.injEq] at he
    exact he ▸ sweep_kept h hm
  | join i =>
    simp only [joinerStep, hm] at he
    exact joinStep_kept h hm he
  | mark i =>
    simp only [joinerStep, hm, Option.some.injEq] at he
    exact he ▸ mark_kept h hm
  | unlock =>
    simp only [joinerStep, hm] at he
    obtain ⟨m, hunlock, rfl⟩ := Option.map_eq_some_iff.mp he
    exact unlock_kept h hm hunlock
  | unborn | waiting | returned => simp [joinerStep, hm] at he

lemma createStep_kept (h : Kept s) (hm : s.main = .create i) (he : createStep s i = some s') :
    Kept s' := by
  obtain ⟨r, hr, rfl⟩ := Option.map_eq_some_iff.mp he
  have hsound : r.Sound := h.sound.create rfl rfl hr
  simp only [Roster.create, Option.ite_none_right_eq_some, Option.some.injEq] at hr
  obtain ⟨hu, rfl⟩ := hr
  have hcreated := h.created (by simp [hm])
  refine ⟨hsound, h.holder, h.waiting, fun _ j => ?_, fun j hj => ?_, h.joined, h.joins,
    fun j hj => ?_, h.point.join, fun j hj => ?_, h.point.entering, h.point.returned,
    fun hu => ?_, fun hn => (by cases hn), fun hx => (by cases hx)⟩
  · by_cases hji : j = i
    · simp [hji, MainPc.ahead]
    · have hval : j.val ≠ i.val := fun hv => hji (Fin.ext hv)
      have hold : s.roster.phase j = .unborn ↔ i.val ≤ j.val := by
        rw [hcreated, hm]
        rfl
      simp only [Roster.setPhase_phase, ne_eq, hji, not_false_eq_true, Function.update_of_ne,
        hold, MainPc.ahead]
      omega
  · by_cases hji : j = i
    · simp [hji]
    · simp only [Roster.setPhase_phase, ne_eq, hji, not_false_eq_true,
        Function.update_of_ne] at hj ⊢
      exact h.tid j hj
  · have hret := h.ended j hj
    have hji : j ≠ i := by
      rintro rfl
      rw [hu] at hret
      cases hret
    simpa [hji] using hret
  · obtain ⟨hst, hret⟩ := h.point.mark j hj
    have hji : j ≠ i := by
      rintro rfl
      rw [hu] at hret
      cases hret
    exact ⟨hst, by simpa [hji] using hret⟩
  · rcases h.point.unborn hu with hn | hf
    · rw [hm] at hn
      cases hn
    · rw [hm] at hf
      cases hf

lemma mainStep_kept (h : Kept s) (he : mainStep s = some s') : Kept s' := by
  cases hm : s.main with
  | createJoiner =>
    simp only [mainStep, hm, Option.some.injEq] at he
    subst he
    have hj := h.point.newborn hm
    have hcreated := h.created (by simp [hm])
    refine ⟨h.sound, h.holder.trans (by rw [hj]; rfl), h.waiting.trans (by simp [hj]),
      fun _ j => ?_, h.tid, h.joined, fun j => ?_, h.ended, fun j hj => (by cases hj),
      fun j hj => (by cases hj), fun hj => (by cases hj), fun hj => (by cases hj),
      fun hj => (by cases hj), fun hj => (by cases hj), fun hj => (by cases hj)⟩
    · rw [hcreated, hm]
      exact iff_of_true trivial (Nat.zero_le _)
    · simpa [hj] using h.joins j
  | create idx =>
    simp only [mainStep, hm] at he
    split_ifs at he with hidx hret
    · exact createStep_kept h (i := ⟨idx, hidx⟩) hm he
    · obtain rfl := Option.some.inj he
      have hcreated := h.created (by simp [hm])
      refine ⟨h.sound, h.holder, h.waiting, fun _ j => ?_, h.tid, h.joined, h.joins, h.ended,
        h.point.join, h.point.mark, h.point.entering, h.point.returned, fun hu => ?_,
        fun hn => (by cases hn), fun _ => hret⟩
      · rw [hcreated, hm]
        exact iff_of_false (fun hle => hidx (lt_of_le_of_lt hle j.isLt)) id
      · rw [hret] at hu
        cases hu
  | exited | failed => simp [mainStep, hm] at he

lemma createFails_cases (he : createFails s = some s') : s' = { s with main := .failed } := by
  cases hm : s.main with
  | createJoiner =>
    simp only [createFails, hm, Option.some.injEq] at he
    exact he.symm
  | create idx =>
    simp only [createFails, hm, Option.ite_none_right_eq_some, Option.some.injEq] at he
    exact he.2.symm
  | exited | failed => simp [createFails, hm] at he

lemma createFails_kept (h : Kept s) (he : createFails s = some s') : Kept s' := by
  obtain rfl := createFails_cases he
  exact ⟨h.sound, h.holder, h.waiting, fun hne => absurd rfl hne, h.tid, h.joined, h.joins, h.ended,
    h.point.join, h.point.mark, h.point.entering, h.point.returned, fun _ => Or.inr rfl,
    fun hn => (by cases hn), fun hx => (by cases hx)⟩

lemma step_kept {l : Label n} (h : Kept s) (he : step s l = some s') : Kept s' := by
  simp only [step, Option.ite_none_left_eq_some] at he
  obtain ⟨-, he⟩ := he
  cases l with
  | main => exact mainStep_kept h he
  | createFails => exact createFails_kept h he
  | joiner => exact joinerStep_kept h he
  | resume => exact resume_kept h he
  | spurious =>
    obtain ⟨m, hwake, rfl⟩ := Option.map_eq_some_iff.mp he
    exact spurious_kept h hwake
  | simulation i a =>
    obtain ⟨r, hr, rfl⟩ := Option.map_eq_some_iff.mp he
    exact act_kept h hr

lemma kept_inductive (n : ℕ) : (system n).Inductive Kept where
  initial := by
    rintro _ rfl
    exact start_kept n
  step _ _ _ h he := step_kept h he

structure Accounted (s : State n) : Prop where
  termNum : s.roster.monitor.owner = none →
    s.roster.unjoined = (Finset.univ.filter fun i => s.roster.status i = .terminated).card
  joinedNum : s.roster.monitor.owner = none →
    s.joinedNum = (Finset.univ.filter fun i => s.roster.status i = .joined).card
  bound : s.joinedNum ≤ n
  own : ∀ i, s.joiner = .join i → s.tid i = some i
  once : ∀ i, s.joins i ≤ 1
  joined : ∀ i, s.roster.status i = .joined → s.joins i = 1
  returned : s.joiner = .returned → ∀ i, s.joins i = 1
  test : s.joiner = .test → (s.joinedNum = n ↔ ∀ i, s.joins i = 1)
  all : (∀ i, s.joins i = 1) → s.joiner.entering = false

lemma Kept.all_joined (h : Kept s) : s.joinedNum = n ↔ ∀ i, s.roster.status i = .joined := by
  rw [h.joined, Nat.cast_inj, ← census_eq_card, Fintype.card_fin]

lemma Kept.joins_eq (h : Kept s) (hm : ∀ i, s.joiner ≠ .mark i) :
    (∀ i, s.joins i = 1) ↔ ∀ i, s.roster.status i = .joined := by
  apply forall_congr'
  intro i
  rw [h.joins]
  simp [hm]

lemma Kept.accounted (h : Kept s) : Accounted s where
  termNum _ := h.sound.counted
  joinedNum _ := h.joined
  bound := by
    have hle : census s.roster.status .joined ≤ Fintype.card (Fin n) := census_le
    rw [h.joined]
    simpa using hle
  own i hj := h.own_tid (by simp [h.point.join i hj])
  once i := by
    rw [h.joins]
    split_ifs <;> simp
  joined i hi := by simp [h.joins, hi]
  returned hr := (h.joins_eq (by simp [hr])).mpr (h.all_joined.mp (h.point.returned hr))
  test ht := h.all_joined.trans (h.joins_eq (by simp [ht])).symm
  all hall := by
    cases he : s.joiner.entering with
    | false => rfl
    | true =>
      have hm : ∀ i, s.joiner ≠ .mark i := by
        intro i hm
        simp [hm, JoinerPc.entering] at he
      have hn : s.joinedNum = n := h.all_joined.mpr ((h.joins_eq hm).mp hall)
      exact absurd hn (h.point.entering he)

def Forward (v w : Status) : Prop :=
  w = v ∨ v = .alive ∧ w = .terminated ∨ v = .terminated ∧ w = .joined

lemma act_forward {a : Roster.Act (Fin n)} {r : Roster (Fin n)} (h : Kept s)
    (he : s.roster.act i a = some r) (j : Fin n) : Forward (s.roster.status j) (r.status j) := by
  have hf := Roster.act_frame h.sound he
  by_cases hji : j = i
  · subst hji
    rcases hf.own with hown | hown
    · exact Or.inl hown
    · cases hst : s.roster.status j with
      | alive => exact Or.inr (Or.inl ⟨rfl, hown⟩)
      | terminated => exact Or.inl hown
      | joined => exact absurd (h.ended j hst) hf.live.2
  · exact Or.inl (hf.status j hji)

lemma joinerStep_forward (h : Kept s) (he : joinerStep s = some s') (j : Fin n) :
    Forward (s.roster.status j) (s'.roster.status j) := by
  cases hm : s.joiner with
  | mark i =>
    simp only [joinerStep, hm, Option.some.injEq] at he
    subst he
    by_cases hji : j = i
    · subst hji
      exact Or.inr (Or.inr ⟨(h.point.mark j hm).1, by simp [markStep, Roster.retire]⟩)
    · exact Or.inl (by simp [markStep, Roster.retire, hji])
  | test | sweep =>
    simp only [joinerStep, hm, Option.some.injEq] at he
    exact Or.inl (by rw [← he])
  | lock | unlock =>
    simp only [joinerStep, hm] at he
    obtain ⟨m, -, rfl⟩ := Option.map_eq_some_iff.mp he
    exact Or.inl rfl
  | guard =>
    simp only [joinerStep, hm] at he
    split_ifs at he
    · obtain ⟨m, -, rfl⟩ := Option.map_eq_some_iff.mp he
      exact Or.inl rfl
    · exact Or.inl (by rw [← Option.some.inj he])
  | join i =>
    simp only [joinerStep, joinStep, hm] at he
    obtain ⟨k, -, he⟩ := Option.bind_eq_some_iff.mp he
    simp only [Option.ite_none_right_eq_some, Option.some.injEq] at he
    exact Or.inl (by rw [← he.2])
  | unborn | waiting | returned => simp [joinerStep, hm] at he

lemma mainStep_status (he : mainStep s = some s') : s'.roster.status = s.roster.status := by
  cases hm : s.main with
  | createJoiner =>
    simp only [mainStep, hm, Option.some.injEq] at he
    rw [← he]
  | create idx =>
    simp only [mainStep, hm] at he
    split_ifs at he with hidx
    · obtain ⟨r, hr, rfl⟩ := Option.map_eq_some_iff.mp he
      simp only [Roster.create, Option.ite_none_right_eq_some, Option.some.injEq] at hr
      rw [← hr.2]
      rfl
    · rw [← Option.some.inj he]
  | exited | failed => simp [mainStep, hm] at he

lemma step_forward {l : Label n} (h : Kept s) (he : step s l = some s') (j : Fin n) :
    Forward (s.roster.status j) (s'.roster.status j) := by
  simp only [step, Option.ite_none_left_eq_some] at he
  obtain ⟨-, he⟩ := he
  cases l with
  | main => exact Or.inl (congrFun (mainStep_status he) j)
  | createFails => exact Or.inl (by rw [createFails_cases he])
  | joiner => exact joinerStep_forward h he j
  | resume =>
    simp only [resumeStep, Option.ite_none_right_eq_some] at he
    obtain ⟨m, -, rfl⟩ := Option.map_eq_some_iff.mp he.2
    exact Or.inl rfl
  | spurious =>
    obtain ⟨m, -, rfl⟩ := Option.map_eq_some_iff.mp he
    exact Or.inl rfl
  | simulation i a =>
    obtain ⟨r, hr, rfl⟩ := Option.map_eq_some_iff.mp he
    exact act_forward h hr j

section Returns

def Alive (s : State n) : Prop :=
  s.main ≠ .exited ∧ s.main ≠ .failed

lemma reaches_joiner (ha : Alive s) (he : joinerStep s = some s') : (system n).Reaches s s' := by
  have hstep : (system n).step s .joiner = some s' := by
    simp only [system, step, if_neg (not_or.mpr ha)]
    exact he
  exact ⟨[.joiner], .cons hstep (.nil s')⟩

lemma test_reaches (ha : Alive s) (hm : s.joiner = .test) (hn : s.joinedNum = n) :
    ∃ s', (system n).Reaches s s' ∧ s'.joiner = .returned := by
  have hlast : joinerStep s = some { s with joiner := .returned } := by simp [joinerStep, hm, hn]
  exact ⟨_, reaches_joiner ha hlast, rfl⟩

lemma unlock_reaches (h : Kept s) (ha : Alive s) (hm : s.joiner = .unlock)
    (hn : s.joinedNum = n) : ∃ s', (system n).Reaches s s' ∧ s'.joiner = .returned := by
  obtain ⟨m, hunlock⟩ : ∃ m, s.roster.monitor.unlock none = some m :=
    ⟨_, if_pos (h.holder.mpr (by rw [hm]; rfl))⟩
  let t : State n := { s with roster := s.roster.setMonitor m, joiner := .test }
  have hfirst : joinerStep s = some t := by simp [joinerStep, hm, hunlock, t]
  obtain ⟨s', hr, hret⟩ := test_reaches (s := t) ha rfl hn
  exact ⟨s', (reaches_joiner ha hfirst).trans hr, hret⟩

lemma sweep_reaches {idx : ℕ} (h : Kept s) (ha : Alive s) (hm : s.joiner = .sweep idx)
    (hall : ∀ i, s.roster.status i = .joined) (hn : s.joinedNum = n) :
    ∃ s', (system n).Reaches s s' ∧ s'.joiner = .returned := by
  induction hk : n - idx generalizing idx s with
  | zero =>
    have hlast : ¬ idx < n := by omega
    have hfirst : joinerStep s = some { s with joiner := .unlock } := by
      simp only [joinerStep, hm, sweepPc, dif_neg hlast]
    obtain ⟨s', hr, hret⟩ := unlock_reaches (joinerStep_kept h hfirst) ha rfl hn
    exact ⟨s', (reaches_joiner ha hfirst).trans hr, hret⟩
  | succ k ih =>
    have hlt : idx < n := by omega
    have hfirst : joinerStep s = some { s with joiner := .sweep (idx + 1) } := by
      simp [joinerStep, hm, sweepPc, hlt, hall]
    obtain ⟨s', hr, hret⟩ := ih (joinerStep_kept h hfirst) ha rfl hall hn (by omega)
    exact ⟨s', (reaches_joiner ha hfirst).trans hr, hret⟩

lemma Kept.returns (h : Kept s) (hf : s.main ≠ .failed) (hu : s.joiner ≠ .unborn)
    (hall : ∀ i, s.joins i = 1) : ∃ s', (system n).Reaches s s' ∧ s'.joiner = .returned := by
  by_cases hr : s.joiner = .returned
  · exact ⟨s, .refl, hr⟩
  have ha : Alive s := ⟨fun hx => hr (h.point.exited hx), hf⟩
  have hstatus : (∀ i, s.joiner ≠ .mark i) → ∀ i, s.roster.status i = .joined :=
    fun hm => (h.joins_eq hm).mp hall
  have hent := h.accounted.all hall
  cases hm : s.joiner with
  | unborn => exact absurd hm hu
  | returned => exact absurd hm hr
  | lock | guard | waiting =>
    rw [hm] at hent
    cases hent
  | test => exact test_reaches ha hm (h.all_joined.mpr (hstatus (by simp [hm])))
  | unlock => exact unlock_reaches h ha hm (h.all_joined.mpr (hstatus (by simp [hm])))
  | sweep idx =>
    have hst := hstatus (by simp [hm])
    exact sweep_reaches h ha hm hst (h.all_joined.mpr hst)
  | join i =>
    have hst := hstatus (by simp [hm]) i
    rw [h.point.join i hm] at hst
    cases hst
  | mark i =>
    have hfirst : joinerStep s = some (markStep s i) := by simp [joinerStep, hm]
    have hnext : Kept (markStep s i) := joinerStep_kept h hfirst
    have hst : ∀ j, (markStep s i).roster.status j = .joined :=
      (hnext.joins_eq (by simp [markStep])).mp hall
    obtain ⟨s', hreach, hret⟩ := sweep_reaches hnext ha rfl hst (hnext.all_joined.mpr hst)
    exact ⟨s', (reaches_joiner ha hfirst).trans hreach, hret⟩

end Returns

theorem counters_accounted (n : ℕ) (s : State n) (h : (system n).Reachable s) :
    Accounted s ∧
    (∀ l s' i, step s l = some s' → Forward (s.roster.status i) (s'.roster.status i)) ∧
    (s.main ≠ .failed → s.joiner ≠ .unborn → (∀ i, s.joins i = 1) →
      ∃ s', (system n).Reaches s s' ∧ s'.joiner = .returned) := by
  have hk : Kept s := (kept_inductive n).reachable h
  exact ⟨hk.accounted, fun l s' i he => step_forward hk he i, hk.returns⟩

theorem counters_accounted_two : ∃ s, (system 2).Reachable s ∧ s.joiner = .mark 0 ∧
    s.roster.phase 1 = .asleep ∧ s.joins 0 = 1 ∧ Accounted s := by
  have hrun : ((system 2).exec (start 2)
      [.main, .main, .main, .simulation 0 .start, .simulation 0 .awake, .simulation 1 .start,
        .simulation 0 .lock, .simulation 0 .mark, .simulation 0 .unlock,
        .simulation 0 (.signal none), .joiner, .joiner, .joiner, .joiner, .joiner]).map
      (fun s => (s.joiner, s.roster.phase 1, s.joins 0)) = some (.mark 0, .asleep, 1) := rfl
  obtain ⟨s, hs, he⟩ := System.Reachable.observe rfl hrun
  simp only [Prod.mk.injEq] at he
  obtain ⟨hj, hp, hone⟩ := he
  exact ⟨s, hs, hj, hp, hone, (counters_accounted 2 s hs).1⟩

end UnixProgramming.JoinTerm
