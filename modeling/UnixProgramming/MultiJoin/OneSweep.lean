import UnixProgramming.MultiJoin.Sweep
import UnixProgramming.Library.RosterProgress

/-! Whatever has terminated when `main` enters its sweep, the sweep is the only one: it takes
every entry off the counters and joins the threads that it finds terminated. -/

namespace UnixProgramming.MultiJoin

open Library Library.Transition

variable {n k : ℕ} {args : Fin n → ℤ} {s s' : State n} {i : Fin n} {l : Label n}

namespace MainPc

def early : MainPc n → Bool
  | .init _ | .create _ | .total | .test | .lock | .guard | .waiting | .failed => true
  | .sweep _ | .join _ | .mark _ | .unlock | .exited => false

def entered : MainPc n → Bool
  | .lock | .guard | .waiting => true
  | .init _ | .create _ | .total | .test | .sweep _ | .join _ | .mark _ | .unlock | .exited
  | .failed => false

end MainPc

structure Gathering (s : State n) : Prop where
  tidy : Tidy s 0
  due : s.roster.Due
  main : s.main.early = true
  started : ∀ i, s.roster.phase i ≠ .start
  enters : s.main.entered = true → 0 < n

/-- At most one join for each thread, and only of one that has returned. -/
def Joined (s : State n) : Prop :=
  ∀ i, s.joins i ≤ 1 ∧ (s.joins i = 1 → s.roster.phase i = .returned)

def SweepPoint (s : State n) (k : ℕ) : Prop :=
  match s.main with
  | .sweep idx => k = idx ∧ idx ≤ n
  | .join i => k = i ∧ s.roster.status i = .terminated
  | .mark i => k = i ∧ (s.roster.status i = .terminated → s.joins i = 1)
  | .unlock => k = n
  | .init _ | .create _ | .total | .test | .lock | .guard | .waiting | .exited | .failed => False

/-- In the sweep, which has passed the first `k` entries. -/
structure Sweeping (s : State n) (k : ℕ) : Prop where
  synced : s.roster.Synced
  owner : s.roster.monitor.owner = some none
  born : ∀ i, s.roster.phase i ≠ .unborn ∧ s.roster.phase i ≠ .start
  tid : ∀ i, s.tid i = some i
  alive : ∀ i, k ≤ i.val → (s.roster.status i = .alive ↔ (s.roster.phase i).early = true)
  ahead : ∀ i, k ≤ i.val → s.roster.status i ≠ .joined
  joined : Joined s
  rest : ∀ i, k ≤ i.val → s.main ≠ .mark i → s.joins i = 0
  found : ∃ i, s.joins i = 1 ∨ k ≤ i.val ∧ s.roster.status i = .terminated
  counted : s.roster.unjoined + k = s.roster.late
  live : s.numLive = n - k
  point : SweepPoint s k

structure Swept (s : State n) : Prop where
  main : s.main = .test ∨ s.main = .exited
  joined : Joined s
  found : 0 < n → ∃ i, s.joins i = 1
  counted : s.roster.unjoined + n = s.roster.late
  live : s.numLive = 0

def Stage (s : State n) : Prop :=
  Gathering s ∨ (∃ k, Sweeping s k) ∨ Swept s

lemma start_gathering (n : ℕ) : Gathering (start n) where
  tidy := start_tidy n
  due hb := by simp [start] at hb
  main := rfl
  started i := by simp [start]
  enters h := by cases h

lemma Gathering.joins (h : Gathering s) (i : Fin n) : s.joins i = 0 := by
  apply (h.tidy.rest i (Nat.zero_le _)).2
  intro hm
  have hearly := h.main
  simp [hm, MainPc.early] at hearly

lemma Gathering.joined (h : Gathering s) : Joined s := by
  intro i
  rw [h.joins i]
  exact ⟨Nat.zero_le 1, fun h => by cases h⟩

lemma Gathering.status (h : Gathering s) (i : Fin n) :
    s.roster.status i = .terminated ↔ (s.roster.phase i).early = false := by
  have halive := h.tidy.sound.alive i
  have hjoined := (h.tidy.rest i (Nat.zero_le _)).1
  cases hst : s.roster.status i with
  | alive => simp [halive.mp hst]
  | joined => exact absurd hst hjoined
  | terminated =>
    rw [hst] at halive
    simpa using halive

lemma Gathering.late (h : Gathering s) : (s.roster.late : ℤ) = s.roster.unjoined := by
  rw [h.tidy.sound.counted, Roster.late, census, census]
  congr 2
  exact Finset.filter_congr fun i _ => (h.status i).symm

lemma Gathering.goto {pc : MainPc n} (h : Gathering s) (ht : Tidy { s with main := pc } 0)
    (hm : pc.early = true) (he : pc.entered = true → 0 < n) :
    Gathering { s with main := pc } where
  tidy := ht
  due := h.due
  main := hm
  started := h.started
  enters := he

lemma Gathering.monitor {m : Monitor (Option (Fin n))} {pc : MainPc n} (h : Gathering s)
    (ht : Tidy { s with roster := s.roster.setMonitor m, main := pc } 0)
    (hb : none ∈ m.blocked → none ∈ s.roster.monitor.blocked ∨ s.roster.unjoined = 0)
    (hm : pc.early = true) (he : pc.entered = true → 0 < n) :
    Gathering { s with roster := s.roster.setMonitor m, main := pc } where
  tidy := ht
  due hb' hu := by
    rcases hb hb' with hold | hzero
    · exact h.due hold hu
    · exact absurd hzero (ne_of_gt hu)
  main := hm
  started := h.started
  enters := he

lemma Gathering.act {a : Roster.Act (Fin n)} {r : Roster (Fin n)} (h : Gathering s)
    (he : s.roster.act i a = some r) : Gathering { s with roster := r } where
  tidy := act_tidy h.tidy he
  due := Roster.act_due h.tidy.sound h.due he
  main := h.main
  started j := by
    obtain ⟨hlive, hphase⟩ := Roster.act_phase he
    simp only [hphase]
    by_cases hj : j = i
    · rw [hj, Function.update_self]
      exact (Phase.next_born hlive).2
    · rw [Function.update_of_ne hj]
      exact h.started j
  enters := h.enters

lemma Gathering.create (h : Gathering s) (he : createStep s = some s') : Gathering s' := by
  have ht : Tidy s' 0 := createStep_tidy h.tidy he
  cases hm : s.main with
  | create i =>
    simp only [createStep, hm] at he
    obtain ⟨r, hr, rfl⟩ := Option.map_eq_some_iff.mp he
    simp only [Roster.create, Option.ite_none_right_eq_some, Option.some.injEq] at hr
    obtain ⟨hu, rfl⟩ := hr
    refine ⟨ht, fun hb hpos => ?_, rfl, fun j => ?_, fun h => by cases h⟩
    · obtain ⟨j, hj⟩ := h.due hb hpos
      have hji : j ≠ i := by
        rintro rfl
        simp [hu] at hj
      exact ⟨j, by simpa [hji] using hj⟩
    · by_cases hji : j = i
      · simp [hji]
      · simpa [hji] using h.started j
  | _ => simp [createStep, hm] at he

lemma Gathering.createFails (h : Gathering s) (he : createFails s = some s') : Gathering s' := by
  have ht : Tidy s' 0 := createFails_tidy h.tidy he
  cases hm : s.main with
  | create i =>
    simp only [MultiJoin.createFails, hm, Option.some.injEq] at he
    subst he
    exact h.goto ht rfl fun h => by cases h
  | _ => simp [MultiJoin.createFails, hm] at he

lemma Gathering.resume (h : Gathering s) (he : resumeStep s = some s') : Gathering s' := by
  have ht : Tidy s' 0 := resume_tidy h.tidy he
  simp only [resumeStep, Option.ite_none_right_eq_some] at he
  obtain ⟨hm, he⟩ := he
  obtain ⟨m, hresume, rfl⟩ := Option.map_eq_some_iff.mp he
  obtain ⟨-, -, hb, -⟩ := Monitor.resume_eq_some.mp hresume
  exact h.monitor ht (fun hb' => Or.inl (hb ▸ hb')) rfl fun _ => h.enters (by rw [hm]; rfl)

lemma Gathering.spurious {m : Monitor (Option (Fin n))} (h : Gathering s)
    (hwake : s.roster.monitor.wake none = some m) :
    Gathering { s with roster := s.roster.setMonitor m } := by
  obtain ⟨-, -, hb, -⟩ := Monitor.wake_eq_some.mp hwake
  have hold : none ∈ m.blocked → none ∈ s.roster.monitor.blocked := by
    rw [hb]
    exact Finset.mem_of_mem_erase
  exact h.monitor (spurious_tidy h.tidy hwake) (fun hb' => Or.inl (hold hb')) h.main h.enters

lemma Gathering.initStep {idx : ℕ} (h : Gathering s) (hm : s.main = .init idx) :
    Gathering (initStep args s idx) := by
  have ht : Tidy (MultiJoin.initStep args s idx) 0 := initStep_tidy h.tidy hm
  by_cases hidx : idx < n
  · rw [MultiJoin.initStep, dif_pos hidx] at ht ⊢
    exact ⟨ht, h.due, rfl, h.started, fun h => by cases h⟩
  · rw [MultiJoin.initStep, dif_neg hidx] at ht ⊢
    exact h.goto ht rfl fun h => by cases h

/-- `main` enters the sweep only when some thread has terminated. -/
lemma Gathering.enter (h : Gathering s) (hm : s.main = .guard) (hne : s.roster.unjoined ≠ 0) :
    Sweeping { s with main := .sweep 0 } 0 where
  synced := h.tidy.sound.synced
  owner := h.tidy.holder.mpr (by rw [hm]; rfl)
  born j := by
    have hborn := (h.tidy.created (by simp [hm]) j).not.mpr (by simp [hm, MainPc.ahead])
    exact ⟨hborn, h.started j⟩
  tid j := h.tidy.tid j ((h.tidy.created (by simp [hm]) j).not.mpr (by simp [hm, MainPc.ahead]))
  alive j _ := h.tidy.sound.alive j
  ahead j hj := (h.tidy.rest j hj).1
  joined := h.joined
  rest j _ _ := h.joins j
  found := by
    have hcount := h.tidy.sound.counted
    have hpos : 0 < census s.roster.status .terminated := by omega
    obtain ⟨j, hj⟩ := census_pos.mp hpos
    exact ⟨j, Or.inr ⟨Nat.zero_le _, hj⟩⟩
  counted := by
    have hlate := h.late
    push_cast
    omega
  live := h.tidy.live (by rw [hm]; rfl)
  point := ⟨rfl, Nat.zero_le n⟩

lemma Gathering.leave (h : Gathering s) (hm : s.main = .test) (hl : ¬ s.numLive > 0) :
    Swept { s with main := .exited } := by
  have hlive := h.tidy.live (by rw [hm]; rfl)
  have hzero : n = 0 := by
    push_cast at hlive
    omega
  have hlate := h.late
  refine ⟨Or.inr rfl, h.joined, fun hpos => by omega, ?_, ?_⟩
  · change s.roster.unjoined + n = s.roster.late
    omega
  · change s.numLive = 0
    push_cast at hlive
    omega

lemma Gathering.mainStep (h : Gathering s) (he : mainStep args s = some s') : Stage s' := by
  cases hm : s.main with
  | init idx =>
    simp only [MultiJoin.mainStep, hm, Option.some.injEq] at he
    exact Or.inl (he ▸ h.initStep hm)
  | total =>
    simp only [MultiJoin.mainStep, hm, Option.some.injEq] at he
    subst he
    exact Or.inl ⟨total_tidy h.tidy hm, h.due, rfl, h.started, fun h => by cases h⟩
  | test =>
    have ht := test_tidy h.tidy hm
    simp only [MultiJoin.mainStep, hm, Option.some.injEq] at he
    subst he
    by_cases hl : s.numLive > 0
    · rw [if_pos hl] at ht ⊢
      have hlive := h.tidy.live (by rw [hm]; rfl)
      exact Or.inl (h.goto ht rfl fun _ => by push_cast at hlive; omega)
    · rw [if_neg hl]
      exact Or.inr (Or.inr (h.leave hm hl))
  | lock =>
    simp only [MultiJoin.mainStep, hm] at he
    obtain ⟨m, hlock, rfl⟩ := Option.map_eq_some_iff.mp he
    obtain ⟨-, -, hb, -⟩ := Monitor.lock_eq_some.mp hlock
    exact Or.inl (h.monitor (lock_tidy h.tidy hm hlock) (fun hb' => Or.inl (hb ▸ hb')) rfl
      fun _ => h.enters (by rw [hm]; rfl))
  | guard =>
    simp only [MultiJoin.mainStep, hm] at he
    split_ifs at he with hzero
    · obtain ⟨m, hwait, rfl⟩ := Option.map_eq_some_iff.mp he
      exact Or.inl (h.monitor (guard_tidy h.tidy hm hwait) (fun _ => Or.inr hzero) rfl
        fun _ => h.enters (by rw [hm]; rfl))
    · obtain rfl := Option.some.inj he
      exact Or.inr (Or.inl ⟨0, h.enter hm hzero⟩)
  | create i | waiting | failed => simp [MultiJoin.mainStep, hm] at he
  | sweep idx | join i | mark i | unlock | exited =>
    have hearly := h.main
    simp [hm, MainPc.early] at hearly

lemma Gathering.step (h : Gathering s) (he : step args s l = some s') : Stage s' := by
  simp only [MultiJoin.step, Option.ite_none_left_eq_some] at he
  obtain ⟨-, he⟩ := he
  cases l with
  | main => exact h.mainStep he
  | create => exact Or.inl (h.create he)
  | createFails => exact Or.inl (h.createFails he)
  | resume => exact Or.inl (h.resume he)
  | spurious =>
    obtain ⟨m, hwake, rfl⟩ := Option.map_eq_some_iff.mp he
    exact Or.inl (h.spurious hwake)
  | threadFunc i a =>
    obtain ⟨r, hr, rfl⟩ := Option.map_eq_some_iff.mp he
    exact Or.inl (h.act hr)

lemma Sweeping.join (h : Sweeping s k) (hm : s.main = .join i) (hk : k = i)
    (hst : s.roster.status i = .terminated) (he : joinStep s i = some s') : Sweeping s' k := by
  simp only [joinStep, h.tid i, Option.bind_some, Option.ite_none_right_eq_some,
    Option.some.injEq] at he
  obtain ⟨hret, rfl⟩ := he
  have hzero : s.joins i = 0 := h.rest i hk.le (by simp [hm])
  refine ⟨h.synced, h.owner, h.born, h.tid, h.alive, h.ahead, fun j => ?_, fun j hj hne => ?_,
    ⟨i, Or.inr ⟨hk.le, hst⟩⟩, h.counted, h.live, ⟨hk, fun _ => by simp [hzero]⟩⟩
  · by_cases hji : j = i
    · subst hji
      simp [hzero, hret]
    · simpa [hji] using h.joined j
  · have hji : j ≠ i := by
      rintro rfl
      exact hne rfl
    simpa [hji] using h.rest j hj (by simp [hm])

lemma Sweeping.mark (h : Sweeping s k) (hm : s.main = .mark i) (hk : k = i)
    (hjoin : s.roster.status i = .terminated → s.joins i = 1) :
    Sweeping { s with
      roster := s.roster.retire i
      numLive := s.numLive - 1
      main := .sweep (i + 1) } (k + 1) := by
  have hother : ∀ j : Fin n, k + 1 ≤ j.val → j ≠ i := by
    rintro j hj rfl
    omega
  refine ⟨⟨h.synced.owner, h.synced.waiters⟩, h.owner, h.born, h.tid, fun j hj => ?_,
    fun j hj => ?_, h.joined, fun j hj _ => h.rest j (by omega) ?_, ?_, ?_, ?_,
    ⟨by rw [hk], i.isLt⟩⟩
  · simpa [Roster.retire, hother j hj] using h.alive j (by omega)
  · simpa [Roster.retire, hother j hj] using h.ahead j (by omega)
  · rw [hm]
    rintro ⟨⟩
    exact hother i hj rfl
  · obtain ⟨j, hj | ⟨hkj, hst⟩⟩ := h.found
    · exact ⟨j, Or.inl hj⟩
    · by_cases hji : j = i
      · subst hji
        exact ⟨j, Or.inl (hjoin hst)⟩
      · have hval : j.val ≠ i.val := fun hv => hji (Fin.ext hv)
        exact ⟨j, Or.inr ⟨by omega, by simpa [Roster.retire, hji] using hst⟩⟩
  · have hcount := h.counted
    change s.roster.unjoined - 1 + ((k + 1 : ℕ) : ℤ) = s.roster.late
    push_cast
    omega
  · have hlive := h.live
    change s.numLive - 1 = n - ((k + 1 : ℕ) : ℤ)
    push_cast
    omega

lemma Sweeping.unlock (h : Sweeping s k) (m : Monitor (Option (Fin n))) (hk : k = n) :
    Swept { s with roster := s.roster.setMonitor m, main := .test } where
  main := Or.inl rfl
  joined := h.joined
  found _ := by
    obtain ⟨j, hj | ⟨hkj, -⟩⟩ := h.found
    · exact ⟨j, hj⟩
    · omega
  counted := by
    have hcount := h.counted
    rwa [hk] at hcount
  live := by
    have hlive := h.live
    rw [hk] at hlive
    change s.numLive = 0
    omega

lemma Joined.act {a : Roster.Act (Fin n)} {r : Roster (Fin n)} (h : Joined s)
    (he : s.roster.act i a = some r) : Joined { s with roster := r } := by
  obtain ⟨hlive, hphase⟩ := Roster.act_phase he
  refine fun j => ⟨(h j).1, fun hj => ?_⟩
  have hret := (h j).2 hj
  have hji : j ≠ i := by
    rintro rfl
    exact hlive.2 hret
  change r.phase j = .returned
  rwa [hphase, Function.update_of_ne hji]

lemma Sweeping.act {a : Roster.Act (Fin n)} {r : Roster (Fin n)} (h : Sweeping s k)
    (he : s.roster.act i a = some r) : Sweeping { s with roster := r } k := by
  obtain ⟨hlive, hphase⟩ := Roster.act_phase he
  obtain ⟨hst, -, ho⟩ := h.synced.held h.owner (h.born i).2 he
  -- the thread cannot be at its mark, for it would have the mutex
  have hmark : s.roster.phase i ≠ .mark := by
    intro hp
    have hown := (h.synced.owner i).mpr (by rw [hp]; rfl)
    cases hown.symm.trans h.owner
  have hearly : ∀ j, (r.phase j).early = (s.roster.phase j).early := by
    intro j
    by_cases hji : j = i
    · rw [hphase, hji, Function.update_self, Phase.next_early hmark]
    · rw [hphase, Function.update_of_ne hji]
  refine ⟨Roster.act_synced h.synced he, ho, fun j => ?_, h.tid, fun j hj => ?_, fun j hj => ?_,
    h.joined.act he, h.rest, ?_, ?_, h.live, ?_⟩
  · change r.phase j ≠ .unborn ∧ r.phase j ≠ .start
    by_cases hji : j = i
    · rw [hphase, hji, Function.update_self]
      exact Phase.next_born hlive
    · rw [hphase, Function.update_of_ne hji]
      exact h.born j
  · change r.status j = .alive ↔ (r.phase j).early = true
    rw [hst, hearly]
    exact h.alive j hj
  · change r.status j ≠ .joined
    rw [hst]
    exact h.ahead j hj
  · change ∃ j, s.joins j = 1 ∨ k ≤ j.val ∧ r.status j = .terminated
    rw [hst]
    exact h.found
  · have hcount := h.counted
    have hlate := Roster.act_late he
    change r.unjoined + k = r.late
    omega
  · have hpoint := h.point
    cases hm : s.main with
    | join j | mark j =>
      simp only [SweepPoint, hm] at hpoint ⊢
      rwa [hst]
    | sweep idx | unlock =>
      simp only [SweepPoint, hm] at hpoint ⊢
      exact hpoint
    | init idx | create i | total | test | lock | guard | waiting | exited | failed =>
      simp only [SweepPoint, hm] at hpoint

lemma Sweeping.mainStep (h : Sweeping s k) (he : mainStep args s = some s') : Stage s' := by
  have hpoint := h.point
  cases hm : s.main with
  | sweep idx =>
    simp only [SweepPoint, hm] at hpoint
    obtain ⟨rfl, hle⟩ := hpoint
    simp only [MultiJoin.mainStep, hm, Option.some.injEq] at he
    subst he
    refine Or.inr (Or.inl ⟨k, h.synced, h.owner, h.born, h.tid, h.alive, h.ahead, h.joined,
      fun j hj _ => h.rest j hj (by simp [hm]), h.found, h.counted, h.live, ?_⟩)
    by_cases hidx : k < n
    · by_cases hst : s.roster.status ⟨k, hidx⟩ = .terminated
      · simp only [SweepPoint, sweepPc, dif_pos hidx, if_pos hst]
        exact ⟨trivial, hst⟩
      · simp only [SweepPoint, sweepPc, dif_pos hidx, if_neg hst]
        exact ⟨trivial, fun h => absurd h hst⟩
    · simp only [SweepPoint, sweepPc, dif_neg hidx]
      omega
  | join i =>
    simp only [SweepPoint, hm] at hpoint
    obtain ⟨hk, hst⟩ := hpoint
    simp only [MultiJoin.mainStep, hm] at he
    exact Or.inr (Or.inl ⟨k, h.join hm hk hst he⟩)
  | mark i =>
    simp only [SweepPoint, hm] at hpoint
    obtain ⟨hk, hjoin⟩ := hpoint
    simp only [MultiJoin.mainStep, hm, Option.some.injEq] at he
    exact Or.inr (Or.inl ⟨k + 1, he ▸ h.mark hm hk hjoin⟩)
  | unlock =>
    simp only [SweepPoint, hm] at hpoint
    simp only [MultiJoin.mainStep, hm] at he
    obtain ⟨m, -, rfl⟩ := Option.map_eq_some_iff.mp he
    exact Or.inr (Or.inr (h.unlock m hpoint))
  | init idx | create i | total | test | lock | guard | waiting | exited | failed =>
    simp only [SweepPoint, hm] at hpoint

lemma Sweeping.step (h : Sweeping s k) (he : step args s l = some s') : Stage s' := by
  simp only [MultiJoin.step, Option.ite_none_left_eq_some] at he
  obtain ⟨-, he⟩ := he
  have hpoint := h.point
  cases l with
  | main => exact h.mainStep he
  | create =>
    cases hm : s.main with
    | create i => simp only [SweepPoint, hm] at hpoint
    | _ => simp [createStep, hm] at he
  | createFails =>
    cases hm : s.main with
    | create i => simp only [SweepPoint, hm] at hpoint
    | _ => simp [createFails, hm] at he
  | resume =>
    simp only [resumeStep, Option.ite_none_right_eq_some] at he
    simp only [SweepPoint, he.1] at hpoint
  | spurious =>
    obtain ⟨m, hwake, -⟩ := Option.map_eq_some_iff.mp he
    have hb := (Monitor.wake_eq_some.mp hwake).1
    exact absurd hb (s.roster.monitor.awake none h.owner).1
  | threadFunc i a =>
    obtain ⟨r, hr, rfl⟩ := Option.map_eq_some_iff.mp he
    exact Or.inr (Or.inl ⟨k, h.act hr⟩)

lemma Swept.step (h : Swept s) (he : step args s l = some s') : Swept s' := by
  simp only [MultiJoin.step, Option.ite_none_left_eq_some, not_or] at he
  obtain ⟨⟨hx, -⟩, he⟩ := he
  have hm : s.main = .test := h.main.resolve_right hx
  cases l with
  | main =>
    simp only [mainStep, hm, h.live, lt_irrefl, if_false, Option.some.injEq] at he
    subst he
    exact ⟨Or.inr rfl, h.joined, h.found, h.counted, rfl⟩
  | create => simp [createStep, hm] at he
  | createFails => simp [createFails, hm] at he
  | resume => simp [resumeStep, hm] at he
  | spurious =>
    obtain ⟨m, -, rfl⟩ := Option.map_eq_some_iff.mp he
    exact ⟨h.main, h.joined, h.found, h.counted, h.live⟩
  | threadFunc i a =>
    obtain ⟨r, hr, rfl⟩ := Option.map_eq_some_iff.mp he
    have hlate := Roster.act_late hr
    have hcount := h.counted
    refine ⟨h.main, h.joined.act hr, h.found, ?_, h.live⟩
    change r.unjoined + n = r.late
    omega

lemma stage_inductive (args : Fin n → ℤ) : (system args).Inductive Stage where
  initial s hs := Or.inl (hs ▸ start_gathering n)
  step s l t hs he := by
    rcases hs with h | ⟨k, h⟩ | h
    · exact h.step he
    · exact h.step he
    · exact Or.inr (Or.inr (h.step he))

lemma Stage.joined (h : Stage s) : Joined s := by
  rcases h with h | ⟨k, h⟩ | h
  · exact h.joined
  · exact h.joined
  · exact h.joined

lemma Stage.counted (h : Stage s) (hj : s.main.joining = true) :
    s.roster.unjoined + (n - s.numLive) = s.roster.late := by
  rcases h with h | ⟨k, h⟩ | h
  · have hlive := h.tidy.live hj
    have hlate := h.late
    push_cast at hlive
    omega
  · have hlive := h.live
    have hcount := h.counted
    omega
  · have hlive := h.live
    have hcount := h.counted
    omega

lemma Stage.test (h : Stage s) (hm : s.main = .test) : s.numLive = n ∨ s.numLive = 0 := by
  rcases h with h | ⟨k, h⟩ | h
  · have hlive := h.tidy.live (by rw [hm]; rfl)
    push_cast at hlive
    omega
  · have hpoint := h.point
    simp only [SweepPoint, hm] at hpoint
  · exact Or.inr h.live

lemma Stage.exited (h : Stage s) (hm : s.main = .exited) : Swept s := by
  rcases h with h | ⟨k, h⟩ | h
  · have hearly := h.main
    simp [hm, MainPc.early] at hearly
  · have hpoint := h.point
    simp only [SweepPoint, hm] at hpoint
  · exact h

/-- `numUnjoined` is short by the entries that the sweep has passed, and the counter of
the live threads goes from `n` to zero in one sweep. -/
theorem one_sweep (args : Fin n → ℤ) (s : State n) (h : (system args).Reachable s) :
    (∀ i, s.joins i ≤ 1 ∧ (s.joins i = 1 → s.roster.phase i = .returned)) ∧
    (s.main.joining = true → s.roster.unjoined + (n - s.numLive) = s.roster.late) ∧
    (s.main = .test → s.numLive = n ∨ s.numLive = 0) ∧
    (s.main = .exited → s.numLive = 0 ∧ (0 < n → ∃ i, s.joins i = 1)) := by
  have hs : Stage s := (stage_inductive args).reachable h
  refine ⟨hs.joined, hs.counted, hs.test, fun hx => ?_⟩
  have hswept := hs.exited hx
  exact ⟨hswept.live, hswept.found⟩

theorem one_sweep_two : ∃ s, (system fun _ : Fin 2 => 3).Reachable s ∧ s.main = .exited ∧
    s.roster.late = 1 ∧ s.roster.unjoined + (2 - s.numLive) = s.roster.late ∧
    s.numLive = 0 ∧ ∃ i, s.joins i = 1 := by
  have hrun : ((system fun _ : Fin 2 => 3).exec (start 2)
      [.main, .create, .main, .create, .main, .main, .threadFunc 0 .awake, .threadFunc 0 .lock,
        .threadFunc 0 .mark, .threadFunc 0 .unlock, .threadFunc 0 (.signal none), .main, .main,
        .main, .main, .main, .main, .main, .main, .main, .main, .main]).map
      (fun s => (s.main, s.roster.late)) = some (.exited, 1) := rfl
  obtain ⟨s, hs, he⟩ := System.Reachable.observe rfl hrun
  simp only [Prod.mk.injEq] at he
  obtain ⟨hm, hlate⟩ := he
  obtain ⟨-, hcount, -, hexit⟩ := one_sweep (fun _ : Fin 2 => 3) s hs
  obtain ⟨hlive, hfound⟩ := hexit hm
  exact ⟨s, hs, hm, hlate, hcount (by rw [hm]; rfl), hlive, hfound (by decide)⟩

end UnixProgramming.MultiJoin
