import UnixProgramming.MultiJoin.Model

/-! What the sweep of `main` does to the two counters and the thread states. -/

namespace UnixProgramming.MultiJoin

open Library Library.Transition

variable {n k : ℕ} {args : Fin n → ℤ} {s s' : State n} {i : Fin n} {pc : MainPc n}

namespace MainPc

def holds : MainPc n → Bool
  | .guard | .sweep _ | .join _ | .mark _ | .unlock => true
  | .init _ | .create _ | .total | .test | .lock | .waiting | .exited | .failed => false

def joining : MainPc n → Bool
  | .test | .lock | .guard | .waiting | .sweep _ | .join _ | .mark _ | .unlock | .exited => true
  | .init _ | .create _ | .total | .failed => false

def ahead (i : Fin n) : MainPc n → Prop
  | .init idx => idx ≤ i
  | .create j => j ≤ i
  | _ => False

end MainPc

structure Accounted (s : State n) : Prop where
  unjoined : s.main.joining = true → s.roster.monitor.owner = none →
    s.roster.unjoined = (Finset.univ.filter fun i => s.roster.status i = .terminated).card
  live : s.main.joining = true → s.roster.monitor.owner = none →
    s.numLive = (Finset.univ.filter fun i => s.roster.status i ≠ .joined).card
  joined : ∀ i, s.roster.status i = .joined → 0 < s.joins i
  exit : s.main = .exited → ∀ i, s.roster.phase i = .returned ∧ s.joins i = 1

/-- `main` marks no entry whose thread has not terminated. -/
def MarksTerminated (s : State n) (l : Label n) : Prop :=
  ∀ i, l = .main → s.main = .mark i → s.roster.status i = .terminated

def Point (s : State n) (k : ℕ) : Prop :=
  match s.main with
  | .init _ | .create _ | .total | .lock | .guard | .waiting | .failed => k = 0
  | .test => k = 0 ∨ k = n
  | .sweep idx => k = idx ∧ idx ≤ n
  | .join i => k = i ∧ s.roster.status i = .terminated
  | .mark i => k = i ∧ (s.roster.status i = .terminated →
      s.roster.phase i = .returned ∧ s.joins i = 1) ∧
      (s.roster.status i ≠ .terminated → s.joins i = 0)
  | .unlock | .exited => k = n

/-- The first `k` entries are joined, and no other. -/
structure Tidy (s : State n) (k : ℕ) : Prop where
  sound : s.roster.Sound
  holder : s.roster.monitor.owner = some none ↔ s.main.holds = true
  waiting : none ∈ s.roster.monitor.blocked ∨ none ∈ s.roster.monitor.woken ↔ s.main = .waiting
  created : s.main ≠ .failed → ∀ i, s.roster.phase i = .unborn ↔ s.main.ahead i
  tid : ∀ i, s.roster.phase i ≠ .unborn → s.tid i = some i
  joined : ∀ i, i.val < k → s.roster.status i = .joined ∧ s.roster.phase i = .returned ∧
    s.joins i = 1
  rest : ∀ i, k ≤ i.val → s.roster.status i ≠ .joined ∧ (s.main ≠ .mark i → s.joins i = 0)
  live : s.main.joining = true → s.numLive = n - k
  point : Point s k

lemma start_tidy (n : ℕ) : Tidy (start n) 0 where
  sound := ⟨fun i => by simp [start, Phase.holds], fun i => by simp [start],
    fun i => by simp [start, Phase.early], by simp [start, census]⟩
  holder := by simp [start, MainPc.holds]
  waiting := by simp [start]
  created _ i := by simp [start, MainPc.ahead]
  tid i hi := absurd rfl hi
  joined i hi := absurd hi (Nat.not_lt_zero _)
  rest i _ := ⟨by simp [start], fun _ => rfl⟩
  live h := by cases h
  point := rfl

lemma Point.le (h : Point s k) : k ≤ n := by
  cases hm : s.main with
  | init | create | total | lock | guard | waiting | failed =>
    simp only [Point, hm] at h
    exact h ▸ Nat.zero_le n
  | test =>
    simp only [Point, hm] at h
    omega
  | sweep idx =>
    simp only [Point, hm] at h
    omega
  | join i | mark i =>
    simp only [Point, hm] at h
    exact h.1 ▸ i.isLt.le
  | unlock | exited =>
    simp only [Point, hm] at h
    exact h.le

lemma Tidy.card_joined (h : Tidy s k) : census s.roster.status .joined = k := by
  have hset : (Finset.univ.filter fun i => s.roster.status i = .joined) =
      Finset.univ.filter fun i : Fin n => i.val < k := by
    apply Finset.filter_congr
    intro i _
    constructor
    · intro hi
      by_contra hk
      exact (h.rest i (by omega)).1 hi
    · exact fun hi => (h.joined i hi).1
  rw [census, hset, Fin.card_filter_val_lt]
  exact min_eq_right h.point.le

lemma Tidy.accounted (h : Tidy s k) : Accounted s where
  unjoined _ _ := h.sound.counted
  live hj _ := by
    have hcard := card_ne_add_census (f := s.roster.status) (a := .joined)
    rw [h.card_joined, Fintype.card_fin] at hcard
    rw [h.live hj]
    omega
  joined i hi := by
    by_cases hk : i.val < k
    · rw [(h.joined i hk).2.2]
      exact Nat.one_pos
    · exact absurd hi (h.rest i (by omega)).1
  exit hx i := by
    have hk : k = n := by simpa [Point, hx] using h.point
    exact (h.joined i (hk ▸ i.isLt)).2

lemma Tidy.move (h : Tidy s k) {m : Monitor (Option (Fin n))}
    (hs : (s.roster.setMonitor m).Sound) (hh : m.owner = some none ↔ pc.holds = true)
    (hwait : none ∈ m.blocked ∨ none ∈ m.woken ↔ pc = .waiting)
    (ha : ∀ j, s.roster.phase j = .unborn ↔ pc.ahead j) (hmark : ∀ j, s.main ≠ .mark j)
    (hl : pc.joining = true → s.main.joining = true)
    (hp : Point { s with roster := s.roster.setMonitor m, main := pc } k) :
    Tidy { s with roster := s.roster.setMonitor m, main := pc } k where
  sound := hs
  holder := hh
  waiting := hwait
  created _ := ha
  tid := h.tid
  joined := h.joined
  rest j hj := ⟨(h.rest j hj).1, fun _ => (h.rest j hj).2 (hmark j)⟩
  live hj := h.live (hl hj)
  point := hp

lemma Tidy.goto (h : Tidy s k) (hh : pc.holds = s.main.holds) (hw : s.main ≠ .waiting)
    (hw' : pc ≠ .waiting) (ha : ∀ j, s.roster.phase j = .unborn ↔ pc.ahead j)
    (hmark : ∀ j, s.main ≠ .mark j)
    (hl : pc.joining = true → s.main.joining = true) (hp : Point { s with main := pc } k) :
    Tidy { s with main := pc } k := by
  apply h.move (m := s.roster.monitor) h.sound _ _ ha hmark hl hp
  · rw [hh]
    exact h.holder
  · exact h.waiting.trans (iff_of_false hw hw')

lemma act_tidy {a : Roster.Act (Fin n)} {r : Roster (Fin n)} (h : Tidy s k)
    (he : s.roster.act i a = some r) : Tidy { s with roster := r } k := by
  have hf := Roster.act_frame h.sound he
  refine ⟨Roster.act_sound h.sound he, hf.holder.trans h.holder, hf.waiting.trans h.waiting,
    fun hne j => (hf.unborn_iff j).trans (h.created hne j),
    fun j hj => h.tid j ((hf.unborn_iff j).not.mp hj), fun j hj => ?_,
    fun j hj => ⟨?_, (h.rest j hj).2⟩, h.live, ?_⟩
  · obtain ⟨hs, hp, hjoin⟩ := h.joined j hj
    obtain ⟨hp', hs'⟩ := hf.returned hp
    exact ⟨hs'.trans hs, hp', hjoin⟩
  · by_cases hji : j = i
    · subst hji
      rcases hf.own with hown | hown
      · rw [hown]
        exact (h.rest j hj).1
      · simp [hown]
    · rw [hf.status j hji]
      exact (h.rest j hj).1
  · have hpoint := h.point
    cases hm : s.main with
    | join j =>
      have hheld := hf.held (h.holder.mpr (by rw [hm]; rfl))
      simp only [Point, hm] at hpoint ⊢
      rw [hheld.1]
      exact hpoint
    | mark j =>
      have hheld := hf.held (h.holder.mpr (by rw [hm]; rfl))
      simp only [Point, hm] at hpoint ⊢
      refine ⟨hpoint.1, fun hj => ?_, fun hj => hpoint.2.2 (hheld.1 ▸ hj)⟩
      obtain ⟨hp, hjoin⟩ := hpoint.2.1 (hheld.1 ▸ hj)
      exact ⟨(hf.returned hp).1, hjoin⟩
    | init | create | total | lock | guard | waiting | failed | test | sweep | unlock | exited =>
      simp only [Point, hm] at hpoint ⊢
      exact hpoint

lemma Tidy.all_created (h : Tidy s k) (hne : s.main ≠ .failed) (ha : ∀ i, ¬ s.main.ahead i)
    (hpc : ∀ i, ¬ pc.ahead i) (j : Fin n) : s.roster.phase j = .unborn ↔ pc.ahead j :=
  iff_of_false ((h.created hne j).not.mpr (ha j)) (hpc j)

lemma initStep_tidy {idx : ℕ} (h : Tidy s k) (hm : s.main = .init idx) :
    Tidy (initStep args s idx) k := by
  have hcreated := h.created (by simp [hm])
  have hpoint : k = 0 := by simpa [Point, hm] using h.point
  by_cases hidx : idx < n
  · rw [initStep, dif_pos hidx]
    have hunborn : s.roster.phase ⟨idx, hidx⟩ = .unborn := by
      rw [hcreated, hm]
      exact le_refl idx
    have halive : s.roster.status ⟨idx, hidx⟩ = .alive :=
      (h.sound.alive _).mpr (by rw [hunborn]; rfl)
    rw [Roster.setStatus_self halive]
    have hp : Point { s with main := .create ⟨idx, hidx⟩ } k := hpoint
    have h' : Tidy { s with main := .create ⟨idx, hidx⟩ } k := by
      apply h.goto _ _ _ _ _ _ hp
      · simp [MainPc.holds, hm]
      · simp [hm]
      · simp
      · intro j
        rw [hcreated, hm]
        rfl
      · simp [hm]
      · intro hj
        cases hj
    exact ⟨h'.sound, h'.holder, h'.waiting, h'.created, h'.tid, h'.joined, h'.rest, h'.live, hp⟩
  · rw [initStep, dif_neg hidx]
    have hp : Point { s with main := .total } k := hpoint
    apply h.goto _ _ _ _ _ _ hp
    · simp [MainPc.holds, hm]
    · simp [hm]
    · simp
    · intro j
      rw [hcreated, hm]
      exact iff_of_false (fun hle => hidx (lt_of_le_of_lt hle j.isLt)) id
    · simp [hm]
    · intro hj
      cases hj

lemma joinStep_tidy (h : Tidy s k) (hm : s.main = .join i) (he : joinStep s i = some s') :
    Tidy s' k := by
  have hcreated := h.created (by simp [hm])
  obtain ⟨hk, hst⟩ : k = i ∧ s.roster.status i = .terminated := by
    simpa [Point, hm] using h.point
  obtain ⟨j, htid, he⟩ := Option.bind_eq_some_iff.mp he
  simp only [Option.ite_none_right_eq_some, Option.some.injEq] at he
  obtain ⟨hret, rfl⟩ := he
  have hborn : s.roster.phase i ≠ .unborn := by
    rw [Ne, hcreated, hm]
    exact id
  obtain rfl : i = j := by
    rw [h.tid i hborn] at htid
    exact Option.some.inj htid
  have hzero : s.joins i = 0 := (h.rest i hk.le).2 (by simp [hm])
  refine ⟨h.sound, ?_, ?_, fun _ j => ?_, h.tid, fun j hj => ?_, fun j hj => ⟨(h.rest j hj).1, ?_⟩,
    fun _ => h.live (by rw [hm]; rfl),
    ⟨hk, fun _ => ⟨hret, by simp [hzero]⟩, fun hne => absurd hst hne⟩⟩
  · rw [h.holder, hm]
    rfl
  · exact h.waiting.trans (by simp [hm])
  · rw [hcreated, hm]
    rfl
  · have hne : j ≠ i := by
      rintro rfl
      omega
    simpa [hne] using h.joined j hj
  · intro hne
    have hji : j ≠ i := by
      rintro rfl
      exact hne rfl
    simpa [hji] using (h.rest j hj).2 (by simp [hm])

lemma mark_tidy (h : Tidy s k) (hm : s.main = .mark i) (hst : s.roster.status i = .terminated) :
    Tidy { s with
      roster := s.roster.retire i
      numLive := s.numLive - 1
      main := .sweep (i + 1) } (k + 1) := by
  have hcreated := h.created (by simp [hm])
  have hpoint := h.point
  simp only [Point, hm] at hpoint
  obtain ⟨hk, hdone, -⟩ := hpoint
  obtain ⟨hret, hone⟩ := hdone hst
  refine ⟨h.sound.retire hst, ?_, ?_, fun _ j => ?_, h.tid, fun j hj => ?_,
    fun j hj => ⟨?_, fun _ => (h.rest j (by omega)).2 ?_⟩, fun _ => ?_, ⟨by rw [hk], i.isLt⟩⟩
  · exact h.holder.trans (by rw [hm]; rfl)
  · exact h.waiting.trans (by simp [hm])
  · exact (hcreated j).trans (by rw [hm]; rfl)
  · by_cases hji : j = i
    · subst hji
      exact ⟨by simp [Roster.retire], hret, hone⟩
    · have hlt : j.val < k := by
        have hval : j.val ≠ i.val := fun hv => hji (Fin.ext hv)
        omega
      simpa [Roster.retire, hji] using h.joined j hlt
  · have hji : j ≠ i := by
      rintro rfl
      omega
    simpa [Roster.retire, hji] using (h.rest j (by omega)).1
  · rw [hm]
    rintro ⟨⟩
    omega
  · have hlive := h.live (by rw [hm]; rfl)
    push_cast
    omega

lemma sweep_tidy {idx : ℕ} (h : Tidy s k) (hm : s.main = .sweep idx) :
    Tidy { s with main := sweepPc s idx } k := by
  obtain ⟨hk, hle⟩ : k = idx ∧ idx ≤ n := by simpa [Point, hm] using h.point
  have hpc : (sweepPc s idx).holds = true ∧ sweepPc s idx ≠ .waiting ∧
      ∀ j, ¬ (sweepPc s idx).ahead j := by
    simp only [sweepPc]
    split_ifs <;> simp [MainPc.holds, MainPc.ahead]
  apply h.goto _ (by simp [hm]) hpc.2.1 _ (by simp [hm]) (fun _ => by rw [hm]; rfl)
  · by_cases hidx : idx < n
    · by_cases hst : s.roster.status ⟨idx, hidx⟩ = .terminated
      · simp only [Point, sweepPc, dif_pos hidx, if_pos hst]
        exact ⟨hk, hst⟩
      · simp only [Point, sweepPc, dif_pos hidx, if_neg hst]
        refine ⟨hk, fun h => absurd h hst, fun _ => (h.rest ⟨idx, hidx⟩ hk.le).2 (by simp [hm])⟩
    · simp only [Point, sweepPc, dif_neg hidx]
      omega
  · rw [hpc.1, hm]
    rfl
  · exact h.all_created (by simp [hm]) (by simp [hm, MainPc.ahead]) hpc.2.2

lemma lock_tidy {m : Monitor (Option (Fin n))} (h : Tidy s k) (hm : s.main = .lock)
    (hlock : s.roster.monitor.lock none = some m) :
    Tidy { s with roster := s.roster.setMonitor m, main := .guard } k := by
  obtain ⟨hs, ho, hw⟩ := h.sound.lock hlock
  have hp : Point { s with roster := s.roster.setMonitor m, main := .guard } k := by
    simpa [Point, hm] using h.point
  apply h.move hs (by simp [ho, MainPc.holds]) (iff_of_false hw (by simp)) _ (by simp [hm])
    (fun _ => by rw [hm]; rfl) hp
  exact h.all_created (by simp [hm]) (by simp [hm, MainPc.ahead]) (by simp [MainPc.ahead])

lemma guard_tidy {m : Monitor (Option (Fin n))} (h : Tidy s k) (hm : s.main = .guard)
    (hwait : s.roster.monitor.wait none = some m) :
    Tidy { s with roster := s.roster.setMonitor m, main := .waiting } k := by
  obtain ⟨hs, ho, hw⟩ := h.sound.wait hwait
  have hp : Point { s with roster := s.roster.setMonitor m, main := .waiting } k := by
    simpa [Point, hm] using h.point
  apply h.move hs (by simp [ho, MainPc.holds]) (iff_of_true (Or.inl hw) rfl) _ (by simp [hm])
    (fun _ => by rw [hm]; rfl) hp
  exact h.all_created (by simp [hm]) (by simp [hm, MainPc.ahead]) (by simp [MainPc.ahead])

lemma unlock_tidy {m : Monitor (Option (Fin n))} (h : Tidy s k) (hm : s.main = .unlock)
    (hunlock : s.roster.monitor.unlock none = some m) :
    Tidy { s with roster := s.roster.setMonitor m, main := .test } k := by
  obtain ⟨hs, ho, hw⟩ := h.sound.unlock hunlock
  have hk : k = n := by simpa [Point, hm] using h.point
  have hp : Point { s with roster := s.roster.setMonitor m, main := .test } k := Or.inr hk
  apply h.move hs (by simp [ho, MainPc.holds]) (hw.trans (h.waiting.trans (by simp [hm]))) _
    (by simp [hm]) (fun _ => by rw [hm]; rfl) hp
  exact h.all_created (by simp [hm]) (by simp [hm, MainPc.ahead]) (by simp [MainPc.ahead])

lemma resume_tidy (h : Tidy s k) (he : resumeStep s = some s') : Tidy s' k := by
  simp only [resumeStep, Option.ite_none_right_eq_some] at he
  obtain ⟨hm, he⟩ := he
  obtain ⟨m, hresume, rfl⟩ := Option.map_eq_some_iff.mp he
  obtain ⟨hs, ho, hw⟩ := h.sound.resume hresume
  have hp : Point { s with roster := s.roster.setMonitor m, main := .guard } k := by
    simpa [Point, hm] using h.point
  apply h.move hs (by simp [ho, MainPc.holds]) (iff_of_false hw (by simp)) _ (by simp [hm])
    (fun _ => by rw [hm]; rfl) hp
  exact h.all_created (by simp [hm]) (by simp [hm, MainPc.ahead]) (by simp [MainPc.ahead])

lemma spurious_tidy {m : Monitor (Option (Fin n))} (h : Tidy s k)
    (hwake : s.roster.monitor.wake none = some m) :
    Tidy { s with roster := s.roster.setMonitor m } k := by
  have hm : s.main = .waiting := h.waiting.mp (Or.inl (Monitor.wake_eq_some.mp hwake).1)
  obtain ⟨hs, ho, hw⟩ := h.sound.wake hwake
  have hp : Point { s with roster := s.roster.setMonitor m, main := s.main } k := h.point
  exact h.move hs (by rw [ho]; exact h.holder) (iff_of_true (Or.inr hw) hm)
    (h.created (by simp [hm])) (by simp [hm]) id hp

lemma createStep_tidy (h : Tidy s k) (he : createStep s = some s') : Tidy s' k := by
  cases hm : s.main with
  | create i =>
    simp only [createStep, hm] at he
    obtain ⟨r, hr, rfl⟩ := Option.map_eq_some_iff.mp he
    have hsound : r.Sound := h.sound.create rfl rfl hr
    simp only [Roster.create, Option.ite_none_right_eq_some, Option.some.injEq] at hr
    obtain ⟨hu, rfl⟩ := hr
    have hcreated := h.created (by simp [hm])
    have hk : k = 0 := by simpa [Point, hm] using h.point
    refine ⟨hsound, h.holder.trans (by rw [hm]; rfl), h.waiting.trans (by simp [hm]),
      fun _ j => ?_, fun j hj => ?_, fun j hj => by omega,
      fun j hj => ⟨(h.rest j hj).1, fun _ => (h.rest j hj).2 (by simp [hm])⟩,
      fun hj => (by cases hj), hk⟩
    · by_cases hji : j = i
      · simp [hji, MainPc.ahead]
      · have hval : j.val ≠ i.val := fun hv => hji (Fin.ext hv)
        have hold : s.roster.phase j = .unborn ↔ i ≤ j := by
          rw [hcreated, hm]
          rfl
        simp only [Roster.setPhase_phase, ne_eq, hji, not_false_eq_true, Function.update_of_ne,
          hold, MainPc.ahead, Fin.le_def]
        omega
    · by_cases hji : j = i
      · simp [hji]
      · simp only [Roster.setPhase_phase, ne_eq, hji, not_false_eq_true,
          Function.update_of_ne] at hj ⊢
        exact h.tid j hj
  | _ => simp [createStep, hm] at he

lemma createFails_tidy (h : Tidy s k) (he : createFails s = some s') : Tidy s' k := by
  cases hm : s.main with
  | create i =>
    simp only [createFails, hm, Option.some.injEq] at he
    subst he
    have hk : k = 0 := by simpa [Point, hm] using h.point
    exact ⟨h.sound, h.holder.trans (by rw [hm]; rfl), h.waiting.trans (by simp [hm]),
      fun hne => absurd rfl hne, h.tid, h.joined,
      fun j hj => ⟨(h.rest j hj).1, fun _ => (h.rest j hj).2 (by simp [hm])⟩,
      fun hj => (by cases hj), hk⟩
  | _ => simp [createFails, hm] at he

lemma test_tidy (h : Tidy s k) (hm : s.main = .test) :
    Tidy { s with main := if s.numLive > 0 then .lock else .exited } k := by
  have hk : k = 0 ∨ k = n := by simpa [Point, hm] using h.point
  have hlive := h.live (by rw [hm]; rfl)
  have hcreated : ∀ pc : MainPc n, (∀ j, ¬ pc.ahead j) →
      ∀ j, s.roster.phase j = .unborn ↔ pc.ahead j :=
    fun pc hpc => h.all_created (by simp [hm]) (by simp [hm, MainPc.ahead]) hpc
  by_cases hpos : s.numLive > 0
  · have hp : Point { s with main := .lock } k := by
      simp only [Point]
      omega
    rw [if_pos hpos]
    exact h.goto (by simp [MainPc.holds, hm]) (by simp [hm]) (by simp)
      (hcreated .lock (by simp [MainPc.ahead])) (by simp [hm]) (fun _ => by rw [hm]; rfl) hp
  · have hp : Point { s with main := .exited } k := by
      simp only [Point]
      omega
    rw [if_neg hpos]
    exact h.goto (by simp [MainPc.holds, hm]) (by simp [hm]) (by simp)
      (hcreated .exited (by simp [MainPc.ahead])) (by simp [hm]) (fun _ => by rw [hm]; rfl) hp

lemma total_tidy (h : Tidy s k) (hm : s.main = .total) :
    Tidy { s with numLive := n, main := .test } k := by
  have hk : k = 0 := by simpa [Point, hm] using h.point
  exact ⟨h.sound, h.holder.trans (by rw [hm]; rfl), h.waiting.trans (by simp [hm]),
    fun _ => h.all_created (by simp [hm]) (by simp [hm, MainPc.ahead]) (by simp [MainPc.ahead]),
    h.tid, h.joined, fun j hj => ⟨(h.rest j hj).1, fun _ => (h.rest j hj).2 (by simp [hm])⟩,
    fun _ => by simp [hk], Or.inl hk⟩

lemma mainStep_tidy (h : Tidy s k) (hc : MarksTerminated s .main)
    (he : mainStep args s = some s') : ∃ k', Tidy s' k' := by
  cases hm : s.main with
  | init idx =>
    simp only [mainStep, hm, Option.some.injEq] at he
    exact ⟨k, he ▸ initStep_tidy h hm⟩
  | total =>
    simp only [mainStep, hm, Option.some.injEq] at he
    exact ⟨k, he ▸ total_tidy h hm⟩
  | test =>
    simp only [mainStep, hm, Option.some.injEq] at he
    exact ⟨k, he ▸ test_tidy h hm⟩
  | lock =>
    simp only [mainStep, hm] at he
    obtain ⟨m, hlock, rfl⟩ := Option.map_eq_some_iff.mp he
    exact ⟨k, lock_tidy h hm hlock⟩
  | guard =>
    simp only [mainStep, hm] at he
    split_ifs at he with hzero
    · obtain ⟨m, hwait, rfl⟩ := Option.map_eq_some_iff.mp he
      exact ⟨k, guard_tidy h hm hwait⟩
    · obtain rfl := Option.some.inj he
      have hk : k = 0 := by simpa [Point, hm] using h.point
      have hp : Point { s with main := .sweep 0 } k := ⟨hk, Nat.zero_le n⟩
      refine ⟨k, h.goto (by rw [hm]; rfl) (by simp [hm]) (by simp) ?_ (by simp [hm])
        (fun _ => by rw [hm]; rfl) hp⟩
      exact h.all_created (by simp [hm]) (by simp [hm, MainPc.ahead]) (by simp [MainPc.ahead])
  | sweep idx =>
    simp only [mainStep, hm, Option.some.injEq] at he
    exact ⟨k, he ▸ sweep_tidy h hm⟩
  | join i =>
    simp only [mainStep, hm] at he
    exact ⟨k, joinStep_tidy h hm he⟩
  | mark i =>
    simp only [mainStep, hm, Option.some.injEq] at he
    exact ⟨k + 1, he ▸ mark_tidy h hm (hc i rfl hm)⟩
  | unlock =>
    simp only [mainStep, hm] at he
    obtain ⟨m, hunlock, rfl⟩ := Option.map_eq_some_iff.mp he
    exact ⟨k, unlock_tidy h hm hunlock⟩
  | create | waiting | exited | failed => simp [mainStep, hm] at he

lemma step_tidy {l : Label n} (h : Tidy s k) (hc : MarksTerminated s l)
    (he : step args s l = some s') : ∃ k', Tidy s' k' := by
  simp only [step, Option.ite_none_left_eq_some] at he
  obtain ⟨-, he⟩ := he
  cases l with
  | main => exact mainStep_tidy h hc he
  | create => exact ⟨k, createStep_tidy h he⟩
  | createFails => exact ⟨k, createFails_tidy h he⟩
  | resume => exact ⟨k, resume_tidy h he⟩
  | spurious =>
    obtain ⟨m, hwake, rfl⟩ := Option.map_eq_some_iff.mp he
    exact ⟨k, spurious_tidy h hwake⟩
  | threadFunc i a =>
    obtain ⟨r, hr, rfl⟩ := Option.map_eq_some_iff.mp he
    exact ⟨k, act_tidy h hr⟩

lemma mark_unjoined {l : Label n} (h : Tidy s k) (hc : ¬ MarksTerminated s l)
    (he : step args s l = some s') : ¬ Accounted s' := by
  simp only [MarksTerminated, not_forall] at hc
  obtain ⟨i, rfl, hm, hst⟩ := hc
  simp only [step, mainStep, hm, reduceCtorEq, or_self, if_false, Option.some.injEq] at he
  subst he
  have hpoint := h.point
  simp only [Point, hm] at hpoint
  have hzero : s.joins i = 0 := hpoint.2.2 hst
  intro hacc
  have hpos := hacc.joined i (by simp [Roster.retire])
  exact hpos.ne' hzero

theorem joined_once_iff (args : Fin n → ℤ) (ls : List (Label n)) (s : State n)
    (hr : (system args).Run (start n) ls s) :
    (system args).Along Accounted (start n) ls ↔
      (system args).Guarded MarksTerminated (start n) ls := by
  apply System.along_iff_guarded (K := fun s => ∃ k, Tidy s k) _ _ _ ⟨0, start_tidy n⟩ hr
  · rintro s ⟨k, h⟩
    exact h.accounted
  · rintro s l t ⟨k, h⟩ hc he
    exact step_tidy h hc he
  · rintro s l t ⟨k, h⟩ hc he
    exact mark_unjoined h hc he

/-- A thread that terminates before the sweep, and `main` up to its exit. -/
def oneThread : List (Label 1) :=
  [.main, .create, .main, .main, .main, .threadFunc 0 .awake, .threadFunc 0 .lock,
    .threadFunc 0 .mark, .threadFunc 0 .unlock, .threadFunc 0 (.signal none), .main, .main,
    .main, .main, .main, .main, .main, .main]

theorem joined_once_iff_one : ∃ s, (system fun _ : Fin 1 => 3).Run (start 1) oneThread s ∧
    s.main = .exited ∧ s.joins 0 = 1 ∧
    ((system fun _ : Fin 1 => 3).Along Accounted (start 1) oneThread ↔
      (system fun _ : Fin 1 => 3).Guarded MarksTerminated (start 1) oneThread) := by
  have hrun : ((system fun _ : Fin 1 => 3).exec (start 1) oneThread).map
      (fun s => (s.main, s.joins 0)) = some (.exited, 1) := by decide
  obtain ⟨s, hs, he⟩ := Option.map_eq_some_iff.mp hrun
  obtain ⟨hm, hj⟩ := Prod.mk.inj he
  have hr := System.run_iff_exec.mpr hs
  exact ⟨s, hr, hm, hj, joined_once_iff (fun _ : Fin 1 => 3) _ s hr⟩

/-- The first of two threads terminates: the sweep marks both, and `main` exits while
the second one still sleeps. -/
theorem exit_before_join : ∃ s, (system fun _ : Fin 2 => 3).Reachable s ∧ s.main = .exited ∧
    s.roster.phase 1 = .asleep ∧ s.roster.status 1 = .joined ∧ s.joins 1 = 0 ∧
    s.roster.monitor.owner = none ∧ s.roster.unjoined = -1 ∧ ¬ Accounted s := by
  have hrun : ((system fun _ : Fin 2 => 3).exec (start 2)
      [.main, .create, .main, .create, .main, .main, .threadFunc 0 .awake, .threadFunc 0 .lock,
        .threadFunc 0 .mark, .threadFunc 0 .unlock, .threadFunc 0 (.signal none), .main, .main,
        .main, .main, .main, .main, .main, .main, .main, .main, .main]).map (fun s =>
        (s.main, s.roster.phase 1, s.roster.status 1, s.joins 1, s.roster.monitor.owner,
          s.roster.unjoined)) =
      some (.exited, .asleep, .joined, 0, none, -1) := rfl
  obtain ⟨s, hs, he⟩ := System.Reachable.observe rfl hrun
  simp only [Prod.mk.injEq] at he
  obtain ⟨hm, hp, hst, hj, ho, hu⟩ := he
  refine ⟨s, hs, hm, hp, hst, hj, ho, hu, fun hacc => ?_⟩
  exact (hacc.joined 1 hst).ne' hj

end UnixProgramming.MultiJoin
