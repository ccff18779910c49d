import UnixProgramming.Library.Monitor
import UnixProgramming.Library.Census
import Mathlib.Tactic

/-! Threads that end by marking their own entry of a table under a mutex, counting
it and signalling a joiner. What a thread does between its lock and its unlock is
one step, for nobody else reads the table then. -/

namespace UnixProgramming.Library

universe u

inductive Phase
  | unborn
  | start
  | asleep
  | lock
  | mark
  | unlock
  | signal
  | returned
  deriving DecidableEq, Repr

inductive Status
  | alive
  | terminated
  | joined
  deriving DecidableEq, Repr

/-- The monitor's waiting threads are the table's ones and the joiner, `none`. -/
structure Roster (ι : Type u) where
  phase : ι → Phase
  status : ι → Status
  unjoined : ℤ
  monitor : Monitor (Option ι)

namespace Roster

variable {ι : Type u} [DecidableEq ι]

@[simps] def setPhase (r : Roster ι) (i : ι) (p : Phase) : Roster ι :=
  { r with phase := Function.update r.phase i p }

@[simps] def setStatus (r : Roster ι) (i : ι) (v : Status) : Roster ι :=
  { r with status := Function.update r.status i v }

@[simps] def setMonitor (r : Roster ι) (m : Monitor (Option ι)) : Roster ι :=
  { r with monitor := m }

def create (r : Roster ι) (i : ι) (p : Phase) : Option (Roster ι) :=
  if r.phase i = .unborn then some (r.setPhase i p) else none

inductive Act (ι : Type u)
  | start
  | awake
  | lock
  | mark
  | unlock
  | signal (woken : Option (Option ι))
  deriving DecidableEq, Repr

def act (r : Roster ι) (i : ι) : Act ι → Option (Roster ι)
  | .start =>
    if r.phase i = .start then some ((r.setStatus i .alive).setPhase i .asleep) else none
  | .awake => if r.phase i = .asleep then some (r.setPhase i .lock) else none
  | .lock =>
    if r.phase i = .lock then
      (r.monitor.lock (some i)).map fun m => (r.setMonitor m).setPhase i .mark
    else none
  | .mark =>
    if r.phase i = .mark then
      some { (r.setStatus i .terminated).setPhase i .unlock with unjoined := r.unjoined + 1 }
    else none
  | .unlock =>
    if r.phase i = .unlock then
      (r.monitor.unlock (some i)).map fun m => (r.setMonitor m).setPhase i .signal
    else none
  | .signal woken =>
    if r.phase i = .signal then
      (r.monitor.signal woken).map fun m => (r.setMonitor m).setPhase i .returned
    else none

def retire (r : Roster ι) (i : ι) : Roster ι :=
  { r.setStatus i .joined with unjoined := r.unjoined - 1 }

end Roster

def Phase.early : Phase → Bool
  | .unborn | .start | .asleep | .lock | .mark => true
  | .unlock | .signal | .returned => false

def Phase.holds : Phase → Bool
  | .mark | .unlock => true
  | .unborn | .start | .asleep | .lock | .signal | .returned => false

namespace Roster

variable {ι : Type u} [DecidableEq ι] [Fintype ι]

structure Sound (r : Roster ι) : Prop where
  owner : ∀ i, r.monitor.owner = some (some i) ↔ (r.phase i).holds = true
  waiters : ∀ i, some i ∉ r.monitor.blocked ∧ some i ∉ r.monitor.woken
  alive : ∀ i, r.status i = .alive ↔ (r.phase i).early = true
  counted : r.unjoined = census r.status .terminated

structure Frame (r r' : Roster ι) (i : ι) : Prop where
  live : r.phase i ≠ .unborn ∧ r.phase i ≠ .returned
  born : r'.phase i ≠ .unborn
  phase : ∀ j, j ≠ i → r'.phase j = r.phase j
  status : ∀ j, j ≠ i → r'.status j = r.status j
  own : r'.status i = r.status i ∨ r'.status i = .terminated
  holder : r'.monitor.owner = some none ↔ r.monitor.owner = some none
  waiting : none ∈ r'.monitor.blocked ∨ none ∈ r'.monitor.woken ↔
    none ∈ r.monitor.blocked ∨ none ∈ r.monitor.woken
  held : r.monitor.owner = some none → r'.status = r.status ∧ r'.unjoined = r.unjoined

variable {r r' : Roster ι} {i j : ι} {p : Phase} {a : Act ι} {m : Monitor (Option ι)}

lemma Sound.setPhase (h : Sound r) (hh : p.holds = (r.phase i).holds)
    (he : p.early = (r.phase i).early) : Sound (r.setPhase i p) where
  owner j := by
    by_cases hj : j = i
    · subst hj
      simpa [hh] using h.owner j
    · simpa [hj] using h.owner j
  waiters := h.waiters
  alive j := by
    by_cases hj : j = i
    · subst hj
      simpa [he] using h.alive j
    · simpa [hj] using h.alive j
  counted := h.counted

omit [DecidableEq ι] in
lemma Sound.monitor (h : Sound r)
    (ho : ∀ j, m.owner = some (some j) ↔ r.monitor.owner = some (some j))
    (hw : ∀ j, some j ∉ m.blocked ∧ some j ∉ m.woken) : Sound (r.setMonitor m) where
  owner j := (ho j).trans (h.owner j)
  waiters := hw
  alive := h.alive
  counted := h.counted

lemma Sound.create (h : Sound r) (hp : p.early = true) (hh : p.holds = false)
    (he : r.create i p = some r') : Sound r' := by
  simp only [Roster.create, Option.ite_none_right_eq_some, Option.some.injEq] at he
  obtain ⟨hu, rfl⟩ := he
  exact h.setPhase (by rw [hu, hh]; rfl) (by rw [hu, hp]; rfl)

lemma Sound.retire (h : Sound r) (hi : r.status i = .terminated) : Sound (r.retire i) where
  owner := h.owner
  waiters := h.waiters
  alive j := by
    by_cases hj : j = i
    · subst hj
      have hlate := (h.alive j).not.mp (by simp [hi])
      simpa [Roster.retire] using hlate
    · simpa [Roster.retire, hj] using h.alive j
  counted := by
    have hleave : census (Function.update r.status i .joined) .terminated + 1 =
        census r.status .terminated := census_leave hi (by decide)
    have hcount := h.counted
    change r.unjoined - 1 = (census (Function.update r.status i .joined) .terminated : ℤ)
    omega

omit [Fintype ι] in
lemma setStatus_self (hi : r.status i = .alive) : r.setStatus i .alive = r := by
  rw [Roster.setStatus, ← hi, Function.update_eq_self]

lemma act_start (h : Sound r) (he : r.act i .start = some r') :
    r.phase i = .start ∧ r' = r.setPhase i .asleep := by
  simp only [act, Option.ite_none_right_eq_some, Option.some.injEq] at he
  obtain ⟨hp, rfl⟩ := he
  have halive : r.status i = .alive := (h.alive i).mpr (by rw [hp]; rfl)
  exact ⟨hp, by rw [setStatus_self halive]⟩

lemma lock_sound (h : Sound r) (he : r.act i .lock = some r') : Sound r' := by
  simp only [act, Option.ite_none_right_eq_some] at he
  obtain ⟨hp, he⟩ := he
  obtain ⟨m, hm, rfl⟩ := Option.map_eq_some_iff.mp he
  obtain ⟨⟨hfree, -, -⟩, ho, hb, hw⟩ := Monitor.lock_eq_some.mp hm
  refine ⟨fun j => ?_, fun j => ?_, fun j => ?_, h.counted⟩
  · by_cases hj : j = i
    · subst hj
      simp [ho, Phase.holds]
    · have hfalse := (h.owner j).not.mp (by simp [hfree])
      simpa [ho, hj, Ne.symm hj] using hfalse
  · simpa [hb, hw] using h.waiters j
  · by_cases hj : j = i
    · subst hj
      simpa [hp, Phase.early] using h.alive j
    · simpa [hj] using h.alive j

lemma mark_sound (h : Sound r) (he : r.act i .mark = some r') : Sound r' := by
  simp only [act, Option.ite_none_right_eq_some, Option.some.injEq] at he
  obtain ⟨hp, rfl⟩ := he
  have halive : r.status i = .alive := (h.alive i).mpr (by rw [hp]; rfl)
  refine ⟨fun j => ?_, h.waiters, fun j => ?_, ?_⟩
  · by_cases hj : j = i
    · subst hj
      simpa [hp, Phase.holds] using h.owner j
    · simpa [hj] using h.owner j
  · by_cases hj : j = i
    · subst hj
      simp [Phase.early]
    · simpa [hj] using h.alive j
  · have henter : census (Function.update r.status i .terminated) .terminated =
        census r.status .terminated + 1 := census_enter (by simp [halive])
    have hcount := h.counted
    change r.unjoined + 1 = (census (Function.update r.status i .terminated) .terminated : ℤ)
    omega

lemma unlock_sound (h : Sound r) (he : r.act i .unlock = some r') : Sound r' := by
  simp only [act, Option.ite_none_right_eq_some] at he
  obtain ⟨hp, he⟩ := he
  obtain ⟨m, hm, rfl⟩ := Option.map_eq_some_iff.mp he
  obtain ⟨hown, ho, hb, hw⟩ := Monitor.unlock_eq_some.mp hm
  refine ⟨fun j => ?_, fun j => ?_, fun j => ?_, h.counted⟩
  · by_cases hj : j = i
    · subst hj
      simp [ho, Phase.holds]
    · have hfalse := (h.owner j).not.mp (by simpa [hown] using Ne.symm hj)
      simpa [ho, hj] using hfalse
  · simpa [hb, hw] using h.waiters j
  · by_cases hj : j = i
    · subst hj
      simpa [hp, Phase.early] using h.alive j
    · simpa [hj] using h.alive j

omit [Fintype ι] in
lemma signal_cases {woken : Option (Option ι)} (hb : ∀ j, some j ∉ r.monitor.blocked)
    (hm : r.monitor.signal woken = some m) : m.owner = r.monitor.owner ∧ none ∉ m.blocked ∧
      (∀ u, u ∈ m.blocked ∨ u ∈ m.woken ↔ u ∈ r.monitor.blocked ∨ u ∈ r.monitor.woken) := by
  cases woken with
  | none =>
    obtain ⟨hempty, rfl⟩ := Monitor.signal_none.mp hm
    exact ⟨rfl, by simp [hempty], fun _ => Iff.rfl⟩
  | some u =>
    obtain ⟨hu, ho, hb', hw'⟩ := Monitor.wake_eq_some.mp (Monitor.signal_some.symm.trans hm)
    obtain rfl : u = none := by
      cases u with
      | none => rfl
      | some j => exact absurd hu (hb j)
    refine ⟨ho, by simp [hb'], fun v => ?_⟩
    by_cases hv : v = none
    · subst hv
      simp [hw', hu]
    · simp [hb', hw', hv]

lemma signal_sound {woken : Option (Option ι)} (h : Sound r)
    (he : r.act i (.signal woken) = some r') : Sound r' := by
  simp only [act, Option.ite_none_right_eq_some] at he
  obtain ⟨hp, he⟩ := he
  obtain ⟨m, hm, rfl⟩ := Option.map_eq_some_iff.mp he
  obtain ⟨ho, -, hw⟩ := signal_cases (fun j => (h.waiters j).1) hm
  have hmon : Sound (r.setMonitor m) := by
    apply h.monitor
    · intro j
      rw [ho]
    · intro j
      have hnot := (hw (some j)).not.mpr (not_or.mpr (h.waiters j))
      exact not_or.mp hnot
  apply hmon.setPhase
  · simp [hp, Phase.holds]
  · simp [hp, Phase.early]

lemma act_sound (h : Sound r) (he : r.act i a = some r') : Sound r' := by
  cases a with
  | start =>
    obtain ⟨hp, rfl⟩ := act_start h he
    exact h.setPhase (by rw [hp]; rfl) (by rw [hp]; rfl)
  | awake =>
    simp only [act, Option.ite_none_right_eq_some, Option.some.injEq] at he
    obtain ⟨hp, rfl⟩ := he
    exact h.setPhase (by rw [hp]; rfl) (by rw [hp]; rfl)
  | lock => exact lock_sound h he
  | mark => exact mark_sound h he
  | unlock => exact unlock_sound h he
  | signal woken => exact signal_sound h he

lemma Sound.lock (h : Sound r) (hm : r.monitor.lock none = some m) :
    Sound (r.setMonitor m) ∧ m.owner = some none ∧ ¬ (none ∈ m.blocked ∨ none ∈ m.woken) := by
  obtain ⟨⟨hfree, hb₀, hw₀⟩, ho, hb, hw⟩ := Monitor.lock_eq_some.mp hm
  rw [hb, hw]
  exact ⟨h.monitor (by simp [ho, hfree]) (by rw [hb, hw]; exact h.waiters), ho,
    not_or.mpr ⟨hb₀, hw₀⟩⟩

lemma Sound.wait (h : Sound r) (hm : r.monitor.wait none = some m) :
    Sound (r.setMonitor m) ∧ m.owner = none ∧ none ∈ m.blocked := by
  obtain ⟨hown, ho, hb, hw⟩ := Monitor.wait_eq_some.mp hm
  refine ⟨h.monitor (by simp [ho, hown]) ?_, ho, by simp [hb]⟩
  rw [hb, hw]
  simpa using h.waiters

lemma Sound.unlock (h : Sound r) (hm : r.monitor.unlock none = some m) :
    Sound (r.setMonitor m) ∧ m.owner = none ∧ (none ∈ m.blocked ∨ none ∈ m.woken ↔
      none ∈ r.monitor.blocked ∨ none ∈ r.monitor.woken) := by
  obtain ⟨hown, ho, hb, hw⟩ := Monitor.unlock_eq_some.mp hm
  rw [hb, hw]
  exact ⟨h.monitor (by simp [ho, hown]) (by rw [hb, hw]; exact h.waiters), ho, Iff.rfl⟩

lemma Sound.resume (h : Sound r) (hm : r.monitor.resume none = some m) :
    Sound (r.setMonitor m) ∧ m.owner = some none ∧ ¬ (none ∈ m.blocked ∨ none ∈ m.woken) := by
  obtain ⟨⟨hwoken, hfree⟩, ho, hb, hw⟩ := Monitor.resume_eq_some.mp hm
  refine ⟨h.monitor (by simp [ho, hfree]) ?_, ho, ?_⟩
  · rw [hb, hw]
    simpa using h.waiters
  · rw [hb, hw]
    exact not_or.mpr ⟨fun hblocked => r.monitor.disjoint none hblocked hwoken, by simp⟩

lemma Sound.wake (h : Sound r) (hm : r.monitor.wake none = some m) :
    Sound (r.setMonitor m) ∧ m.owner = r.monitor.owner ∧ none ∈ m.woken := by
  obtain ⟨-, ho, hb, hw⟩ := Monitor.wake_eq_some.mp hm
  refine ⟨h.monitor (by simp [ho]) ?_, ho, by simp [hw]⟩
  rw [hb, hw]
  simpa using h.waiters

omit [DecidableEq ι] [Fintype ι] in
lemma Frame.unborn_iff (h : Frame r r' i) (j : ι) : r'.phase j = .unborn ↔ r.phase j = .unborn := by
  by_cases hj : j = i
  · rw [hj]
    exact iff_of_false h.born h.live.1
  · rw [h.phase j hj]

omit [DecidableEq ι] [Fintype ι] in
lemma Frame.returned (h : Frame r r' i) (hj : r.phase j = .returned) :
    r'.phase j = .returned ∧ r'.status j = r.status j := by
  have hne : j ≠ i := by
    rintro rfl
    exact h.live.2 hj
  exact ⟨(h.phase j hne).trans hj, h.status j hne⟩

omit [Fintype ι] in
lemma Frame.of_setPhase (hp : p ≠ .unborn ∧ p ≠ .returned) (hi : r.phase i = p) {q : Phase}
    (hq : q ≠ .unborn) (ho : m.owner = some none ↔ r.monitor.owner = some none)
    (hw : none ∈ m.blocked ∨ none ∈ m.woken ↔
      none ∈ r.monitor.blocked ∨ none ∈ r.monitor.woken) :
    Frame r ((r.setMonitor m).setPhase i q) i where
  live := hi ▸ hp
  born := by simpa using hq
  phase j hj := by simp [hj]
  status _ _ := rfl
  own := Or.inl rfl
  holder := ho
  waiting := hw
  held _ := ⟨rfl, rfl⟩

lemma act_frame (h : Sound r) (he : r.act i a = some r') : Frame r r' i := by
  cases a with
  | start =>
    obtain ⟨hp, rfl⟩ := act_start h he
    exact .of_setPhase (p := .start) (by simp) hp (by simp) Iff.rfl Iff.rfl
  | awake =>
    simp only [act, Option.ite_none_right_eq_some, Option.some.injEq] at he
    obtain ⟨hp, rfl⟩ := he
    exact .of_setPhase (p := .asleep) (by simp) hp (by simp) Iff.rfl Iff.rfl
  | lock =>
    simp only [act, Option.ite_none_right_eq_some] at he
    obtain ⟨hp, he⟩ := he
    obtain ⟨m, hm, rfl⟩ := Option.map_eq_some_iff.mp he
    obtain ⟨⟨hfree, -, -⟩, ho, hb, hw⟩ := Monitor.lock_eq_some.mp hm
    exact .of_setPhase (p := .lock) (by simp) hp (by simp) (by simp [ho, hfree]) (by rw [hb, hw])
  | mark =>
    simp only [act, Option.ite_none_right_eq_some, Option.some.injEq] at he
    obtain ⟨hp, rfl⟩ := he
    have hown : r.monitor.owner = some (some i) := (h.owner i).mpr (by rw [hp]; rfl)
    refine ⟨by simp [hp], by simp, fun j hj => by simp [hj], fun j hj => by simp [hj],
      Or.inr (by simp), Iff.rfl, Iff.rfl, fun hnone => ?_⟩
    rw [hown] at hnone
    cases hnone
  | unlock =>
    simp only [act, Option.ite_none_right_eq_some] at he
    obtain ⟨hp, he⟩ := he
    obtain ⟨m, hm, rfl⟩ := Option.map_eq_some_iff.mp he
    obtain ⟨hown, ho, hb, hw⟩ := Monitor.unlock_eq_some.mp hm
    exact .of_setPhase (p := .unlock) (by simp) hp (by simp) (by simp [ho, hown]) (by rw [hb, hw])
  | signal woken =>
    simp only [act, Option.ite_none_right_eq_some] at he
    obtain ⟨hp, he⟩ := he
    obtain ⟨m, hm, rfl⟩ := Option.map_eq_some_iff.mp he
    obtain ⟨ho, -, hw⟩ := signal_cases (fun j => (h.waiters j).1) hm
    exact .of_setPhase (p := .signal) (by simp) hp (by simp) (by rw [ho]) (hw none)

/-- A joiner that waits although threads have been counted will be signalled. -/
def Due (r : Roster ι) : Prop :=
  none ∈ r.monitor.blocked → 0 < r.unjoined → ∃ i, r.phase i = .unlock ∨ r.phase i = .signal

lemma act_due (h : Sound r) (hd : Due r) (he : r.act i a = some r') : Due r' := by
  have hother : ∀ q, (∀ j, r.phase j = .unlock ∨ r.phase j = .signal → j ≠ i) →
      (none ∈ r.monitor.blocked → 0 < r.unjoined →
        ∃ j, Function.update r.phase i q j = .unlock ∨
          Function.update r.phase i q j = .signal) := by
    intro q hne hb hu
    obtain ⟨j, hj⟩ := hd hb hu
    exact ⟨j, by simpa [hne j hj] using hj⟩
  cases a with
  | start =>
    obtain ⟨hp, rfl⟩ := act_start h he
    apply hother
    rintro j hj rfl
    simp [hp] at hj
  | awake =>
    simp only [act, Option.ite_none_right_eq_some, Option.some.injEq] at he
    obtain ⟨hp, rfl⟩ := he
    apply hother
    rintro j hj rfl
    simp [hp] at hj
  | lock =>
    simp only [act, Option.ite_none_right_eq_some] at he
    obtain ⟨hp, he⟩ := he
    obtain ⟨m, hm, rfl⟩ := Option.map_eq_some_iff.mp he
    obtain ⟨-, -, hb, -⟩ := Monitor.lock_eq_some.mp hm
    intro hblocked
    apply hother _ _ (hb ▸ hblocked)
    rintro j hj rfl
    simp [hp] at hj
  | mark =>
    simp only [act, Option.ite_none_right_eq_some, Option.some.injEq] at he
    obtain ⟨-, rfl⟩ := he
    exact fun _ _ => ⟨i, Or.inl (by simp)⟩
  | unlock =>
    simp only [act, Option.ite_none_right_eq_some] at he
    obtain ⟨-, he⟩ := he
    obtain ⟨m, -, rfl⟩ := Option.map_eq_some_iff.mp he
    exact fun _ _ => ⟨i, Or.inr (by simp)⟩
  | signal woken =>
    simp only [act, Option.ite_none_right_eq_some] at he
    obtain ⟨-, he⟩ := he
    obtain ⟨m, hm, rfl⟩ := Option.map_eq_some_iff.mp he
    obtain ⟨-, hnone, -⟩ := signal_cases (fun j => (h.waiters j).1) hm
    exact fun hblocked => absurd hblocked hnone

lemma exists_act (h : Sound r) (hi : r.phase i ≠ .unborn ∧ r.phase i ≠ .returned)
    (hl : r.phase i = .lock → r.monitor.owner = none) : ∃ a r', r.act i a = some r' := by
  cases hp : r.phase i with
  | unborn => exact absurd hp hi.1
  | returned => exact absurd hp hi.2
  | start => exact ⟨.start, _, if_pos hp⟩
  | asleep => exact ⟨.awake, _, if_pos hp⟩
  | mark => exact ⟨.mark, _, if_pos hp⟩
  | lock =>
    obtain ⟨m, hm, -⟩ := Monitor.lock_unlock (hl hp) (h.waiters i).1 (h.waiters i).2
    exact ⟨.lock, (r.setMonitor m).setPhase i .mark, by simp [act, hp, hm]⟩
  | unlock =>
    obtain ⟨m, hm⟩ : ∃ m, r.monitor.unlock (some i) = some m :=
      ⟨_, if_pos ((h.owner i).mpr (by rw [hp]; rfl))⟩
    exact ⟨.unlock, (r.setMonitor m).setPhase i .signal, by simp [act, hp, hm]⟩
  | signal =>
    obtain ⟨woken, m, hm⟩ : ∃ woken m, r.monitor.signal woken = some m := by
      by_cases hb : none ∈ r.monitor.blocked
      · exact ⟨some none, _, dif_pos hb⟩
      · refine ⟨none, _, if_pos (Finset.eq_empty_of_forall_notMem ?_)⟩
        rintro (_ | j) hj
        · exact hb hj
        · exact (h.waiters j).1 hj
    exact ⟨.signal woken, (r.setMonitor m).setPhase i .returned, by simp [act, hp, hm]⟩

end Roster

end UnixProgramming.Library
