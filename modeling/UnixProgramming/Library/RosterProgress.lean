import UnixProgramming.Library.Roster

/-! How the threads of a roster go on, whatever the joiner does to its bookkeeping: the
phases follow each other, and each action is paid for by the phase that it leaves. -/

namespace UnixProgramming.Library

universe u

namespace Phase

def next : Phase → Phase
  | .unborn => .unborn
  | .start => .asleep
  | .asleep => .lock
  | .lock => .mark
  | .mark => .unlock
  | .unlock => .signal
  | .signal | .returned => .returned

def live (p : Phase) : Prop :=
  p ≠ .unborn ∧ p ≠ .returned

def left : Phase → ℕ
  | .unborn => 7
  | .start => 6
  | .asleep => 5
  | .lock => 4
  | .mark => 3
  | .unlock => 2
  | .signal => 1
  | .returned => 0

variable {p : Phase}

lemma left_next (h : p.live) : p.next.left + 1 = p.left := by
  cases p with
  | unborn => exact absurd rfl h.1
  | returned => exact absurd rfl h.2
  | start | asleep | lock | mark | unlock | signal => rfl

lemma next_born (h : p.live) : p.next ≠ .unborn ∧ p.next ≠ .start := by
  cases p with
  | unborn => exact absurd rfl h.1
  | start | asleep | lock | mark | unlock | signal | returned => simp [next]

lemma next_early (h : p ≠ .mark) : p.next.early = p.early := by
  cases p with
  | mark => exact absurd rfl h
  | unborn | start | asleep | lock | unlock | signal | returned => rfl

end Phase

namespace Roster

variable {ι : Type u} [DecidableEq ι] [Fintype ι]

def late (r : Roster ι) : ℕ :=
  census (fun i => (r.phase i).early) false

/-- What the actions of the threads may still cost: a signal pays for the wakeup of the
joiner. -/
def toll (r : Roster ι) : ℕ :=
  ∑ i, 3 * (r.phase i).left + if none ∈ r.monitor.woken then 2 else 0

variable {r r' : Roster ι} {i j : ι} {p : Phase} {a : Act ι} {m : Monitor (Option ι)}

omit [Fintype ι] in
lemma act_phase (he : r.act i a = some r') :
    (r.phase i).live ∧ r'.phase = Function.update r.phase i (r.phase i).next := by
  cases a with
  | start | awake | mark =>
    simp only [act, Option.ite_none_right_eq_some, Option.some.injEq] at he
    obtain ⟨hp, rfl⟩ := he
    rw [hp]
    exact ⟨⟨by simp, by simp⟩, rfl⟩
  | lock | unlock | signal =>
    simp only [act, Option.ite_none_right_eq_some] at he
    obtain ⟨hp, he⟩ := he
    obtain ⟨m, -, rfl⟩ := Option.map_eq_some_iff.mp he
    rw [hp]
    exact ⟨⟨by simp, by simp⟩, rfl⟩

omit [Fintype ι] in
lemma act_mark (he : r.act i a = some r') (hp : r.phase i = .mark) :
    r'.unjoined = r.unjoined + 1 := by
  cases a with
  | mark =>
    simp only [act, Option.ite_none_right_eq_some, Option.some.injEq] at he
    rw [← he.2]
  | start | awake | lock | unlock | signal => simp [act, hp] at he

omit [Fintype ι] in
lemma act_other (he : r.act i a = some r') (hp : r.phase i ≠ .mark) :
    r'.unjoined = r.unjoined := by
  cases a with
  | start | awake =>
    simp only [act, Option.ite_none_right_eq_some, Option.some.injEq] at he
    rw [← he.2]
    rfl
  | mark =>
    simp only [act, Option.ite_none_right_eq_some] at he
    exact absurd he.1 hp
  | lock | unlock | signal =>
    simp only [act, Option.ite_none_right_eq_some] at he
    obtain ⟨m, -, rfl⟩ := Option.map_eq_some_iff.mp he.2
    rfl

lemma act_late (he : r.act i a = some r') : r'.unjoined - r'.late = r.unjoined - r.late := by
  obtain ⟨-, hphase⟩ := act_phase he
  have hearly : (fun j => (r'.phase j).early) =
      Function.update (fun j => (r.phase j).early) i (r.phase i).next.early := by
    funext j
    by_cases hj : j = i
    · simp [hphase, hj]
    · simp [hphase, hj]
  by_cases hp : r.phase i = .mark
  · have henter : r'.late = r.late + 1 := by
      have hcounted : (r.phase i).next.early = false := by
        rw [hp]
        rfl
      rw [late, hearly, hcounted]
      exact census_enter (by simp [hp, Phase.early])
    have hcount := act_mark he hp
    omega
  · have hsame : r'.late = r.late := by
      rw [late, hearly, Phase.next_early hp, Function.update_eq_self]
      rfl
    rw [hsame, act_other he hp]

lemma sum_left_update (hl : p.left + 1 ≤ (r.phase i).left) :
    ∑ j, 3 * (Function.update r.phase i p j).left + 3 ≤ ∑ j, 3 * (r.phase j).left := by
  rw [← Finset.mul_sum, ← Finset.mul_sum]
  have hlt : ∑ j, (Function.update r.phase i p j).left < ∑ j, (r.phase j).left :=
    sum_update_lt (w := Phase.left) hl
  omega

lemma act_toll (he : r.act i a = some r') : r'.toll + 1 ≤ r.toll := by
  obtain ⟨hlive, hphase⟩ := act_phase he
  have hsum := sum_left_update (r := r) (i := i) (Phase.left_next hlive).le
  rw [← hphase] at hsum
  simp only [toll]
  split_ifs with hw' hw <;> omega

lemma toll_setMonitor (hw : m.woken = r.monitor.woken) :
    (r.setMonitor m).toll = r.toll := by
  simp only [toll, setMonitor_phase, setMonitor_monitor, hw]

lemma create_toll (he : r.create i p = some r') (hp : p ≠ .unborn) : r'.toll + 1 ≤ r.toll := by
  simp only [create, Option.ite_none_right_eq_some, Option.some.injEq] at he
  obtain ⟨hu, rfl⟩ := he
  have hl : p.left + 1 ≤ (r.phase i).left := by
    rw [hu]
    cases p with
    | unborn => exact absurd rfl hp
    | start | asleep | lock | mark | unlock | signal | returned => simp [Phase.left]
  have hsum := sum_left_update hl
  simp only [toll, setPhase_phase, setPhase_monitor]
  omega

/-- What of `Sound` does not depend on the joiner's bookkeeping. -/
structure Synced (r : Roster ι) : Prop where
  owner : ∀ i, r.monitor.owner = some (some i) ↔ (r.phase i).holds = true
  waiters : ∀ i, some i ∉ r.monitor.blocked ∧ some i ∉ r.monitor.woken

omit [DecidableEq ι] in
lemma Sound.synced (h : Sound r) : Synced r :=
  ⟨h.owner, h.waiters⟩

@[simps] def settled (r : Roster ι) : Roster ι where
  phase := r.phase
  status j := if (r.phase j).early then .alive else .terminated
  unjoined := census (fun j => if (r.phase j).early then Status.alive else .terminated) .terminated
  monitor := r.monitor

omit [DecidableEq ι] in
lemma Synced.settled (h : Synced r) : Sound r.settled where
  owner := h.owner
  waiters := h.waiters
  alive i := by
    cases he : (r.phase i).early <;> simp [he]
  counted := rfl

lemma act_settled (he : r.act i a = some r') : ∃ q, r.settled.act i a = some q ∧
    q.phase = r'.phase ∧ q.monitor = r'.monitor := by
  cases a with
  | start | awake | mark =>
    simp only [act, Option.ite_none_right_eq_some, Option.some.injEq] at he
    obtain ⟨hp, rfl⟩ := he
    exact ⟨_, if_pos hp, rfl, rfl⟩
  | lock | unlock | signal =>
    simp only [act, Option.ite_none_right_eq_some] at he
    obtain ⟨hp, he⟩ := he
    obtain ⟨m, hm, rfl⟩ := Option.map_eq_some_iff.mp he
    exact ⟨_, (if_pos hp).trans (Option.map_eq_some_iff.mpr ⟨m, hm, rfl⟩), rfl, rfl⟩

lemma settled_act {q : Roster ι} (he : r.settled.act i a = some q) : ∃ r', r.act i a = some r' := by
  cases a with
  | start | awake | mark =>
    simp only [act, Option.ite_none_right_eq_some] at he
    exact ⟨_, if_pos he.1⟩
  | lock | unlock | signal =>
    simp only [act, Option.ite_none_right_eq_some] at he
    obtain ⟨m, hm, -⟩ := Option.map_eq_some_iff.mp he.2
    exact ⟨_, (if_pos he.1).trans (Option.map_eq_some_iff.mpr ⟨m, hm, rfl⟩)⟩

lemma act_synced (h : Synced r) (he : r.act i a = some r') : Synced r' := by
  obtain ⟨q, hq, hp, hm⟩ := act_settled he
  have hs : Sound q := act_sound h.settled hq
  refine ⟨fun j => ?_, fun j => ?_⟩
  · rw [← hm, ← hp]
    exact hs.owner j
  · rw [← hm]
    exact hs.waiters j

lemma Synced.exists_act (h : Synced r) (hi : r.phase i ≠ .unborn ∧ r.phase i ≠ .returned)
    (hl : r.phase i = .lock → r.monitor.owner = none) : ∃ a r', r.act i a = some r' := by
  obtain ⟨a, q, hq⟩ := Roster.exists_act h.settled hi hl
  exact ⟨a, settled_act hq⟩

omit [Fintype ι] in
/-- While the joiner has the mutex, a thread past its start leaves the bookkeeping alone. -/
lemma Synced.held (h : Synced r) (ho : r.monitor.owner = some none) (hs : r.phase i ≠ .start)
    (he : r.act i a = some r') : r'.status = r.status ∧ r'.unjoined = r.unjoined ∧
      r'.monitor.owner = some none := by
  cases a with
  | start =>
    simp only [act, Option.ite_none_right_eq_some] at he
    exact absurd he.1 hs
  | awake =>
    simp only [act, Option.ite_none_right_eq_some, Option.some.injEq] at he
    obtain ⟨-, rfl⟩ := he
    exact ⟨rfl, rfl, ho⟩
  | lock =>
    simp only [act, Option.ite_none_right_eq_some] at he
    obtain ⟨m, hm, -⟩ := Option.map_eq_some_iff.mp he.2
    cases (Monitor.lock_eq_some.mp hm).1.1.symm.trans ho
  | mark | unlock =>
    simp only [act, Option.ite_none_right_eq_some] at he
    have hown := (h.owner i).mpr (by rw [he.1]; rfl)
    cases hown.symm.trans ho
  | signal woken =>
    simp only [act, Option.ite_none_right_eq_some] at he
    obtain ⟨m, hm, rfl⟩ := Option.map_eq_some_iff.mp he.2
    obtain ⟨hm, -, -⟩ := signal_cases (fun j => (h.waiters j).1) hm
    exact ⟨rfl, rfl, hm.trans ho⟩

end Roster

end UnixProgramming.Library
