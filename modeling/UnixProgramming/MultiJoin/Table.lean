import UnixProgramming.MultiJoin.Model

/-! The accesses to the table `thread`, and the block that `main` has requested for it: one
pointer for each entry. -/

namespace UnixProgramming.MultiJoin

open Library Library.Transition

-- The sizes of the LP64 data model.
def sizeof_pthread_t : ℕ := 8
def sizeof_tstate : ℕ := 4
def sizeof_int : ℕ := 4
def sizeof_pointer : ℕ := 8

def entrySize : ℕ :=
  sizeof_pthread_t + sizeof_tstate + sizeof_int

/-- `calloc(argc - 1, sizeof(thread))` -/
def requested (n : ℕ) : ℕ :=
  n * sizeof_pointer

variable {n : ℕ}

def Inside (i : Fin n) : Prop :=
  (i + 1) * entrySize ≤ requested n

def access (s : State n) : Label n → Option (Fin n)
  | .main =>
    match s.main with
    | .init idx | .sweep idx => if h : idx < n then some ⟨idx, h⟩ else none
    | .join i | .mark i => some i
    | .create _ | .total | .test | .lock | .guard | .waiting | .unlock | .exited | .failed => none
  | .create =>
    match s.main with
    | .create i => some i
    | _ => none
  | .threadFunc i .awake | .threadFunc i .mark => some i
  | .createFails | .resume | .spurious | .threadFunc _ _ => none

def accesses (xs : List (Fin n)) (s : State n) (l : Label n) : List (Fin n) :=
  xs ++ (access s l).toList

def accessed (args : Fin n → ℤ) : System (State n × List (Fin n)) (Label n) :=
  (system args).record [] accesses

/-- The creation loop stays in the first half of the table. -/
def FirstHalf (s : State n) (l : Label n) : Prop :=
  ∀ idx, l = .main → s.main = .init idx → idx < n → 2 * (idx + 1) ≤ n

def Passed (s : State n) : Prop :=
  match s.main with
  | .init idx => ∀ i : Fin n, i.val < idx → Inside i
  | .create i => ∀ j, j ≤ i → Inside j
  | .total | .test | .lock | .guard | .waiting | .sweep _ | .join _ | .mark _ | .unlock
  | .exited => ∀ i : Fin n, Inside i
  | .failed => True

structure Entered (s : State n) : Prop where
  passed : Passed s
  born : ∀ i, s.roster.phase i ≠ .unborn → Inside i

variable {args : Fin n → ℤ} {s s' : State n} {l : Label n} {i : Fin n}

lemma inside_iff : Inside i ↔ 2 * (i + 1) ≤ n := by
  simp only [Inside, entrySize, requested, sizeof_pthread_t, sizeof_tstate, sizeof_int,
    sizeof_pointer]
  omega

lemma act_born {r r' : Roster (Fin n)} {a : Roster.Act (Fin n)} (he : r.act i a = some r') :
    r.phase i ≠ .unborn ∧ ∀ j, j ≠ i → r'.phase j = r.phase j := by
  cases a with
  | start | awake =>
    simp only [Roster.act, Option.ite_none_right_eq_some, Option.some.injEq] at he
    obtain ⟨hp, rfl⟩ := he
    exact ⟨by simp [hp], fun j hj => by simp [hj]⟩
  | mark =>
    simp only [Roster.act, Option.ite_none_right_eq_some, Option.some.injEq] at he
    obtain ⟨hp, rfl⟩ := he
    exact ⟨by simp [hp], fun j hj => by simp [hj]⟩
  | lock | unlock | signal woken =>
    simp only [Roster.act, Option.ite_none_right_eq_some, Option.map_eq_some_iff] at he
    obtain ⟨hp, m, -, rfl⟩ := he
    exact ⟨by simp [hp], fun j hj => by simp [hj]⟩

lemma initStep_entered {idx : ℕ} (h : Entered s) (hpc : s.main = .init idx)
    (hg : idx < n → 2 * (idx + 1) ≤ n) : Entered (initStep args s idx) := by
  have hp := h.passed
  simp only [Passed, hpc] at hp
  by_cases hlt : idx < n
  · rw [initStep, dif_pos hlt]
    refine ⟨fun j hj => ?_, h.born⟩
    rcases Nat.lt_or_eq_of_le (Fin.le_def.mp hj) with hlt' | heq
    · exact hp j hlt'
    · rw [inside_iff, heq]
      exact hg hlt
  · rw [initStep, dif_neg hlt]
    exact ⟨fun i => hp i (by omega), h.born⟩

lemma mainStep_entered (h : Entered s)
    (hg : ∀ idx, s.main = .init idx → idx < n → 2 * (idx + 1) ≤ n)
    (he : mainStep args s = some s') : Entered s' := by
  have hp := h.passed
  cases hpc : s.main with
  | init idx =>
    simp only [mainStep, hpc, Option.some.injEq] at he
    rw [← he]
    exact initStep_entered h hpc (hg idx hpc)
  | total =>
    simp only [Passed, hpc] at hp
    simp only [mainStep, hpc, Option.some.injEq] at he
    subst he
    exact ⟨hp, h.born⟩
  | test =>
    simp only [Passed, hpc] at hp
    simp only [mainStep, hpc, Option.some.injEq] at he
    subst he
    refine ⟨?_, h.born⟩
    by_cases hl : s.numLive > 0
    · simpa only [Passed, if_pos hl] using hp
    · simpa only [Passed, if_neg hl] using hp
  | lock | unlock =>
    simp only [Passed, hpc] at hp
    simp only [mainStep, hpc, Option.map_eq_some_iff] at he
    obtain ⟨m, -, rfl⟩ := he
    exact ⟨hp, h.born⟩
  | guard =>
    simp only [Passed, hpc] at hp
    simp only [mainStep, hpc] at he
    split_ifs at he
    · obtain ⟨m, -, rfl⟩ := Option.map_eq_some_iff.mp he
      exact ⟨hp, h.born⟩
    · obtain rfl := Option.some.inj he
      exact ⟨hp, h.born⟩
  | sweep idx =>
    simp only [Passed, hpc] at hp
    simp only [mainStep, hpc, Option.some.injEq] at he
    subst he
    refine ⟨?_, h.born⟩
    simp only [Passed, sweepPc]
    split_ifs <;> exact hp
  | join i =>
    simp only [Passed, hpc] at hp
    simp only [mainStep, joinStep, hpc] at he
    obtain ⟨j, -, he⟩ := Option.bind_eq_some_iff.mp he
    simp only [Option.ite_none_right_eq_some, Option.some.injEq] at he
    obtain ⟨-, rfl⟩ := he
    exact ⟨hp, h.born⟩
  | mark i =>
    simp only [Passed, hpc] at hp
    simp only [mainStep, hpc, Option.some.injEq] at he
    subst he
    exact ⟨hp, h.born⟩
  | create i | waiting | exited | failed => simp [mainStep, hpc] at he

lemma createStep_entered (h : Entered s) (he : createStep s = some s') : Entered s' := by
  have hp := h.passed
  cases hpc : s.main with
  | create i =>
    simp only [Passed, hpc] at hp
    simp only [createStep, hpc, Roster.create, Option.map_eq_some_iff,
      Option.ite_none_right_eq_some, Option.some.injEq] at he
    obtain ⟨r, ⟨-, rfl⟩, rfl⟩ := he
    refine ⟨fun j hj => hp j (Nat.lt_succ_iff.mp hj), fun j hj => ?_⟩
    by_cases hji : j = i
    · exact hp j hji.le
    · exact h.born j (by simpa [hji] using hj)
  | init idx | total | test | lock | guard | waiting | sweep idx | join i | mark i | unlock | exited
  | failed => simp [createStep, hpc] at he

lemma step_entered (h : Entered s) (hg : FirstHalf s l) (he : step args s l = some s') :
    Entered s' := by
  simp only [step, Option.ite_none_left_eq_some] at he
  obtain ⟨-, he⟩ := he
  cases l with
  | main => exact mainStep_entered h (fun idx => hg idx rfl) he
  | create => exact createStep_entered h he
  | createFails =>
    cases hpc : s.main with
    | create i =>
      simp only [createFails, hpc, Option.some.injEq] at he
      subst he
      exact ⟨trivial, h.born⟩
    | _ => simp [createFails, hpc] at he
  | resume =>
    have hp := h.passed
    simp only [resumeStep, Option.ite_none_right_eq_some, Option.map_eq_some_iff] at he
    obtain ⟨hpc, m, -, rfl⟩ := he
    simp only [Passed, hpc] at hp
    exact ⟨hp, h.born⟩
  | spurious =>
    obtain ⟨m, -, rfl⟩ := Option.map_eq_some_iff.mp he
    exact ⟨h.passed, h.born⟩
  | threadFunc i a =>
    obtain ⟨r, hr, rfl⟩ := Option.map_eq_some_iff.mp he
    obtain ⟨hb, hsame⟩ := act_born hr
    refine ⟨h.passed, fun j hj => ?_⟩
    by_cases hji : j = i
    · exact hji ▸ h.born i hb
    · exact h.born j (by rwa [← hsame j hji])

lemma access_inside (h : Entered s) (hg : FirstHalf s l) (he : step args s l = some s')
    (ha : access s l = some i) : Inside i := by
  have hp := h.passed
  simp only [step, Option.ite_none_left_eq_some] at he
  obtain ⟨-, he⟩ := he
  cases l with
  | main =>
    cases hpc : s.main with
    | init idx =>
      simp only [access, hpc] at ha
      split_ifs at ha with hlt
      obtain rfl := Option.some.inj ha
      exact inside_iff.mpr (hg idx rfl hpc hlt)
    | sweep idx =>
      simp only [Passed, hpc] at hp
      exact hp i
    | join j | mark j =>
      simp only [Passed, hpc] at hp
      exact hp i
    | create j | total | test | lock | guard | waiting | unlock | exited | failed =>
      simp [access, hpc] at ha
  | create =>
    cases hpc : s.main with
    | create j =>
      simp only [access, hpc, Option.some.injEq] at ha
      simp only [Passed, hpc] at hp
      exact hp i ha.ge
    | _ => simp [access, hpc] at ha
  | threadFunc j a =>
    obtain ⟨r, hr, -⟩ := Option.map_eq_some_iff.mp he
    have hb := (act_born hr).1
    cases a with
    | awake | mark =>
      obtain rfl := Option.some.inj ha
      exact h.born j hb
    | start | lock | unlock | signal woken => cases ha
  | createFails | resume | spurious => cases ha

lemma start_entered (n : ℕ) : Entered (start n) :=
  ⟨fun i hi => absurd hi (Nat.not_lt_zero i), fun _ h => absurd rfl h⟩

lemma second_half_outside (xs : List (Fin n)) (hg : ¬ FirstHalf s l) :
    ∃ i ∈ accesses xs s l, ¬ Inside i := by
  simp only [FirstHalf, not_forall] at hg
  obtain ⟨idx, rfl, hpc, hlt, hout⟩ := hg
  refine ⟨⟨idx, hlt⟩, ?_, by rwa [inside_iff]⟩
  simp [accesses, access, hpc, hlt]

theorem accesses_inside_iff (args : Fin n → ℤ) (ls : List (Label n)) (q : State n × List (Fin n))
    (hr : (accessed args).Run (start n, []) ls q) :
    (accessed args).Along (fun q => ∀ i ∈ q.2, (i + 1) * entrySize ≤ requested n)
        (start n, []) ls ↔
      (accessed args).Guarded (fun q l => FirstHalf q.1 l) (start n, []) ls := by
  apply System.along_iff_guarded (K := fun q => Entered q.1 ∧ ∀ i ∈ q.2, Inside i) _ _ _
    ⟨start_entered n, fun _ hi => absurd hi List.not_mem_nil⟩ hr
  · exact fun q h => h.2
  · rintro q l q' ⟨h, hx⟩ hg he
    obtain ⟨he, hxs⟩ := System.record_step.mp he
    refine ⟨step_entered h hg he, fun i hi => ?_⟩
    rw [hxs, accesses, List.mem_append, Option.mem_toList] at hi
    exact hi.elim (hx i) (access_inside h hg he)
  · rintro q l q' - hg he hin
    obtain ⟨-, hxs⟩ := System.record_step.mp he
    obtain ⟨i, hi, hout⟩ := second_half_outside q.2 hg
    exact hout (hin i (hxs ▸ hi))

theorem accesses_inside_iff_pair : ∃ q, (accessed fun _ : Fin 2 => 3).Run (start 2, [])
    [.main, .create, .threadFunc 0 .awake] q ∧
    ((accessed fun _ : Fin 2 => 3).Along (fun q => ∀ i ∈ q.2, (i + 1) * entrySize ≤ requested 2)
        (start 2, []) [.main, .create, .threadFunc 0 .awake] ↔
      (accessed fun _ : Fin 2 => 3).Guarded (fun q l => FirstHalf q.1 l) (start 2, [])
        [.main, .create, .threadFunc 0 .awake]) := by
  have hrun : ((accessed fun _ : Fin 2 => 3).exec (start 2, [])
      [.main, .create, .threadFunc 0 .awake]).isSome = true := by decide
  obtain ⟨q, hr⟩ := System.exists_run hrun
  exact ⟨q, hr, accesses_inside_iff (fun _ : Fin 2 => 3) _ q hr⟩

/-- With one argument, eight bytes are requested for an entry of sixteen. -/
theorem first_access_outside : ∃ q, (accessed fun _ : Fin 1 => 3).Reachable q ∧ q.2 = [0] ∧
    ¬ ∀ i ∈ q.2, (i + 1) * entrySize ≤ requested 1 := by
  have hrun : ((accessed fun _ : Fin 1 => 3).exec (start 1, []) [.main]).map Prod.snd =
      some [0] := by decide
  have h₀ : (accessed fun _ : Fin 1 => 3).initial (start 1, []) := ⟨rfl, rfl⟩
  obtain ⟨q, hq, he⟩ := System.Reachable.observe h₀ hrun
  refine ⟨q, hq, he, ?_⟩
  rw [he]
  decide

end UnixProgramming.MultiJoin
