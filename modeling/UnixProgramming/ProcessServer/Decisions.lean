import UnixProgramming.ProcessServer.Model

/-! The test of `errno` in `main`'s loop around `accept`, beside the handler `recycle`, whose
calls may write `errno` too. -/

namespace UnixProgramming.ProcessServer.Decisions

open Library Library.Transition

inductive Pc
  | accept
  | test (ret : ℤ)
  | fork
  | rest
  | exited
  deriving DecidableEq, Repr

inductive Decision
  | retry
  | proceed
  deriving DecidableEq, Repr

-- `children` are those that have not been waited for.
structure State where
  pc : Pc
  errno : ℤ
  children : ℕ
  decisions : List Decision
  deriving DecidableEq, Repr

def start : State where
  pc := .accept
  errno := 0
  children := 0
  decisions := []

/-- A delivery comes with what each `printf` of the handler writes to `errno`, if it does. -/
inductive Label
  | accept (ret err : ℤ)
  | test
  | fork
  | child
  | forkFails
  | rest (err : ℤ)
  | deliver (prints : List (Option ℤ))
  deriving DecidableEq, Repr

def Label.delivery : Label → Bool
  | .deliver _ => true
  | .accept _ _ | .test | .fork | .child | .forkFails | .rest _ => false

/-- The loop of the handler: one round for each child that has terminated, and the `waitpid`
that ends it. -/
def recycle : List (Option ℤ) → ℤ → ℕ → Option (ℤ × ℕ)
  | [], errno, children => some (if children = 0 then ECHILD else errno, children)
  | _ :: _, _, 0 => none
  | print :: prints, errno, children + 1 => recycle prints (print.getD errno) children

def testStep (s : State) (ret : ℤ) : State :=
  if ret = -1 ∧ s.errno = EINTR then
    { s with pc := .accept, decisions := s.decisions ++ [.retry] }
  else { s with pc := .fork, decisions := s.decisions ++ [.proceed] }

def step (s : State) : Label → Option State
  | .accept ret err =>
    if s.pc = .accept then
      some { s with errno := if ret = -1 then err else s.errno, pc := .test ret }
    else none
  | .test =>
    match s.pc with
    | .test ret => some (testStep s ret)
    | _ => none
  | .fork => if s.pc = .fork then some { s with children := s.children + 1, pc := .rest } else none
  -- The child comes back to `accept` when its client has left.
  | .child => if s.pc = .fork then some { s with children := 0, pc := .rest } else none
  | .forkFails => if s.pc = .fork then some { s with pc := .exited } else none
  | .rest err => if s.pc = .rest then some { s with errno := err, pc := .accept } else none
  | .deliver prints =>
    if s.pc = .exited then none
    else (recycle prints s.errno s.children).map fun r =>
      { s with errno := r.1, children := r.2 }

def system : System State Label where
  initial s := s = start
  step := step

def others (ls : List Label) : List Label :=
  ls.filter fun l => !l.delivery

/-- The last value that one of the `printf` calls writes to `errno`. -/
def written (prints : List (Option ℤ)) : Option ℤ :=
  (prints.filterMap id).getLast?

/-- Between a failed `accept` and the test: after `EINTR` a child is left and no `printf`
writes another value; after another error no child is left or no `printf` writes `EINTR`. -/
def Harmless (s : State) : Label → Prop
  | .deliver prints => s.pc = .test (-1) →
    if s.errno = EINTR then prints.length < s.children ∧ ∀ e ∈ written prints, e = EINTR
    else prints.length = s.children ∨ written prints ≠ some EINTR
  | .accept _ _ | .test | .fork | .child | .forkFails | .rest _ => True

instance (s : State) : (l : Label) → Decidable (Harmless s l)
  | .deliver _ => inferInstanceAs (Decidable (_ → _))
  | .accept _ _ | .test | .fork | .child | .forkFails | .rest _ => isTrue trivial

structure Agree (s s₀ : State) : Prop where
  pc : s.pc = s₀.pc
  decisions : s.decisions = s₀.decisions
  errno : s.pc = .test (-1) → (s.errno = EINTR ↔ s₀.errno = EINTR)

variable {s t s₀ : State} {l : Label} {ls ls' : List Label} {prints : List (Option ℤ)}
  {errno : ℤ} {children : ℕ} {r : ℤ × ℕ}

lemma written_cons {print : Option ℤ} :
    (written (print :: prints)).getD errno = (written prints).getD (print.getD errno) := by
  cases print with
  | none => rfl
  | some e =>
    simp only [written, List.filterMap_cons, id, List.getLast?_cons, Option.getD_some]

lemma recycle_some (h : recycle prints errno children = some r) :
    prints.length ≤ children ∧
      r = (if prints.length = children then ECHILD else (written prints).getD errno,
        children - prints.length) := by
  induction prints generalizing errno children with
  | nil =>
    simp only [recycle, Option.some.injEq] at h
    rw [← h]
    exact ⟨Nat.zero_le _, by simp [written, eq_comm]⟩
  | cons print prints ih =>
    cases children with
    | zero => cases h
    | succ children =>
      obtain ⟨hle, hr⟩ := ih h
      rw [hr, written_cons]
      exact ⟨by simpa using hle, by simp⟩

lemma window_iff (h : recycle prints errno children = some r) :
    (if errno = EINTR then prints.length < children ∧ ∀ e ∈ written prints, e = EINTR
      else prints.length = children ∨ written prints ≠ some EINTR) ↔
      (r.1 = EINTR ↔ errno = EINTR) := by
  obtain ⟨hle, rfl⟩ := recycle_some h
  have hchild : ECHILD ≠ EINTR := by decide
  by_cases hlen : prints.length = children
  · by_cases he : errno = EINTR
    · simp [he, hlen, hchild]
    · simp [he, hlen, hchild]
  · have hlt : prints.length < children := Nat.lt_of_le_of_ne hle hlen
    by_cases he : errno = EINTR
    · cases hw : written prints with
      | none => simp [he, hlt, hlen]
      | some e => simp [he, hlt, hlen]
    · cases hw : written prints with
      | none => simp [he, hlen]
      | some e => simp [he, hlen]

lemma deliver_agree (h : Agree s s₀) (hg : Harmless s l) (hl : l.delivery = true)
    (he : step s l = some t) : Agree t s₀ := by
  cases l with
  | deliver prints =>
    simp only [step, Option.ite_none_left_eq_some, Option.map_eq_some_iff] at he
    obtain ⟨-, r, hr, rfl⟩ := he
    refine ⟨h.pc, h.decisions, fun hpc => ?_⟩
    exact ((window_iff hr).mp (hg hpc)).trans (h.errno hpc)
  | accept ret err | test | fork | child | forkFails | rest err => cases hl

lemma test_agree {ret : ℤ} (h : Agree s s₀) (hpc : s.pc = .test ret) :
    Agree (testStep s ret) (testStep s₀ ret) := by
  have htest : (ret = -1 ∧ s.errno = EINTR) ↔ (ret = -1 ∧ s₀.errno = EINTR) := by
    apply and_congr_right
    rintro rfl
    exact h.errno hpc
  by_cases hc : ret = -1 ∧ s.errno = EINTR
  · rw [testStep, if_pos hc, testStep, if_pos (htest.mp hc)]
    exact ⟨rfl, congrArg (· ++ [.retry]) h.decisions, fun hp => by cases hp⟩
  · rw [testStep, if_neg hc, testStep, if_neg fun hc' => hc (htest.mpr hc')]
    exact ⟨rfl, congrArg (· ++ [.proceed]) h.decisions, fun hp => by cases hp⟩

lemma step_agree (h : Agree s s₀) (hl : l.delivery = false) (he : step s l = some t) :
    ∃ t₀, step s₀ l = some t₀ ∧ Agree t t₀ := by
  have hpc := h.pc
  cases l with
  | accept ret err =>
    simp only [step, Option.ite_none_right_eq_some, Option.some.injEq] at he
    obtain ⟨ha, rfl⟩ := he
    refine ⟨_, if_pos (hpc ▸ ha), rfl, h.decisions, fun hp => ?_⟩
    simp only [Pc.test.injEq] at hp
    simp only [if_pos hp]
  | test =>
    cases ht : s.pc with
    | test ret =>
      simp only [step, ht, Option.some.injEq] at he
      subst he
      refine ⟨testStep s₀ ret, ?_, test_agree h ht⟩
      simp only [step, ← hpc, ht]
    | accept | fork | rest | exited => simp [step, ht] at he
  | fork | child | forkFails | rest err =>
    simp only [step, Option.ite_none_right_eq_some, Option.some.injEq] at he
    obtain ⟨hf, rfl⟩ := he
    exact ⟨_, if_pos (hpc ▸ hf), rfl, h.decisions, fun hp => by cases hp⟩
  | deliver prints => cases hl

/-- With harmless deliveries `main` decides as it does without any. -/
theorem run_agree (hr : system.Run start ls s) (hg : system.Guarded Harmless start ls) :
    ∃ t, system.Run start (others ls) t ∧ Agree s t := by
  have hdeliver : ∀ s l t s₀, Agree s s₀ → Harmless s l → l.delivery = true →
      system.step s l = some t → Agree t s₀ := fun _ _ _ _ h hc hl he => deliver_agree h hc hl he
  have hstep : ∀ s l t s₀, Agree s s₀ → l.delivery = false → system.step s l = some t →
      ∃ t₀, system.step s₀ l = some t₀ ∧ Agree t t₀ := fun _ _ _ _ h hl he => step_agree h hl he
  exact hr.silenced hdeliver hstep hg ⟨rfl, rfl, fun _ => Iff.rfl⟩

/-- Any other delivery between `accept` and the test turns the decision. -/
theorem harmful_turns (hg : ¬ Harmless s (.deliver prints))
    (hr : recycle prints s.errno s.children = some r) :
    ∃ t u, system.Run s [.test] t ∧ system.Run s [.deliver prints, .test] u ∧
      t.decisions ≠ u.decisions := by
  have hpc : s.pc = .test (-1) := by
    by_contra hne
    exact hg fun hp => absurd hp hne
  have hturn : ¬ (r.1 = EINTR ↔ s.errno = EINTR) := by
    rw [← window_iff hr]
    exact fun hh => hg fun _ => hh
  refine ⟨testStep s (-1), testStep { s with errno := r.1, children := r.2 } (-1), ?_, ?_, ?_⟩
  · exact System.run_iff_exec.mpr (by simp [System.exec, system, step, hpc])
  · exact System.run_iff_exec.mpr (by simp [System.exec, system, step, hpc, hr])
  · by_cases he : s.errno = EINTR
    · have hr' : r.1 ≠ EINTR := fun h => hturn ⟨fun _ => he, fun _ => h⟩
      simp [testStep, he, hr']
    · have hr' : r.1 = EINTR := by
        by_contra h
        exact hturn ⟨fun h' => absurd h' h, fun h' => absurd h' he⟩
      simp [testStep, he, hr']

theorem decisions_agree (ls ls' : List Label) (s s' : State) (hr : system.Run start ls s)
    (hr' : system.Run start ls' s') (hsame : others ls = others ls')
    (hg : system.Guarded Harmless start ls) (hg' : system.Guarded Harmless start ls') :
    s.decisions = s'.decisions := by
  obtain ⟨t, ht, ha⟩ := run_agree hr hg
  obtain ⟨t', ht', ha'⟩ := run_agree hr' hg'
  rw [← hsame] at ht'
  rw [ha.decisions, System.run_unique ht ht', ha'.decisions]

theorem decisions_agree_reaped : ∃ ls ls' s s',
    .deliver [] ∈ ls' ∧ system.Run start ls s ∧ system.Run start ls' s' ∧ others ls = others ls' ∧
      s.decisions = s'.decisions := by
  let connect : List Label := [.accept 5 0, .test, .fork, .rest 0, .accept (-1) EINTR]
  have hrun : (system.exec start (connect ++ [.test])).isSome = true := by decide
  have hrun' : (system.exec start (connect ++ [.deliver [], .test])).isSome = true := by decide
  obtain ⟨s, hr⟩ := System.exists_run hrun
  obtain ⟨s', hr'⟩ := System.exists_run hrun'
  exact ⟨_, _, s, s', by decide, hr, hr', rfl,
    decisions_agree _ _ s s' hr hr' rfl (by decide) (by decide)⟩

/-- The only child is reaped after `EINTR`: `errno` is `ECHILD`, and `main` goes on without a
connection. -/
theorem last_child_turns : ∃ ls ls' s s', system.Run start ls s ∧ system.Run start ls' s' ∧
    others ls = others ls' ∧ ls'.filter Label.delivery = [.deliver [none]] ∧
      ls.filter Label.delivery = [] ∧ s.decisions = [.proceed, .retry] ∧
        s'.decisions = [.proceed, .proceed] := by
  let connect : List Label := [.accept 5 0, .test, .fork, .rest 0, .accept (-1) EINTR]
  have hrun : (system.exec start (connect ++ [.test])).map State.decisions =
      some [.proceed, .retry] := by decide
  have hrun' : (system.exec start (connect ++ [.deliver [none], .test])).map State.decisions =
      some [.proceed, .proceed] := by decide
  obtain ⟨s, he, hs⟩ := Option.map_eq_some_iff.mp hrun
  obtain ⟨s', he', hs'⟩ := Option.map_eq_some_iff.mp hrun'
  exact ⟨_, _, s, s', System.run_iff_exec.mpr he, System.run_iff_exec.mpr he', rfl, rfl, rfl, hs,
    hs'⟩

end UnixProgramming.ProcessServer.Decisions
