import UnixProgramming.ProcessServer.Model
import Mathlib.Tactic

/-! Which descriptor the accept loop hands over to the child. -/

namespace UnixProgramming.ProcessServer

open Library Library.Transition

variable {s s' : State} {q q' : Proc} {p : ℕ} {listenfd : ℤ} {inherited : Finset ℤ}

structure HandsOver (q : Proc) : Prop where
  loop : q.pc = .fork → q.accepted = some q.communicatefd
  child : q.pc = .read ∨ q.pc = .respond → q.accepted = some q.communicatefd
  parent : q.pc = .top → 0 < q.pid → q.fds.file = q.before

/-- The loop tests an `accept` that was interrupted, or one that returned the
descriptor 0. -/
def TestsZero (s : State) (l : Label) : Prop :=
  ∀ p q ret, l = .act p .statement → s.procs p = some q → q.pc = .test ret →
    ret = -1 ∧ q.errno = EINTR ∨ ret = 0

def Accepts (before : ℤ → Option File) (fd : ℤ) (fds : Descriptors) : Prop :=
  ∃ d : Descriptors, d.file = before ∧ d.accept fd = some fds

def Intact (q : Proc) : Prop :=
  match q.pc with
  | .top => 0 < q.pid → q.fds.file = q.before
  | .accept => q.accepted = none ∧ q.fds.file = q.before
  | .test ret => ret = -1 ∧ q.accepted = none ∧ q.fds.file = q.before ∨
    ret ≠ -1 ∧ q.accepted = some ret ∧ Accepts q.before ret q.fds
  | .fork | .dispatch | .closeParent =>
    q.accepted = some q.communicatefd ∧ Accepts q.before q.communicatefd q.fds
  | .closeListen | .read | .respond | .closeCommunicate =>
    q.accepted = some q.communicatefd ∧ q.pid = 0
  | .exited => True

lemma Accepts.close {before : ℤ → Option File} {fd : ℤ} {fds : Descriptors}
    (h : Accepts before fd fds) : (fds.close fd).file = before := by
  obtain ⟨d, rfl, ha⟩ := h
  exact Descriptors.close_accept ha

lemma Intact.handsOver (h : Intact q) : HandsOver q := by
  refine ⟨fun hpc => ?_, fun hpc => ?_, fun hpc => ?_⟩
  · simp only [Intact, hpc] at h
    exact h.1
  · rcases hpc with hpc | hpc <;>
      · simp only [Intact, hpc] at h
        exact h.1
  · simp only [Intact, hpc] at h
    exact h

lemma statementStep_intact (h : Intact q)
    (hc : ∀ ret, q.pc = .test ret → ret = -1 ∧ q.errno = EINTR ∨ ret = 0)
    (he : statementStep q = some q') : Intact q' := by
  cases hpc : q.pc with
  | top =>
    simp only [statementStep, hpc, Option.some.injEq] at he
    subst he
    exact ⟨rfl, rfl⟩
  | test ret =>
    simp only [statementStep, hpc, Option.some.injEq] at he
    simp only [Intact, hpc] at h
    subst he
    rcases hc ret hpc with hr | rfl
    · rw [testStep, if_pos hr]
      rcases h with ⟨-, hn, hf⟩ | ⟨hne, -⟩
      · exact ⟨hn, hf⟩
      · exact absurd hr.1 hne
    · rw [testStep, if_neg (by simp)]
      rcases h with ⟨hr, -⟩ | ⟨-, ha⟩
      · cases hr
      · exact ha
  | dispatch =>
    simp only [statementStep, hpc, Option.some.injEq] at he
    simp only [Intact, hpc] at h
    subst he
    by_cases h₀ : q.pid = 0
    · simp only [Intact, if_pos h₀]
      exact ⟨h.1, h₀⟩
    · by_cases h₁ : 0 < q.pid
      · simp only [Intact, if_neg h₀, if_pos h₁]
        exact h
      · simp only [Intact, if_neg h₀, if_neg h₁]
  | closeListen =>
    simp only [statementStep, hpc, Option.some.injEq] at he
    simp only [Intact, hpc] at h
    subst he
    exact h
  | closeCommunicate =>
    simp only [statementStep, hpc, Option.some.injEq] at he
    simp only [Intact, hpc] at h
    subst he
    intro hpos
    exact absurd h.2 hpos.ne'
  | closeParent =>
    simp only [statementStep, hpc, Option.some.injEq] at he
    simp only [Intact, hpc] at h
    subst he
    exact fun _ => h.2.close
  | accept | fork | read | respond | exited => simp [statementStep, hpc] at he

lemma acceptStep_intact {ret err : ℤ} (h : Intact q) (he : acceptStep q ret err = some q') :
    Intact q' := by
  simp only [acceptStep] at he
  split_ifs at he with hpc hr _ hl
  · obtain rfl := Option.some.inj he
    simp only [Intact, hpc] at h
    exact Or.inl ⟨hr, h⟩
  · obtain ⟨fds, ha, rfl⟩ := Option.map_eq_some_iff.mp he
    simp only [Intact, hpc] at h
    refine Or.inr ⟨hr, ?_, q.fds, h.2, ha⟩
    rw [h.1]
    rfl

lemma actStep_intact {a : Action} (h : Intact q)
    (hc : a = .statement → ∀ ret, q.pc = .test ret → ret = -1 ∧ q.errno = EINTR ∨ ret = 0)
    (he : actStep q a = some q') : Intact q' := by
  cases a with
  | statement => exact statementStep_intact h (hc rfl) he
  | accept ret err => exact acceptStep_intact h he
  | forkFails =>
    obtain ⟨-, rfl⟩ : _ ∧ { q with pc := .exited } = q' := by simpa [actStep] using he
    trivial
  | read r =>
    simp only [actStep, readStep, Option.ite_none_right_eq_some, Option.some.injEq] at he
    obtain ⟨⟨hpc, -⟩, rfl⟩ := he
    simp only [Intact, hpc] at h
    cases r <;> exact h
  | write =>
    obtain ⟨hpc, rfl⟩ : q.pc = .respond ∧ { q with pc := .read } = q' := by
      simpa [actStep] using he
    simp only [Intact, hpc] at h
    exact h
  | sigpipe =>
    obtain ⟨-, rfl⟩ : _ ∧ { q with pc := .exited } = q' := by simpa [actStep] using he
    trivial
  | recycle childless =>
    obtain ⟨-, rfl⟩ : _ ∧ recycle q childless = q' := by simpa [actStep] using he
    exact h

lemma setProc_procs {r : ℕ} : (s.setProc p q).procs r = some q' ↔
    r = p ∧ q = q' ∨ r ≠ p ∧ s.procs r = some q' := by
  by_cases h : r = p <;> simp [State.setProc, h]

lemma step_intact {l : Label} (h : ∀ p q, s.procs p = some q → Intact q) (hc : TestsZero s l)
    (he : step s l = some s') : ∀ p q, s'.procs p = some q → Intact q := by
  intro r v hv
  cases l with
  | act p a =>
    obtain ⟨q, hq, he⟩ := Option.bind_eq_some_iff.mp he
    obtain ⟨q', ha, rfl⟩ := Option.map_eq_some_iff.mp he
    rcases setProc_procs.mp hv with ⟨-, rfl⟩ | ⟨-, hv⟩
    · exact actStep_intact (h p q hq) (fun ha ret => hc p q ret (ha ▸ rfl) hq) ha
    · exact h r v hv
  | fork p =>
    obtain ⟨q, hq, he⟩ := Option.bind_eq_some_iff.mp he
    obtain ⟨hpc, rfl⟩ := by simpa only [forkStep, Option.ite_none_right_eq_some,
      Option.some.injEq] using he
    have hi : Intact q := h p q hq
    simp only [Intact, hpc] at hi
    rcases setProc_procs.mp hv with ⟨-, rfl⟩ | ⟨-, hv⟩
    · exact hi
    · rcases setProc_procs.mp hv with ⟨-, rfl⟩ | ⟨-, hv⟩
      · exact hi
      · exact h r v hv

lemma test_breaks {l : Label} (h : ∀ p q, s.procs p = some q → Intact q) (hc : ¬ TestsZero s l)
    (he : step s l = some s') : ¬ ∀ p q, s'.procs p = some q → HandsOver q := by
  simp only [TestsZero, not_forall, not_or] at hc
  obtain ⟨p, q, ret, rfl, hq, hpc, hr, h₀⟩ := hc
  obtain ⟨v, hv, he⟩ := Option.bind_eq_some_iff.mp he
  obtain rfl : q = v := Option.some.inj (hq.symm.trans hv)
  obtain ⟨q', ha, rfl⟩ := Option.map_eq_some_iff.mp he
  simp only [actStep, statementStep, hpc, Option.some.injEq] at ha
  rw [testStep, if_neg hr] at ha
  subst ha
  intro hall
  have hl := (hall p _ (setProc_procs.mpr (Or.inl ⟨rfl, rfl⟩))).loop rfl
  have hi : Intact q := h p q hq
  simp only [Intact, hpc] at hi
  rcases hi with ⟨-, hn, -⟩ | ⟨-, hs, -⟩
  · rw [hn] at hl
    cases hl
  · rw [hs] at hl
    exact h₀ (Option.some.inj hl)

lemma start_intact : ∀ p q, (start listenfd inherited).procs p = some q → Intact q := by
  intro p q hq
  by_cases hp : p = 0
  · rw [hp] at hq
    obtain rfl := Option.some.inj hq
    exact fun h => absurd h (lt_irrefl _)
  · simp [start, hp] at hq

theorem hands_over_iff (listenfd : ℤ) (inherited : Finset ℤ) (ls : List Label) (s : State)
    (hr : (system listenfd inherited).Run (start listenfd inherited) ls s) :
    (system listenfd inherited).Along (fun r => ∀ p q, r.procs p = some q → HandsOver q)
        (start listenfd inherited) ls ↔
      (system listenfd inherited).Guarded TestsZero (start listenfd inherited) ls :=
  System.along_iff_guarded (fun _ h p q hq => (h p q hq).handsOver)
    (fun _ _ _ h hc he => step_intact h hc he) (fun _ _ _ h hc he => test_breaks h hc he)
    start_intact hr

/-- `accept` returns 0, the child reads from the connection and the parent closes it. -/
def handedOver : List Label :=
  [.act 0 .statement, .act 0 (.accept 0 0), .act 0 .statement, .fork 0, .act 0 .statement,
    .act 0 .statement, .act 1 .statement, .act 1 .statement]

theorem hands_over_iff_accepted : ∃ s child,
    (system 3 {1, 2}).Run (start 3 {1, 2}) handedOver s ∧
    s.procs 1 = some child ∧ child.pc = .read ∧ child.accepted = some child.communicatefd ∧
    ((system 3 {1, 2}).Along (fun r => ∀ p q, r.procs p = some q → HandsOver q)
        (start 3 {1, 2}) handedOver ↔
      (system 3 {1, 2}).Guarded TestsZero (start 3 {1, 2}) handedOver) := by
  have hrun : ((system 3 {1, 2}).exec (start 3 {1, 2}) handedOver).map
      (fun s => (s.procs 1).map fun q => (q.pc, q.accepted, q.communicatefd)) =
      some (some (.read, some 0, 0)) := rfl
  obtain ⟨s, hs, he⟩ := Option.map_eq_some_iff.mp hrun
  obtain ⟨child, hc, he⟩ := Option.map_eq_some_iff.mp he
  simp only [Prod.mk.injEq] at he
  obtain ⟨hpc, ha, hfd⟩ := he
  have hr := System.run_iff_exec.mpr hs
  exact ⟨s, child, hr, hc, hpc, by rw [ha, hfd], hands_over_iff 3 {1, 2} _ s hr⟩

/-- The first client gets descriptor 5: its child reads descriptor 0, and the
parent keeps descriptor 5 open. -/
theorem child_reads_standard_input : ∃ s parent child, (system 3 {0, 1, 2}).Reachable s ∧
    s.procs 0 = some parent ∧ s.procs 1 = some child ∧
    (parent.pc = .top ∧ 0 < parent.pid ∧ parent.before 5 = none ∧
      parent.fds.file 5 = some (.connection 0)) ∧
    (child.pc = .read ∧ child.accepted = some 5 ∧ child.communicatefd = 0) ∧
    ¬ HandsOver parent ∧ ¬ HandsOver child := by
  have hrun : ((system 3 {0, 1, 2}).exec (start 3 {0, 1, 2})
      [.act 0 .statement, .act 0 (.accept 5 0), .act 0 .statement, .fork 0,
        .act 0 .statement, .act 0 .statement, .act 1 .statement, .act 1 .statement]).map
      (fun s => ((s.procs 0).map fun q => (q.pc, q.pid, q.before 5, q.fds.file 5),
        (s.procs 1).map fun q => (q.pc, q.accepted, q.communicatefd))) =
      some (some (.top, 1, none, some (.connection 0)), some (.read, some 5, 0)) := rfl
  obtain ⟨s, hs, he⟩ := System.Reachable.observe rfl hrun
  obtain ⟨h₀, h₁⟩ := Prod.mk.inj he
  obtain ⟨parent, hp, hpe⟩ := Option.map_eq_some_iff.mp h₀
  obtain ⟨child, hc, hce⟩ := Option.map_eq_some_iff.mp h₁
  simp only [Prod.mk.injEq] at hpe hce
  obtain ⟨hpc, hpid, hb, hf⟩ := hpe
  obtain ⟨hcc, ha, hfd⟩ := hce
  refine ⟨s, parent, child, hs, hp, hc, ⟨hpc, by omega, hb, hf⟩, ⟨hcc, ha, hfd⟩, ?_, ?_⟩
  · intro h
    have hfile := congrFun (h.parent hpc (by omega)) 5
    rw [hb, hf] at hfile
    cases hfile
  · intro h
    have hacc := h.child (Or.inl hcc)
    rw [ha, hfd] at hacc
    cases hacc

end UnixProgramming.ProcessServer
